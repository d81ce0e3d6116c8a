import PulseDag.Ghostdag.Reachable
import PulseDag.Legacy.Replay
import PulseDag.Lib.Window

/-!
# PulseClock

`pulseclock_v1.rs`: a time read off the timestamps on the selected chain below a tip. A block of the
chain is left out if any block of the DAG counts it among its merge-set reds, also a block that is
not below the tip. The observation depends on the past of the tip alone as long as no block outside
the past counts a block of the window among its reds, and while the window is not full it does not
otherwise.
-/

namespace PulseDag

open List

def pulseDomainV1 : String := "PulseDAG:pulse:v1"

def pulseVersionV1 : UInt32 := 1

def pulseWindowKV1 : UInt32 := 11

def pulseUncertaintyPolicyMaxSecsV1 : UInt32 := 600

def pulseFinalityDepthUnpublishedV1 : UInt64 := 0

/-- `PulseObservationV1`; the time is an `i64`. -/
structure PulseObservationV1 where
  pulseVersion : UInt32
  domain : String
  chainId : String
  selectedTip : Hash
  pulseHeight : UInt64
  pulseTime : ℤ
  windowK : UInt32
  sampleCount : UInt32
  uncertaintySecs : UInt32
  finalityLag : UInt64
  deriving DecidableEq, Repr

/-- `PulseClockV1Error`. -/
inductive PulseClockV1Error
  | selectedTipUnavailable
  | selectedTipBlockMissing (hash : Hash)
  deriving DecidableEq, Repr

/-- `is_selected_chain_blue_sample`. -/
def isSelectedChainBlueSample (state : ChainState) (hash : Hash) : Bool :=
  !state.dag.mergeSetReds.toList.any fun entry => entry.2.any (· == hash)

/-- `admitted_unix_timestamp`. -/
def admittedUnixTimestamp (state : ChainState) (hash : Hash) (timestamp : UInt64) : Option ℤ :=
  if timestamp = 0 ∧ hash ≠ state.dag.genesisHash then none
  else if timestamp.toNat < 2 ^ 63 then some timestamp.toNat
  else none

/-- The sample of one block of the chain. -/
def sampleAt (state : ChainState) (hash : Hash) : Option ℤ :=
  state.dag.blocks[hash]?.bind fun block =>
    if isSelectedChainBlueSample state hash then
      admittedUnixTimestamp state hash block.header.timestamp
    else none

/-- The loop of `collect_blue_window_timestamps`, down the chain. -/
def collectSamples (state : ChainState) (windowK : ℕ) : List Hash → List ℤ → List ℤ
  | [], samples => samples
  | hash :: rest, samples =>
    if windowK ≤ samples.length then samples
    else collectSamples state windowK rest (samples ++ (sampleAt state hash).toList)

/-- The chain that `collect_blue_window_timestamps` looks at. -/
def pulseChain (state : ChainState) (selectedTip : Hash) : List Hash :=
  let chain :=
    if state.dag.selectedChain.getLast? = some selectedTip ∧ state.dag.selectedChain ≠ [] then
      state.dag.selectedChain
    else rebuildSelectedChainFromTip state (some selectedTip)
  if chain.getLast? ≠ some selectedTip then rebuildSelectedChainFromTip state (some selectedTip)
  else chain

/-- `collect_blue_window_timestamps`. -/
def collectBlueWindowTimestamps (state : ChainState) (selectedTip : Hash) (windowK : UInt32) :
    List ℤ :=
  collectSamples state windowK.toNat (pulseChain state selectedTip).reverse []

/-- `median_sorted`. -/
def medianSorted (sorted : List ℤ) : ℤ :=
  let n := sorted.length
  if n = 0 then 0
  else if n % 2 = 1 then sorted[n / 2]?.getD 0
  else
    let lo := sorted[n / 2 - 1]?.getD 0
    let hi := sorted[n / 2]?.getD 0
    lo + (hi - lo).tdiv 2

/-- `robust_pulse_time`. The samples are between `0` and `2 ^ 63`, so the differences do not
saturate. -/
def robustPulseTime (samples : List ℤ) : ℤ × UInt32 :=
  let sorted := samples.insertionSort (· ≤ ·)
  if sorted.length < 3 then
    (if samples = [] then 0 else medianSorted sorted, pulseUncertaintyPolicyMaxSecsV1)
  else
    let clipped := (sorted.drop 1).dropLast
    let range := (clipped.getLastD 0 - clipped.headD 0).toNat
    let uncertainty := min (max ((range + 1) / 2) 1) pulseUncertaintyPolicyMaxSecsV1.toNat
    (medianSorted clipped, UInt32.ofNat uncertainty)

/-- `observe_pulse_v1_at`. -/
def observePulseV1At (state : ChainState) (selectedTip : Hash) :
    Except PulseClockV1Error PulseObservationV1 := do
  let tipBlock ← okOr state.dag.blocks[selectedTip]? (.selectedTipBlockMissing selectedTip)
  let pulseHeight := tipBlock.header.blueScore
  let samples := collectBlueWindowTimestamps state selectedTip pulseWindowKV1
  let (pulseTime, uncertaintySecs) := robustPulseTime samples
  pure
    { pulseVersion := pulseVersionV1
      domain := pulseDomainV1
      chainId := state.chainId
      selectedTip
      pulseHeight
      pulseTime
      windowK := pulseWindowKV1
      sampleCount := UInt32.ofNat samples.length
      uncertaintySecs
      finalityLag := saturatingSub pulseHeight pulseFinalityDepthUnpublishedV1 }

/-- `observe_pulse_v1`. -/
def observePulseV1 (state : ChainState) : Except PulseClockV1Error PulseObservationV1 := do
  let selectedTip ← okOr (preferredTipHash state) .selectedTipUnavailable
  observePulseV1At state selectedTip

/-! ## Two states with one past -/

variable {cursor : Option Hash}

section

variable {state state' : ChainState} {tip hash : Hash}

/-- The states agree on the tip, the blocks below it and their GHOSTDAG metadata. -/
structure AgreeBelow (state state' : ChainState) (tip : Hash) : Prop where
  chainId : state'.chainId = state.chainId
  genesisHash : state'.dag.genesisHash = state.dag.genesisHash
  blocks : ∀ hash, Ancestor state hash tip → state'.dag.blocks[hash]? = state.dag.blocks[hash]?
  selectedParents : ∀ hash, Ancestor state hash tip →
    state'.dag.selectedParents[hash]? = state.dag.selectedParents[hash]?
  mergeSetReds : ∀ hash, Ancestor state hash tip →
    state'.dag.mergeSetReds[hash]? = state.dag.mergeSetReds[hash]?

/-- Below the tip a recorded selected parent is a parent, and the recorded selected chain is the one
below its end. -/
structure SelectedChainOf (state : ChainState) (tip : Hash) : Prop where
  parentOf : ∀ child parent, Ancestor state child tip →
    state.dag.selectedParents[child]? = some (some parent) → ParentOf state parent child
  cached : state.dag.selectedChain.getLast? = some tip →
    state.dag.selectedChain = rebuildSelectedChainFromTip state (some tip)

/-- A block below the tip counts the block among its merge-set reds. -/
def RedBelow (state : ChainState) (tip hash : Hash) : Prop :=
  ∃ (merging : Hash) (reds : List Hash), Ancestor state merging tip ∧
    state.dag.mergeSetReds[merging]? = some reds ∧ hash ∈ reds

/-- A block that is not below the tip counts the block among its merge-set reds. -/
def RedOutside (state : ChainState) (tip hash : Hash) : Prop :=
  ∃ (merging : Hash) (reds : List Hash), ¬Ancestor state merging tip ∧
    state.dag.mergeSetReds[merging]? = some reds ∧ hash ∈ reds

/-- The time of a block of the chain, whatever its colour. -/
def timeAt (state : ChainState) (hash : Hash) : Option ℤ :=
  state.dag.blocks[hash]?.bind fun block => admittedUnixTimestamp state hash block.header.timestamp

open scoped Classical in
/-- The block would be sampled if only the past of the tip counted. -/
noncomputable def sampledBelow (state : ChainState) (tip hash : Hash) : Bool :=
  decide ((timeAt state hash).isSome = true ∧ ¬RedBelow state tip hash)

open scoped Classical in
/-- When a block of the past is sampled. -/
theorem sampledBelow_iff : sampledBelow state tip hash = true ↔
    (timeAt state hash).isSome = true ∧ ¬RedBelow state tip hash :=
  decide_eq_true_iff

/-- The blocks that would be sampled if only the past of the tip counted. -/
noncomputable def pastWindow (state : ChainState) (tip : Hash) : List Hash :=
  ((rebuildSelectedChainFromTip state (some tip)).reverse.filter (sampledBelow state tip)).take
    pulseWindowKV1.toNat

/-- No block outside the past of the tip counts a block of the window among its merge-set reds. -/
def RedsBelow (state : ChainState) (tip : Hash) : Prop :=
  ∀ hash ∈ pastWindow state tip, ¬RedOutside state tip hash

/-- The states have the same ancestors of the tip. -/
theorem AgreeBelow.ancestor_iff (h : AgreeBelow state state' tip) :
    Ancestor state' hash tip ↔ Ancestor state hash tip := by
  constructor
  · intro hancestor
    induction hancestor using Relation.ReflTransGen.head_induction_on with
    | refl => exact Ancestor.refl state tip
    | head hstep _ ih =>
      obtain ⟨block, hblock, hparent⟩ := hstep
      rw [h.blocks _ ih] at hblock
      exact (ParentOf.ancestor ⟨block, hblock, hparent⟩).trans ih
  · intro hancestor
    induction hancestor using Relation.ReflTransGen.head_induction_on with
    | refl => exact Ancestor.refl state' tip
    | head hstep hrest ih =>
      obtain ⟨block, hblock, hparent⟩ := hstep
      rw [← h.blocks _ hrest] at hblock
      exact (ParentOf.ancestor ⟨block, hblock, hparent⟩).trans ih

/-- A block is no sample if some block counts it as red. -/
theorem isSelectedChainBlueSample_eq_false : isSelectedChainBlueSample state hash = false ↔
    ∃ (merging : Hash) (reds : List Hash), state.dag.mergeSetReds[merging]? = some reds ∧
      hash ∈ reds := by
  simp only [isSelectedChainBlueSample, Bool.not_eq_false', any_eq_true, beq_iff_eq,
    Prod.exists, TreeMap.mem_toList, exists_eq_right]

/-- A block of the chain is sampled when it has a time and is red neither below the tip nor
outside. -/
theorem sampleAt_isSome (state : ChainState) (tip hash : Hash) :
    (sampleAt state hash).isSome = true ↔
    sampledBelow state tip hash = true ∧ ¬RedOutside state tip hash := by
  have hred : isSelectedChainBlueSample state hash = false ↔
      RedBelow state tip hash ∨ RedOutside state tip hash := by
    rw [isSelectedChainBlueSample_eq_false, RedBelow, RedOutside]
    constructor
    · rintro ⟨merging, reds, hmerging, hmem⟩
      by_cases hbelow : Ancestor state merging tip
      · exact .inl ⟨merging, reds, hbelow, hmerging, hmem⟩
      · exact .inr ⟨merging, reds, hbelow, hmerging, hmem⟩
    · rintro (⟨merging, reds, -, hmerging, hmem⟩ | ⟨merging, reds, -, hmerging, hmem⟩)
      · exact ⟨merging, reds, hmerging, hmem⟩
      · exact ⟨merging, reds, hmerging, hmem⟩
  rw [sampledBelow_iff, and_assoc, ← not_or, ← hred, Bool.not_eq_false, sampleAt, timeAt]
  cases state.dag.blocks[hash]? with
  | none => simp
  | some block => cases isSelectedChainBlueSample state hash <;> simp

/-- A sample is the time of its block. -/
theorem sampleAt_eq_timeAt (h : (sampleAt state hash).isSome = true) :
    sampleAt state hash = timeAt state hash := by
  rw [sampleAt, timeAt] at *
  cases hblock : state.dag.blocks[hash]? with
  | none => rfl
  | some block =>
    simp only [hblock, Option.bind_some] at h ⊢
    split at h
    · next hblue => rw [if_pos hblue]
    · cases h

/-- The loop takes the samples of the chain until the window is full. -/
theorem collectSamples_eq (state : ChainState) (windowK : ℕ) (chain : List Hash)
    (samples : List ℤ) : collectSamples state windowK chain samples =
      samples ++ (chain.filterMap (sampleAt state)).take (windowK - samples.length) := by
  induction chain generalizing samples with
  | nil => simp [collectSamples]
  | cons hash rest ih =>
    rw [collectSamples]
    split
    · next hfull => rw [Nat.sub_eq_zero_of_le hfull, take_zero, append_nil]
    · next hfull =>
      rw [ih]
      cases hsample : sampleAt state hash with
      | none => simp [hsample]
      | some time =>
        have hleft : windowK - samples.length = windowK - (samples.length + 1) + 1 := by omega
        rw [filterMap_cons_some hsample, hleft, take_succ_cons]
        simp

/-! ## The chain below a tip -/

variable {fuel : ℕ} {visited : TreeSet Hash}

/-- Once every stored block could be visited, more fuel does not change the walk. -/
theorem chainDownFrom_fuel (state : ChainState)
    (hfuel : (state.dag.blocks.keys.filter (· ∉ visited)).length < fuel) (more : ℕ) :
    chainDownFrom state (fuel + more) cursor visited =
      chainDownFrom state fuel cursor visited := by
  induction fuel generalizing cursor visited with
  | zero => omega
  | succ fuel ih =>
    cases cursor with
    | none => rw [chainDownFrom, chainDownFrom]
    | some hash =>
      rw [Nat.add_right_comm, chainDownFrom, chainDownFrom]
      split
      · next hstored =>
        rw [ih]
        -- The visited block no longer counts.
        have hmem : hash ∈ state.dag.blocks.keys.filter (· ∉ visited) := by
          simpa [Std.ExtTreeMap.mem_keys] using hstored
        have hless : state.dag.blocks.keys.filter (· ∉ visited.insert hash) =
            (state.dag.blocks.keys.filter (· ∉ visited)).filter (· ≠ hash) := by
          rw [filter_filter]
          refine filter_congr fun other _ => ?_
          simp [not_or, eq_comm (a := other)]
        have hlt : ((state.dag.blocks.keys.filter (· ∉ visited)).filter (· ≠ hash)).length <
            (state.dag.blocks.keys.filter (· ∉ visited)).length :=
          length_filter_lt_length_iff_exists.mpr ⟨hash, hmem, by simp⟩
        rw [hless]
        omega
      · rfl

/-- More fuel gives the same chain. -/
theorem rebuildSelectedChainFromTip_fuel (state : ChainState) (tip : Option Hash)
    (hfuel : state.dag.blocks.size < fuel) :
    (chainDownFrom state fuel tip ∅).reverse = rebuildSelectedChainFromTip state tip := by
  rw [rebuildSelectedChainFromTip]
  obtain ⟨more, rfl⟩ := Nat.exists_eq_add_of_lt hfuel
  rw [show state.dag.blocks.size + more + 1 = state.dag.blocks.size + 1 + more by omega,
    chainDownFrom_fuel]
  refine (length_filter_le _ _).trans_lt ?_
  rw [Std.ExtTreeMap.length_keys]
  omega

/-- The chain consists of ancestors of the tip. -/
theorem SelectedChainOf.ancestor_of_mem (h : SelectedChainOf state tip)
    (hcursor : ∀ c ∈ cursor, Ancestor state c tip) :
    ∀ hash ∈ chainDownFrom state fuel cursor visited, Ancestor state hash tip := by
  induction fuel generalizing cursor visited with
  | zero =>
    cases cursor <;> simp [chainDownFrom]
  | succ fuel ih =>
    cases cursor with
    | none => simp [chainDownFrom]
    | some current =>
      have hcurrent := hcursor current rfl
      rw [chainDownFrom]
      split
      · intro hash hmem
        rcases mem_cons.mp hmem with rfl | hmem
        · exact hcurrent
        · refine ih (fun parent hparent => ?_) hash hmem
          rw [Option.mem_def, Option.join_eq_some_iff] at hparent
          exact (h.parentOf current parent hcurrent hparent).ancestor.trans hcurrent
      · simp

/-- The states have the same chain below a cursor. -/
theorem AgreeBelow.chainDownFrom (h : AgreeBelow state state' tip)
    (hchain : SelectedChainOf state tip) (fuel : ℕ) (visited : TreeSet Hash)
    (hcursor : ∀ c ∈ cursor, Ancestor state c tip) :
    chainDownFrom state' fuel cursor visited = chainDownFrom state fuel cursor visited := by
  induction fuel generalizing cursor visited with
  | zero => cases cursor <;> rfl
  | succ fuel ih =>
    cases cursor with
    | none => rfl
    | some current =>
      have hcurrent := hcursor current rfl
      have hstored : current ∈ state'.dag.blocks ↔ current ∈ state.dag.blocks :=
        TreeMap.mem_congr (h.blocks current hcurrent)
      simp only [PulseDag.chainDownFrom, hstored, h.selectedParents current hcurrent]
      split
      · rw [ih]
        intro parent hparent
        rw [Option.mem_def, Option.join_eq_some_iff] at hparent
        exact (hchain.parentOf current parent hcurrent hparent).ancestor.trans hcurrent
      · rfl

/-- The states have the same chain to the tip. -/
theorem AgreeBelow.rebuildSelectedChainFromTip (h : AgreeBelow state state' tip)
    (hchain : SelectedChainOf state tip) :
    rebuildSelectedChainFromTip state' (some tip) = rebuildSelectedChainFromTip state
    (some tip) := by
  set fuel := max state.dag.blocks.size state'.dag.blocks.size + 1
  rw [← rebuildSelectedChainFromTip_fuel state' (some tip) (show _ < fuel by omega),
    ← rebuildSelectedChainFromTip_fuel state (some tip) (show _ < fuel by omega),
    h.chainDownFrom hchain fuel ∅]
  rintro c ⟨⟩
  exact Ancestor.refl state tip

/-- The observed chain is the selected one. -/
theorem SelectedChainOf.pulseChain (h : SelectedChainOf state tip) :
    pulseChain state tip = rebuildSelectedChainFromTip state (some tip) := by
  rw [PulseDag.pulseChain]
  split
  · next hcached =>
    rw [if_neg (not_not.mpr hcached.1)]
    exact h.cached hcached.1
  · split
    · rfl
    · rfl

/-- The blocks that are sampled. -/
def sampledBlocks (state : ChainState) (tip : Hash) : List Hash :=
  ((rebuildSelectedChainFromTip state (some tip)).reverse.filter fun hash =>
    (sampleAt state hash).isSome).take pulseWindowKV1.toNat

/-- The window is sampled exactly when no block outside the past counts one of it among its reds. -/
theorem sampledBlocks_eq_pastWindow_iff :
    sampledBlocks state tip = pastWindow state tip ↔ RedsBelow state tip := by
  rw [sampledBlocks, pastWindow, take_filter_eq_iff]
  · refine forall₂_congr fun hash hmem => ?_
    have hpast := of_mem_filter (mem_of_mem_take hmem)
    rw [sampleAt_isSome state tip, and_iff_right hpast]
  · exact fun hash _ hsampled => ((sampleAt_isSome state tip hash).mp hsampled).1

/-- The samples are the times of the sampled blocks. -/
theorem SelectedChainOf.samples_eq (h : SelectedChainOf state tip) :
    collectBlueWindowTimestamps state tip pulseWindowKV1 =
      (sampledBlocks state tip).filterMap (timeAt state) := by
  rw [collectBlueWindowTimestamps, h.pulseChain, collectSamples_eq, nil_append,
    length_nil, Nat.sub_zero, take_filterMap_eq]
  refine filterMap_congr fun hash hmem => sampleAt_eq_timeAt ?_
  exact (mem_filter.mp (mem_of_mem_take hmem)).2

/-- Every sampled block gives a time. -/
theorem length_filterMap_sampledBlocks :
    ((sampledBlocks state tip).filterMap (timeAt state)).length =
    (sampledBlocks state tip).length := by
  refine filterMap_length_eq_length.mpr fun hash hmem => ?_
  have hsampled := (mem_filter.mp (mem_of_mem_take hmem)).2
  exact (sampledBelow_iff.mp ((sampleAt_isSome state tip hash).mp hsampled).1).1

/-- The whole chain consists of ancestors. -/
theorem SelectedChainOf.ancestor_of_mem_chain (h : SelectedChainOf state tip)
    (hmem : hash ∈ (rebuildSelectedChainFromTip state (some tip)).reverse) :
    Ancestor state hash tip := by
  rw [PulseDag.rebuildSelectedChainFromTip, reverse_reverse] at hmem
  refine h.ancestor_of_mem (fun c hc => ?_) hash hmem
  cases hc
  exact Ancestor.refl state tip

/-- The chain below a tip that is not stored is empty. -/
theorem mem_blocks_of_mem_chain
    (hmem : hash ∈ (rebuildSelectedChainFromTip state (some tip)).reverse) :
    tip ∈ state.dag.blocks := by
  rw [rebuildSelectedChainFromTip, reverse_reverse, chainDownFrom] at hmem
  split at hmem
  · next hstored => exact hstored.1
  · cases hmem

/-- The states have the same times below the tip. -/
theorem AgreeBelow.timeAt (h : AgreeBelow state state' tip) (hhash : Ancestor state hash tip) :
    timeAt state' hash = timeAt state hash := by
  simp only [PulseDag.timeAt, admittedUnixTimestamp, h.blocks hash hhash, h.genesisHash]

/-- The window depends on the past alone. -/
theorem AgreeBelow.pastWindow (h : AgreeBelow state state' tip)
    (hchain : SelectedChainOf state tip) : pastWindow state' tip = pastWindow state tip := by
  have hred : ∀ hash, RedBelow state' tip hash ↔ RedBelow state tip hash := fun hash => by
    refine exists₂_congr fun merging reds => ?_
    rw [h.ancestor_iff]
    refine and_congr_right fun hbelow => ?_
    rw [h.mergeSetReds merging hbelow]
  rw [PulseDag.pastWindow, PulseDag.pastWindow, h.rebuildSelectedChainFromTip hchain]
  congr 1
  refine filter_congr fun hash hmem => Bool.eq_iff_iff.mpr ?_
  rw [sampledBelow_iff, sampledBelow_iff, hred, h.timeAt (hchain.ancestor_of_mem_chain hmem)]

/-- Two states agree on the past of a tip, and in one no block outside the past counts a block of
the window among its reds. The same blocks are sampled in the other exactly when the same holds in
it, and then the observations at the tip are equal. If it does not hold and the window is not full,
a sample is lost and they differ. -/
theorem observePulseV1At_past (hagree : AgreeBelow state state' tip)
    (hchain : SelectedChainOf state tip) (hchain' : SelectedChainOf state' tip)
    (hreds : RedsBelow state tip) :
    (sampledBlocks state' tip = sampledBlocks state tip ↔ RedsBelow state' tip) ∧
    (RedsBelow state' tip → observePulseV1At state' tip = observePulseV1At state tip) ∧
    ((pastWindow state tip).length < pulseWindowKV1.toNat →
      observePulseV1At state' tip = observePulseV1At state tip → RedsBelow state' tip) := by
  have hwindow := hagree.pastWindow hchain
  have hsampled := sampledBlocks_eq_pastWindow_iff.mpr hreds
  have htip := hagree.blocks tip (Ancestor.refl state tip)
  refine ⟨?_, fun hreds' => ?_, fun hshort heq => ?_⟩
  · rw [hsampled, ← hwindow]
    exact sampledBlocks_eq_pastWindow_iff
  · have hsamples : collectBlueWindowTimestamps state' tip pulseWindowKV1 =
        collectBlueWindowTimestamps state tip pulseWindowKV1 := by
      rw [hchain.samples_eq, hchain'.samples_eq, sampledBlocks_eq_pastWindow_iff.mpr hreds',
        hwindow, hsampled]
      refine filterMap_congr fun hash hmem => hagree.timeAt (hchain.ancestor_of_mem_chain ?_)
      exact mem_of_mem_filter (mem_of_mem_take hmem)
    simp only [observePulseV1At, htip, hsamples, hagree.chainId]
  · -- A block of the window that is red outside the past is missing among the samples.
    by_contra hnot
    obtain ⟨hash, hmem, hred⟩ : ∃ hash ∈ pastWindow state' tip, RedOutside state' tip hash := by
      simpa [RedsBelow] using hnot
    have hfewer : (sampledBlocks state' tip).length < (sampledBlocks state tip).length := by
      rw [hsampled, ← hwindow]
      exact length_take_filter_lt
        (fun other _ hother => ((sampleAt_isSome state' tip other).mp hother).1)
        ((congrArg List.length hwindow).trans_lt hshort) hmem
        (Bool.eq_false_iff.mpr fun hother => ((sampleAt_isSome state' tip hash).mp hother).2 hred)
    have hstored := mem_blocks_of_mem_chain (mem_of_mem_filter (mem_of_mem_take hmem))
    obtain ⟨tipBlock, hblock⟩ := (TreeMap.mem_iff _ _).mp hstored
    rw [← hsampled] at hshort
    simp only [observePulseV1At, ← htip, hblock, okOr_some, ok_bind, ok_iff,
      PulseObservationV1.mk.injEq, hchain.samples_eq, hchain'.samples_eq,
      length_filterMap_sampledBlocks] at heq
    have hcount := congrArg UInt32.toNat heq.2.2.2.2.2.2.2.1
    have hwindowK : pulseWindowKV1.toNat = 11 := rfl
    rw [UInt32.toNat_ofNat', UInt32.toNat_ofNat'] at hcount
    omega

end

/-! ## States built from blocks -/

section

variable [Crypto]

/-- Every selected parent is a parent, and the recorded chain is the one below its end. -/
structure ChainRecorded (state : ChainState) : Prop where
  parentOf : ∀ (child parent : Hash), state.dag.selectedParents[child]? = some (some parent) →
    ParentOf state parent child
  cached : ∀ tip : Hash, state.dag.selectedChain.getLast? = some tip →
    state.dag.selectedChain = rebuildSelectedChainFromTip state (some tip)

section

omit [Crypto]

/-- A recorded chain leads to every tip. -/
theorem ChainRecorded.selectedChainOf {state : ChainState} (h : ChainRecorded state) (tip : Hash) :
    SelectedChainOf state tip :=
  ⟨fun child parent _ => h.parentOf child parent, h.cached tip⟩

/-- The chain depends on blocks and selected parents. -/
theorem chainDownFrom_congr {state state' : ChainState}
    (hblocks : state'.dag.blocks = state.dag.blocks)
    (hparents : state'.dag.selectedParents = state.dag.selectedParents) (fuel : ℕ)
    (cursor : Option Hash) (visited : TreeSet Hash) :
    chainDownFrom state' fuel cursor visited = chainDownFrom state fuel cursor visited := by
  induction fuel generalizing cursor visited with
  | zero => cases cursor <;> rfl
  | succ fuel ih =>
    cases cursor with
    | none => rfl
    | some hash => simp only [chainDownFrom, hblocks, hparents, ih]

/-- The chain ends with its tip. -/
theorem getLast?_rebuildSelectedChainFromTip {state : ChainState} {tip : Hash}
    (h : (rebuildSelectedChainFromTip state cursor).getLast? = some tip) : cursor = some tip := by
  rw [rebuildSelectedChainFromTip, getLast?_reverse] at h
  cases cursor with
  | none => cases h
  | some hash =>
    rw [chainDownFrom] at h
    split at h
    · exact h
    · cases h

/-- A block is stored with its metadata; its selected parent is one of its parents. -/
theorem acceptBlockToDagMetadata_dag (block : Block) (state : ChainState) :
    ∃ committed selectedParent reds, (acceptBlockToDagMetadata block state).dag.blocks =
        state.dag.blocks.insert block.hash committed ∧
      (acceptBlockToDagMetadata block state).dag.selectedParents =
        state.dag.selectedParents.insert block.hash selectedParent ∧
      (acceptBlockToDagMetadata block state).dag.mergeSetReds =
        state.dag.mergeSetReds.insert block.hash reds ∧
      ∀ parent, selectedParent = some parent → parent ∈ committed.header.parents := by
  rw [acceptBlockToDagMetadata]
  dsimp only
  rw [foldl_linkParent_frame]
  refine ⟨_, _, _, rfl, rfl, rfl, fun parent hparent => ?_⟩
  dsimp only
  split at hparent
  · rw [classifyMergeSet, classifyMergeSetWithK] at hparent
    dsimp only at hparent
    rw [calculateSelectedParent, Option.map_eq_some_iff] at hparent
    obtain ⟨best, hbest, rfl⟩ := hparent
    obtain ⟨candidate, hcandidate, hmap⟩ := mem_filterMap.mp (maxBy_mem hbest)
    obtain ⟨stored, -, rfl⟩ := Option.map_eq_some_iff.mp hmap
    exact hcandidate
  · exact (mem_filter.mp (maxBy_mem hparent)).1

end

variable {clock : Clock}

/-- An applied block keeps the chain recorded. -/
theorem ChainRecorded.applyBlock {block : Block} {state next : ChainState}
    (h : ChainRecorded state) (happlied : PulseDag.applyBlock clock block state = .ok next) :
    ChainRecorded next := by
  obtain ⟨committed, selectedParent, -, hstored, hselected, -, hparent⟩ :=
    acceptBlockToDagMetadata_dag block state
  have hnext := applyBlock_withLedgerOf happlied
  have hblocks : next.dag.blocks = (acceptBlockToDagMetadata block state).dag.blocks := by
    rw [hnext]
    rfl
  have hparents : next.dag.selectedParents =
      (acceptBlockToDagMetadata block state).dag.selectedParents := by
    rw [hnext]
    rfl
  have hchain : next.dag.selectedChain = rebuildSelectedChainFromTip
      (acceptBlockToDagMetadata block state)
      (preferredTipHash (acceptBlockToDagMetadata block state)) := by
    rw [hnext]
    rfl
  constructor
  · intro child parent hchild
    rw [hparents, hselected, TreeMap.getElem?_insert] at hchild
    rw [ParentOf, hblocks, hstored]
    split at hchild
    · next heq =>
      refine ⟨committed, ?_, hparent parent (Option.some.inj hchild)⟩
      rw [TreeMap.getElem?_insert, if_pos heq]
    · next hne =>
      obtain ⟨childBlock, hchildBlock, hmem⟩ := h.parentOf child parent hchild
      exact ⟨childBlock, by rw [TreeMap.getElem?_insert, if_neg hne]; exact hchildBlock, hmem⟩
  · intro tip hlast
    rw [hchain] at hlast ⊢
    rw [getLast?_rebuildSelectedChainFromTip hlast, rebuildSelectedChainFromTip,
      rebuildSelectedChainFromTip, chainDownFrom_congr hblocks hparents, hblocks]

/-- In every state built from blocks, the recorded selected chain is the one below its end. -/
theorem applyBlocks_chainRecorded {chainId : String} {blocks : List Block} {state : ChainState}
    (h : applyBlocks clock blocks (initChainState chainId) = .ok state) : ChainRecorded state := by
  refine foldlM_induction (P := ChainRecorded) (fun _ _ _ _ hcurrent => hcurrent.applyBlock) ?_ h
  constructor
  · intro child parent hchild
    simp only [initChainState, TreeMap.getElem?_insert] at hchild
    split at hchild
    · cases hchild
    · cases hchild
  · intro tip hlast
    obtain rfl : genesisBlock.hash = tip := Option.some.inj hlast
    have hstored : genesisBlock.hash ∈ (initChainState chainId).dag.blocks :=
      (TreeMap.mem_insert _ _ _ _).mpr (.inl rfl)
    have hparent : (initChainState chainId).dag.selectedParents[genesisBlock.hash]?.join =
        none := by
      simp [initChainState]
    rw [rebuildSelectedChainFromTip, chainDownFrom, hparent,
      if_pos ⟨hstored, Std.ExtTreeSet.not_mem_empty⟩, chainDownFrom]
    rfl

/-- Accepting a block outside the past of a tip changes nothing that the past holds. -/
theorem applyBlock_agreeBelow {block : Block} {state next : ChainState} {tip : Hash}
    (happlied : applyBlock clock block state = .ok next) (hout : ¬Ancestor state block.hash tip) :
    AgreeBelow state next tip := by
  obtain ⟨committed, selectedParent, reds, hstored, hselected, hreds, -⟩ :=
    acceptBlockToDagMetadata_dag block state
  have hnext := applyBlock_withLedgerOf happlied
  have hne : ∀ hash, Ancestor state hash tip → hash ≠ block.hash := fun hash hhash heq =>
    hout (heq ▸ hhash)
  refine ⟨?_, (applyBlock_stores happlied).genesisHash, fun hash hhash => ?_, fun hash hhash => ?_,
    fun hash hhash => ?_⟩
  · rw [hnext]
    rfl
  · rw [hnext]
    change (acceptBlockToDagMetadata block state).dag.blocks[hash]? = _
    rw [hstored, TreeMap.getElem?_insert, if_neg (hne hash hhash)]
  · rw [hnext]
    change (acceptBlockToDagMetadata block state).dag.selectedParents[hash]? = _
    rw [hselected, TreeMap.getElem?_insert, if_neg (hne hash hhash)]
  · rw [hnext]
    change (acceptBlockToDagMetadata block state).dag.mergeSetReds[hash]? = _
    rw [hreds, TreeMap.getElem?_insert, if_neg (hne hash hhash)]

/-! ## A block that merges four siblings -/

/-- Four blocks on the genesis block, and a block that merges them. -/
def mergedSiblings : Except PulseError (List Block × Block) := do
  let state := initChainState "c"
  let siblings ← [1, 2, 3, 4].mapM fun nonce =>
    mineLegacyBlock state [genesisBlock.hash] nonce [legacyCoinbase nonce]
  let before ← applyBlocks legacyClock siblings state
  let merging ← mineLegacyBlock before (siblings.map Block.hash) 5 [legacyCoinbase 5]
  pure (siblings, merging)

omit [Crypto] in
/-- The listed hashes hold the tip and with a stored block its parents. -/
def PastListed (state : ChainState) (tip : Hash) (listed : List Hash) : Prop :=
  tip ∈ listed ∧ ∀ hash ∈ listed, ∀ parent ∈ storedParents state hash, parent ∈ listed

instance (state : ChainState) (tip : Hash) (listed : List Hash) :
    Decidable (PastListed state tip listed) := by
  unfold PastListed
  infer_instance

omit [Crypto] in
/-- A listed past lists every ancestor. -/
theorem PastListed.mem {state : ChainState} {tip : Hash} {listed : List Hash}
    (h : PastListed state tip listed) {hash : Hash} (hhash : Ancestor state hash tip) :
    hash ∈ listed := by
  induction hhash using Relation.ReflTransGen.head_induction_on with
  | refl => exact h.1
  | head hstep _ ih =>
    obtain ⟨block, hblock, hparent⟩ := hstep
    refine h.2 _ ih _ ?_
    rw [storedParents, hblock]
    exact hparent

omit [Crypto] in
/-- If no listed hash is red, nothing outside the past needs to be looked at. -/
theorem PastListed.redsBelow {state : ChainState} {tip : Hash} {listed : List Hash}
    (h : PastListed state tip listed) (hchain : SelectedChainOf state tip)
    (hreds : ∀ entry ∈ state.dag.mergeSetReds.toList, ∀ red ∈ entry.2, red ∉ listed) :
    RedsBelow state tip := by
  rintro hash hmem ⟨merging, reds, -, hentry, hred⟩
  have hbelow := hchain.ancestor_of_mem_chain (mem_of_mem_filter (mem_of_mem_take hmem))
  exact hreds (merging, reds) ((TreeMap.mem_toList _ _ _).mpr hentry) hash hred (h.mem hbelow)

end

/-- The merging block leaves the observation at the first sibling as it is. -/
theorem observePulseV1At_past_firstSibling :
    letI := checksumCrypto
    ∃ siblings merging before after tip, mergedSiblings = .ok (siblings, merging) ∧
      (siblings.map Block.hash)[0]? = some tip ∧
      applyBlocks legacyClock siblings (initChainState "c") = .ok before ∧
      applyBlock legacyClock merging before = .ok after ∧ AgreeBelow before after tip ∧
      RedsBelow before tip ∧ RedsBelow after tip ∧
      observePulseV1At after tip = observePulseV1At before tip := by
  let := checksumCrypto
  have hrun : (mergedSiblings.toOption.bind fun blocks =>
      (applyBlocks legacyClock blocks.1 (initChainState "c")).toOption.bind fun before =>
        (applyBlock legacyClock blocks.2 before).toOption.bind fun after =>
          (blocks.1.map Block.hash)[0]?.map fun tip =>
            let listed := [tip, genesisBlock.hash]
            decide (PastListed before tip listed ∧ PastListed after tip listed ∧
              blocks.2.hash ∉ listed ∧
              (∀ entry ∈ before.dag.mergeSetReds.toList, ∀ red ∈ entry.2, red ∉ listed) ∧
              ∀ entry ∈ after.dag.mergeSetReds.toList, ∀ red ∈ entry.2, red ∉ listed)) =
      some true := by
    decide +kernel
  simp only [Option.bind_eq_some_iff, Option.map_eq_some_iff, decide_eq_true_iff] at hrun
  obtain ⟨⟨siblings, merging⟩, hblocks, before, hbefore, after, hafter, tip, htip, hpast, hpast',
    hout, hreds, hreds'⟩ := hrun
  have hbefore := eq_ok_of_toOption hbefore
  have hafter := eq_ok_of_toOption hafter
  have hagree := applyBlock_agreeBelow hafter fun hbelow => hout (hpast.mem hbelow)
  have hrecorded := applyBlocks_chainRecorded hbefore
  have hchain := hrecorded.selectedChainOf tip
  have hchain' := (hrecorded.applyBlock hafter).selectedChainOf tip
  have hbelow := hpast.redsBelow hchain hreds
  have hbelow' := hpast'.redsBelow hchain' hreds'
  exact ⟨siblings, merging, before, after, tip, eq_ok_of_toOption hblocks, htip, hbefore, hafter,
    hagree, hbelow, hbelow', (observePulseV1At_past hagree hchain hchain' hbelow).2.1 hbelow'⟩

/-- The second sibling is red for the merging block, which is not in its past. Accepting the merging
block takes a sample from the observation at the second sibling. -/
theorem observePulseV1At_laterRed :
    letI := checksumCrypto
    ∃ siblings merging before after tip, mergedSiblings = .ok (siblings, merging) ∧
      (siblings.map Block.hash)[1]? = some tip ∧
      applyBlocks legacyClock siblings (initChainState "c") = .ok before ∧
      applyBlock legacyClock merging before = .ok after ∧ AgreeBelow before after tip ∧
      observePulseV1At after tip ≠ observePulseV1At before tip := by
  let := checksumCrypto
  have hrun : (mergedSiblings.toOption.bind fun blocks =>
      (applyBlocks legacyClock blocks.1 (initChainState "c")).toOption.bind fun before =>
        (applyBlock legacyClock blocks.2 before).toOption.bind fun after =>
          (blocks.1.map Block.hash)[1]?.map fun tip =>
            let listed := [tip, genesisBlock.hash]
            decide (PastListed before tip listed ∧ blocks.2.hash ∉ listed ∧
              (observePulseV1At after tip).toOption ≠ (observePulseV1At before tip).toOption)) =
      some true := by
    decide +kernel
  simp only [Option.bind_eq_some_iff, Option.map_eq_some_iff, decide_eq_true_iff] at hrun
  obtain ⟨⟨siblings, merging⟩, hblocks, before, hbefore, after, hafter, tip, htip, hpast, hout,
    hdiffers⟩ := hrun
  have hafter := eq_ok_of_toOption hafter
  exact ⟨siblings, merging, before, after, tip, eq_ok_of_toOption hblocks, htip,
    eq_ok_of_toOption hbefore, hafter,
    applyBlock_agreeBelow hafter fun hbelow => hout (hpast.mem hbelow),
    fun heq => hdiffers (congrArg Except.toOption heq)⟩

end PulseDag
