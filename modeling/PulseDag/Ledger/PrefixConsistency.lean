import PulseDag.Ghostdag.CanonicalOrder
import PulseDag.Ledger.BoundedProvenance
import PulseDag.Ledger.Supply

/-!
# The replay is exact and consistent on prefixes

The replay of a prefix gives what the naive replay gives. The naive replay of a prefix knows
nothing of what follows, so the replay of a prefix also gives what the replay of a longer prefix
holds on the way.
-/

namespace PulseDag

open List

section

variable [Crypto] {state : ChainState} {segments : List MonetaryCadenceSegment}
  {genesisTimestamp : UInt64} {orderedDag : OrderedDagV2} {endExclusive count : ℕ}
  {loop : ReplayLoopV3}

omit [Crypto] in
/-- The two indexes, once the scan has found every block. -/
theorem replayIndexes_ok
    (hstored : ∀ hash ∈ orderedDag.blocks.take endExclusive,
      hash = state.dag.genesisHash ∨ hash ∈ state.dag.blocks) :
    ∃ repeated referenced,
      repeatedReplayInputCountsV3 state orderedDag endExclusive = .ok repeated ∧
      referencedReplayInputs state orderedDag endExclusive = .ok referenced ∧
      (∀ outpoint, repeated[outpoint]? =
        remainingReferences ((orderedDag.blocks.take endExclusive).flatMap (inputsAt state))
          ((orderedDag.blocks.take endExclusive).flatMap (inputsAt state)) outpoint) ∧
      ∀ outpoint ∈ (orderedDag.blocks.take endExclusive).flatMap (inputsAt state),
        outpoint ∈ referenced := by
  have hscan : ∀ missing, prefixInputs state missing (orderedDag.blocks.take endExclusive) =
      .ok ((orderedDag.blocks.take endExclusive).flatMap (inputsAt state)) := by
    intro missing
    obtain ⟨inputs, hinputs⟩ := prefixInputs_ok missing hstored
    rw [hinputs, ← prefixInputs_eq_ok hinputs]
  have hinsert : ∀ (inputs : List OutPoint) (set : TreeSet OutPoint) (outpoint : OutPoint),
      outpoint ∈ inputs.foldl (fun referenced other => referenced.insert other) set ↔
        outpoint ∈ inputs ∨ outpoint ∈ set := by
    intro inputs
    induction inputs with
    | nil => simp
    | cons input rest ih =>
      intro set outpoint
      rw [foldl_cons, ih, TreeSet.mem_insert, mem_cons]
      tauto
  refine ⟨_, _, ?_, ?_, (countReferences_eq _).2, fun outpoint hmem =>
    (hinsert _ ∅ _).mpr (.inl hmem)⟩
  · rw [repeatedReplayInputCountsV3, hscan, ok_bind, pure_eq_ok]
  · rw [referencedReplayInputs, hscan, ok_bind, pure_eq_ok]

/-- The first blocks of a replay, against the naive replay of these blocks. -/
theorem replayFirst_agrees_naiveReplay (hfree : CollisionFree state)
    (hend : endExclusive ≤ orderedDag.blocks.length) (hcount : count ≤ endExclusive)
    (hstored : ∀ hash ∈ orderedDag.blocks.take endExclusive,
      hash = state.dag.genesisHash ∨ hash ∈ state.dag.blocks) :
    Agree (fun bounded naive => bounded.forgetProvenance = naive.forgetProvenance)
      (replayFirst state segments genesisTimestamp orderedDag endExclusive count)
      (naiveReplay state segments genesisTimestamp orderedDag count) := by
  obtain ⟨repeated, referenced, hrepeated, hreferenced, hcounts, hread⟩ := replayIndexes_ok hstored
  rw [replayFirst, naiveReplay, ensure_pos hend, ensure_pos (hcount.trans hend), ok_bind, ok_bind,
    hrepeated, hreferenced]
  refine Agree.bind (R := Eq) (agree_self fun _ _ => rfl) ?_
  rintro rebuilt _ - - rfl
  rw [ok_bind, ok_bind]
  -- the inputs of the first blocks, and the inputs that are left when they are done
  have hsplit : (orderedDag.blocks.take endExclusive).flatMap (inputsAt state) =
      (((orderedDag.blocks.take count).zipIdx).map Prod.fst).flatMap (inputsAt state) ++
        ((orderedDag.blocks.take endExclusive).drop count).flatMap (inputsAt state) := by
    rw [zipIdx_map_fst, ← flatMap_append, ← Nat.min_eq_left hcount, ← take_take,
      Nat.min_eq_left hcount, take_append_drop]
  rw [hsplit] at hcounts hread
  have hstart : Bounded state _ _ _
      { rebuilt := rebuilt
        eligibleFeesByScore := List.replicate orderedDag.blocks.length 0
        repeatedInputReferences := repeated }
      { rebuilt := rebuilt
        eligibleFeesByScore := List.replicate orderedDag.blocks.length 0
        repeatedInputReferences := ∅ } :=
    { reads := ⟨rfl, fun _ _ => rfl, fun _ _ => rfl⟩
      pending_suffix := suffix_refl _
      future_subset := fun _ hmem => hmem
      references := hcounts
      authentic := fun _ _ _ hfound => by simp at hfound
      authentic_naive := fun _ _ _ hfound => by simp at hfound }
  have hagree := hstart.blocks segments orderedDag hread hfree
  exact hagree.mono fun _ _ hbounded => hbounded.reads.same

/-- A naive replay that succeeds has found its blocks. -/
theorem naiveReplay_stored (h : naiveReplay state segments genesisTimestamp orderedDag
    endExclusive =
      .ok loop) :
    endExclusive ≤ orderedDag.blocks.length ∧
      ∀ hash ∈ orderedDag.blocks.take endExclusive,
        hash = state.dag.genesisHash ∨ hash ∈ state.dag.blocks := by
  simp only [naiveReplay, bind_eq_ok, ensure_eq_ok] at h
  obtain ⟨-, hend, rebuilt, -, hloop⟩ := h
  refine ⟨hend, fun hash hmem => ?_⟩
  obtain ⟨index, hindex⟩ := mem_iff_getElem?.mp hmem
  have hentry : (hash, index) ∈ (orderedDag.blocks.take endExclusive).zipIdx :=
    mem_zipIdx_iff_getElem?.mpr hindex
  obtain ⟨before, after, hstep⟩ := foldlM_mem_ok hloop hentry
  rw [naiveBlock] at hstep
  split at hstep
  · rename_i hgenesis
    exact .inl hgenesis
  · simp only [bind_eq_ok, okOr_eq_ok] at hstep
    obtain ⟨block, hblock, -⟩ := hstep
    exact .inr ((TreeMap.mem_iff _ _).mpr ⟨block, hblock⟩)

/-- A replay that succeeds has found the blocks of its prefix. -/
theorem replayFirst_stored
    (h : replayFirst state segments genesisTimestamp orderedDag endExclusive count = .ok loop) :
    endExclusive ≤ orderedDag.blocks.length ∧
      ∀ hash ∈ orderedDag.blocks.take endExclusive,
        hash = state.dag.genesisHash ∨ hash ∈ state.dag.blocks := by
  simp only [replayFirst, repeatedReplayInputCountsV3, bind_eq_ok, ensure_eq_ok] at h
  obtain ⟨-, hend, rebuilt, -, repeated, ⟨inputs, hinputs, -⟩, -⟩ := h
  exact ⟨hend, mem_of_prefixInputs hinputs⟩

/-- The replay with bounded provenance succeeds exactly when the naive replay does. It then has
the same ledger, fees, counters and list of skipped transfers. -/
theorem replayAuthoritativePrefixV3_exact (hsha : Function.Injective Crypto.sha256)
    (hfits : ReplayFits state orderedDag) (segments : List MonetaryCadenceSegment)
    (genesisTimestamp : UInt64) (endExclusive : ℕ) :
    (replayAuthoritativePrefixV3 state segments genesisTimestamp orderedDag
        endExclusive).toOption.map ReplayLoopV3.forgetProvenance =
      (naiveReplay state segments genesisTimestamp orderedDag endExclusive).toOption.map
        ReplayLoopV3.forgetProvenance := by
  rw [replayAuthoritativePrefixV3_eq_replayFirst]
  by_cases hstored : endExclusive ≤ orderedDag.blocks.length ∧
      ∀ hash ∈ orderedDag.blocks.take endExclusive,
        hash = state.dag.genesisHash ∨ hash ∈ state.dag.blocks
  · exact (replayFirst_agrees_naiveReplay (hfits.collisionFree hsha) hstored.1 le_rfl
      hstored.2).toOption_map_eq fun _ _ hsame => hsame
  · -- neither replay gets through
    cases hbounded : replayFirst state segments genesisTimestamp orderedDag endExclusive
        endExclusive with
    | ok loop => exact absurd (replayFirst_stored hbounded) hstored
    | error error =>
      cases hnaive : naiveReplay state segments genesisTimestamp orderedDag endExclusive with
      | ok loop => exact absurd (naiveReplay_stored hnaive) hstored
      | error error' => rfl

/-! ## A repeated transfer -/

/-- The preimage of the hash of a block on the chain `c`. -/
def headerPreimage (block : Block) : List UInt8 :=
  (canonicalBlockHeaderMaterialV2 block.header "c" true).toOption.getD []

omit [Crypto] in
/-- The preimage of the outpoint of a reward on the chain `c`. -/
def rewardPreimage (block : Block) : List UInt8 :=
  encodeLenPrefixedStr "PulseDAG:reward-settlement-outpoint:v3" ++ encodeLenPrefixedStr "c" ++
    encodeLenPrefixedStr block.hash ++
    encodeLenPrefixedStr ((block.transactions.head?.map Transaction.txid).getD "")

/-- A chain whose last two blocks hold the same spend of the first reward. -/
def repeatedTransfer (genesis : Hash) : List Block :=
  let first := { bareBlock [genesis] 1 1 0 with transactions := [sampleClaim 1] }
  let second := { bareBlock [first.hash] 2 2 0 with transactions := [sampleClaim 2] }
  let spend := sampleTransaction [sampleReward first] [2637337660641] 7 0
  let third := { bareBlock [second.hash] 3 3 0 with transactions := [sampleClaim 3, spend] }
  let fourth := { bareBlock [third.hash] 4 4 0 with transactions := [sampleClaim 4, spend] }
  [first, second, third, fourth]

end

/-- A table for a run on blocks of at most two transactions: the genesis block, and then for each
block its claim, its header, its reward and its transfer. -/
def sampleTable (blocks : [Crypto] → Hash → List Block) (count : ℕ) : List (List UInt8) :=
  let genesis := fun _ : Crypto => (genesisBlockV3 "c" 1).toOption
  let ofBlock := fun (index : ℕ) (preimage : [Crypto] → Block → List UInt8) (crypto : Crypto) =>
    (((genesis crypto).bind fun block => (blocks block.hash)[index]?).map preimage).getD []
  let txid := fun (index : ℕ) [Crypto] (block : Block) =>
    (block.transactions[index]?.map fun tx => txidPreimageV2 tx "c").getD []
  growTable ((fun crypto => ((genesis crypto).map headerPreimage).getD []) ::
    (List.range count).flatMap fun index =>
      [ofBlock index (txid 0), ofBlock index headerPreimage, ofBlock index rewardPreimage,
        ofBlock index (txid 1)])

/-- The table gives distinct digests. -/
theorem sampleTable_injective {blocks : [Crypto] → Hash → List Block} {count : ℕ} (h : count ≤ 63) :
    Function.Injective (tableDigest (sampleTable blocks count)) := by
  refine tableDigest_injective ?_
  rw [sampleTable, length_growTable, length_cons, length_flatMap]
  simp only [length_cons, length_nil, map_const', length_range,
    sum_replicate, smul_eq_mul]
  omega

/-- The second copy of the transfer is skipped by both replays. -/
theorem replayAuthoritativePrefixV3_exact_repeatedTransfer :
    letI := tableCrypto (sampleTable repeatedTransfer 4)
    ∃ state ordered naive, Function.Injective Crypto.sha256 ∧ ReplayFits state ordered ∧
      naiveReplay state hourlyCadence 1 ordered 5 = .ok naive ∧ naive.appliedTransactions = 1 ∧
      naive.skippedConflictingTransactions = 1 ∧ naive.eligibleFeesByScore = [0, 0, 0, 7, 0] := by
  let := tableCrypto (sampleTable repeatedTransfer 4)
  have hrun : ((sampleRun repeatedTransfer).toOption.bind fun run =>
      (deriveOrderedDagV2 run.2).toOption.bind fun ordered =>
        (replayAuthoritativePrefixV3 run.2 hourlyCadence 1 ordered 5).toOption.map fun loop =>
          (loop.appliedTransactions, loop.skippedConflictingTransactions, loop.eligibleFeesByScore,
            decide (∀ hash ∈ ordered.blocks, FitsStr hash),
            decide (∀ entry ∈ run.2.dag.blocks.toList, ∀ tx ∈ entry.2.transactions, tx.Fits))) =
      some (1, 1, [0, 0, 0, 7, 0], true, true) := by decide +kernel
  simp only [Option.bind_eq_some_iff, Option.map_eq_some_iff, Prod.mk.injEq,
    decide_eq_true_eq] at hrun
  obtain ⟨⟨s0, state⟩, -, ordered, -, loop, hloop, happlied, hskipped, hfees, hhashes, htxs⟩ := hrun
  have hsha : Function.Injective Crypto.sha256 := sampleTable_injective (by decide)
  have hfits := ReplayFits.of_toList hhashes htxs
  have hexact := replayAuthoritativePrefixV3_exact hsha hfits hourlyCadence 1 5
  rw [hloop, Option.map_some, eq_comm, Option.map_eq_some_iff] at hexact
  obtain ⟨naive, hnaive, hsame⟩ := hexact
  rw [forgetProvenance_eq hsame] at happlied hskipped hfees
  exact ⟨state, ordered, naive, hsha, hfits, eq_ok_of_toOption hnaive, happlied, hskipped, hfees⟩

section

variable [Crypto] {state : ChainState} {segments : List MonetaryCadenceSegment}
  {genesisTimestamp : UInt64} {orderedDag : OrderedDagV2} {endExclusive count : ℕ}
  {loop : ReplayLoopV3}

/-! ## The ledger of a replay has a state root -/

/-- A step keeps the index exact. -/
theorem CoinStep.indexed {referencedInputs : TreeSet OutPoint} {next : ReplayLoopV3}
    {inserted : List OutPoint}
    (h : CoinStep state segments orderedDag referencedInputs loop inserted next)
    (hindexed : loop.rebuilt.utxo.Indexed) : next.rebuilt.utxo.Indexed := by
  cases h with
  | claimed hclaim =>
    rw [(registerClaim_sameLedger hclaim).rebuilt]
    exact hindexed
  | applied _ _ _ happlied =>
    have hrebuilt := happlied.rebuilt
    simp only [applyTransaction_eq, ok_iff] at hrebuilt
    obtain ⟨utxo, hutxo, heq⟩ := hrebuilt
    rw [← heq]
    exact applyToLedger_indexed hindexed hutxo
  | skipped _ hskipped =>
    rw [hskipped.rebuilt]
    exact hindexed
  | matured score => exact hindexed
  | settled hsettle _ _ =>
    simp only [PulseDag.settleReward, materializeRewardAtScore, ok_iff] at hsettle
    obtain ⟨_, -, _, ⟨_, -, _, -, _, -, _, -, _, -, _, -, _, -, utxo, hutxo, rfl⟩, rfl⟩ := hsettle
    exact addCoin_indexed hindexed hutxo

/-- So does a run. -/
theorem CoinRun.indexed {referencedInputs : TreeSet OutPoint} {first last : ReplayLoopV3}
    {log : List OutPoint} (h : CoinRun state segments orderedDag referencedInputs first log last)
    (hindexed : first.rebuilt.utxo.Indexed) : last.rebuilt.utxo.Indexed := by
  induction h with
  | refl => exact hindexed
  | step _ hstep ih => exact hstep.indexed ih

/-- A replay is a run of steps from the empty ledger. -/
theorem replayFirst_reach
    (h : replayFirst state segments genesisTimestamp orderedDag endExclusive count = .ok loop) :
    ∃ referencedInputs first, first.rebuilt.utxo = UtxoState.empty ∧ first.nextRewardScore = 1 ∧
      CoinReach state segments orderedDag referencedInputs first loop := by
  simp only [replayFirst, replayBaseV3, ok_iff] at h
  obtain ⟨-, -, rebuilt, ⟨base, hbase, -, -, rfl⟩, repeated, -, referenced, -, hloop⟩ := h
  have hempty : base.utxo = UtxoState.empty := by
    simp only [initChainStateV3, ok_iff] at hbase
    obtain ⟨genesis, -, root, -, rfl⟩ := hbase
    rfl
  exact ⟨referenced, _, hempty, rfl, foldlM_induction
    (fun _ _ _ _ hbefore hafter => hbefore.block hafter) ⟨[], .refl _⟩ hloop⟩

/-- Every state of the replay has an exact index. -/
theorem replayFirst_indexed
    (h : replayFirst state segments genesisTimestamp orderedDag endExclusive count = .ok loop) :
    loop.rebuilt.utxo.Indexed := by
  obtain ⟨_, first, hempty, -, log, hrun⟩ := replayFirst_reach h
  refine hrun.indexed ?_
  rw [hempty]
  exact UtxoState.empty_indexed

/-! ## Prefixes -/

/-- A replay that has been through holds something after its first blocks. -/
theorem replayFirst_ok_of_le {final : ReplayLoopV3} {count' : ℕ} (hle : count' ≤ count)
    (h : replayFirst state segments genesisTimestamp orderedDag endExclusive count = .ok final) :
    ∃ loop, replayFirst state segments genesisTimestamp orderedDag endExclusive count' =
    .ok loop := by
  simp only [replayFirst, bind_eq_ok, ensure_eq_ok] at h
  obtain ⟨-, hend, rebuilt, hbase, repeated, hrepeated, referenced, hreferenced, hloop⟩ := h
  have hsplit : orderedDag.blocks.take count =
      orderedDag.blocks.take count' ++ (orderedDag.blocks.take count).drop count' := by
    rw [← Nat.min_eq_left hle, ← take_take, Nat.min_eq_left hle, take_append_drop]
  rw [hsplit, zipIdx_append, foldlM_append, bind_eq_ok] at hloop
  obtain ⟨loop, hloop, -⟩ := hloop
  refine ⟨loop, ?_⟩
  rw [replayFirst, ensure_pos hend, ok_bind, hbase, ok_bind, hrepeated, ok_bind, hreferenced,
    ok_bind]
  exact hloop

/-- The replay of a prefix, against what a longer replay holds after these blocks: the indexes
are different, what is left without the remembered coins is the same. -/
theorem replayAuthoritativePrefixV3_of_replayFirst (hfree : CollisionFree state)
    (hcount : count ≤ endExclusive) {whole : ReplayLoopV3}
    (h : replayFirst state segments genesisTimestamp orderedDag endExclusive count = .ok whole) :
    ∃ part, replayAuthoritativePrefixV3 state segments genesisTimestamp orderedDag count =
    .ok part ∧
      part.forgetProvenance = whole.forgetProvenance := by
  obtain ⟨hend, hstored⟩ := replayFirst_stored h
  obtain ⟨naive, hnaive, hwhole⟩ :=
    (replayFirst_agrees_naiveReplay hfree hend hcount hstored).ok_left h
  obtain ⟨hend', hstored'⟩ := naiveReplay_stored hnaive
  obtain ⟨part, hpart, hsame⟩ :=
    (replayFirst_agrees_naiveReplay hfree hend' le_rfl hstored').ok_right hnaive
  rw [replayAuthoritativePrefixV3_eq_replayFirst]
  exact ⟨part, hpart, hsame.trans hwhole.symm⟩

omit [Crypto] in
/-- The position of the last entry. -/
theorem idxOf?_getLast {l : List Hash} {tip : Hash} (hnodup : l.Nodup) (h : l.getLast? = some tip) :
    l.idxOf? tip = some (l.length - 1) := by
  rw [getLast?_eq_getElem?] at h
  obtain ⟨hlt, htip⟩ := List.getElem?_eq_some_iff.mp h
  rw [List.idxOf?, findIdx?_eq_some_iff_getElem]
  refine ⟨hlt, beq_iff_eq.mpr htip, fun index hindex heq => ?_⟩
  have hsame := (hnodup.getElem_inj_iff).mp ((eq_of_beq heq).trans htip.symm)
  omega

/-- The state before the tip comes from the replay of all blocks but the last. -/
theorem materializeAuthoritativePreCandidateStateV3_ok {genesis : Block} {tip root : Hash}
    (hsource : validateV3ReplaySource state = .ok (genesis, orderedDag))
    (hnodup : orderedDag.blocks.Nodup) (hlast : orderedDag.blocks.getLast? = some tip)
    (hloop : replayAuthoritativePrefixV3 state segments genesis.header.timestamp orderedDag
      (orderedDag.blocks.length - 1) = .ok loop)
    (hroot : loop.rebuilt.utxo.computeStateRoot = .ok root) :
    ∃ pre, materializeAuthoritativePreCandidateStateV3 state tip segments = .ok pre ∧
      pre.utxo = loop.rebuilt.utxo ∧ pre.dag.orderedDagStateRoot = some root := by
  rw [materializeAuthoritativePreCandidateStateV3, hsource, ok_bind]
  simp only [ensure_pos hlast, idxOf?_getLast hnodup hlast, okOr_some, ok_bind, hloop, hroot,
    pure_eq_ok]
  exact ⟨_, rfl, rfl, rfl⟩

/-- Whenever the whole order can be replayed, so can every prefix of it, and the result is what
the whole replay holds after the blocks of the prefix. In particular the state before the tip is
the one that the whole replay applies the tip to. -/
theorem replayAuthoritativePrefixV3_consistent (hfree : CollisionFree state)
    {replay : StateReplayV3} (h : rebuildAuthoritativeStateV3 state segments = .ok replay) :
    ∃ genesis, state.dag.blocks[state.dag.genesisHash]? = some genesis ∧
      (∀ n ≤ replay.orderedDag.blocks.length, ∃ whole part,
        replayFirst state segments genesis.header.timestamp replay.orderedDag
          replay.orderedDag.blocks.length n = .ok whole ∧
        replayAuthoritativePrefixV3 state segments genesis.header.timestamp replay.orderedDag n =
          .ok part ∧
        part.forgetProvenance = whole.forgetProvenance ∧
        (n = replay.orderedDag.blocks.length → whole.rebuilt.utxo = replay.utxo)) ∧
      ∃ tip whole pre, replay.orderedDag.blocks.getLast? = some tip ∧
        replayFirst state segments genesis.header.timestamp replay.orderedDag
          replay.orderedDag.blocks.length (replay.orderedDag.blocks.length - 1) = .ok whole ∧
        materializeAuthoritativePreCandidateStateV3 state tip segments = .ok pre ∧
        pre.utxo = whole.rebuilt.utxo ∧
        pre.dag.orderedDagStateRoot = some (coinsRoot whole.rebuilt.utxo.utxos) := by
  simp only [rebuildAuthoritativeStateV3, bind_eq_ok] at h
  obtain ⟨⟨genesis, orderedDag⟩, hsource, final, hfinal, root, -, hreplay⟩ := h
  obtain rfl := Except.ok.inj hreplay
  have hsource' := hsource
  simp only [validateV3ReplaySource, bind_eq_ok, okOr_eq_ok, ensure_eq_ok, mapError_eq_ok,
    pure_eq_ok, Except.ok.injEq] at hsource'
  obtain ⟨stored, hgenesis, -, -, derived, hderive, -, hhead, heq⟩ := hsource'
  obtain ⟨rfl, rfl⟩ := Prod.mk.inj heq.symm
  have hwhole := hfinal
  rw [replayAuthoritativePrefixV3_eq_replayFirst] at hwhole
  refine ⟨genesis, hgenesis, fun n hn => ?_, ?_⟩
  · obtain ⟨whole, hloop⟩ := replayFirst_ok_of_le hn hwhole
    obtain ⟨part, hpart, hsame⟩ := replayAuthoritativePrefixV3_of_replayFirst hfree hn hloop
    refine ⟨whole, part, hloop, hpart, hsame, ?_⟩
    rintro rfl
    rw [hwhole, Except.ok.injEq] at hloop
    rw [← hloop]
  · have hne : orderedDag.blocks ≠ [] := by
      rintro hnil
      rw [hnil] at hhead
      cases hhead
    obtain ⟨whole, hloop⟩ := replayFirst_ok_of_le (Nat.sub_le _ 1) hwhole
    obtain ⟨part, hpart, hsame⟩ :=
      replayAuthoritativePrefixV3_of_replayFirst hfree (Nat.sub_le _ 1) hloop
    have hrebuilt : part.rebuilt = whole.rebuilt := by rw [forgetProvenance_eq hsame]
    have hroot : part.rebuilt.utxo.computeStateRoot = .ok (coinsRoot whole.rebuilt.utxo.utxos) := by
      rw [hrebuilt]
      exact (replayFirst_indexed hloop).computeStateRoot_eq
    have hlast := getLast?_eq_some_getLast hne
    obtain ⟨pre, hpre, hutxo, hpreRoot⟩ := materializeAuthoritativePreCandidateStateV3_ok hsource
      (deriveOrderedDagV2_nodup hderive) hlast hpart hroot
    exact ⟨_, whole, pre, hlast, hloop, hpre, by rw [hutxo, hrebuilt], hpreRoot⟩

end

/-- The prefix that ends before the second spend of a reward has nothing to archive; the whole
replay holds the same there, although it counts the reference to come. -/
theorem replayAuthoritativePrefixV3_consistent_rewardConflict : letI := checksumCrypto
    ∃ state replay genesis whole part, CollisionFree state ∧
      rebuildAuthoritativeStateV3 state hourlyCadence = .ok replay ∧
      state.dag.blocks[state.dag.genesisHash]? = some genesis ∧
      replayFirst state hourlyCadence genesis.header.timestamp replay.orderedDag
        replay.orderedDag.blocks.length 4 = .ok whole ∧
      replayAuthoritativePrefixV3 state hourlyCadence genesis.header.timestamp replay.orderedDag 4 =
        .ok part ∧
      part.forgetProvenance = whole.forgetProvenance ∧
      whole.repeatedInputReferences.size = 1 ∧ part.repeatedInputReferences.size = 0 := by
  let := checksumCrypto
  have hrun : ((sampleRun rewardConflict).toOption.bind fun run =>
      (rebuildAuthoritativeStateV3 run.2 hourlyCadence).toOption.bind fun replay =>
        run.2.dag.blocks[run.2.dag.genesisHash]?.bind fun genesis =>
          (replayFirst run.2 hourlyCadence genesis.header.timestamp replay.orderedDag
            replay.orderedDag.blocks.length 4).toOption.bind fun whole =>
          (replayAuthoritativePrefixV3 run.2 hourlyCadence genesis.header.timestamp
            replay.orderedDag 4).toOption.map fun part =>
          (replay.orderedDag.blocks.length, whole.repeatedInputReferences.size,
            part.repeatedInputReferences.size,
            decide (∀ entry ∈ run.2.dag.blocks.toList, ∀ tx ∈ entry.2.transactions,
              tx.outputs.length < 2 ^ 32 ∧ ∀ entry' ∈ run.2.dag.blocks.toList,
                ∀ tx' ∈ entry'.2.transactions, tx.txid = tx'.txid → tx = tx'))) =
      some (6, 1, 0, true) := by decide +kernel
  simp only [Option.bind_eq_some_iff, Option.map_eq_some_iff, Prod.mk.injEq,
    decide_eq_true_eq] at hrun
  obtain ⟨⟨s0, state⟩, -, replay, hreplay, genesis, hgenesis, whole, hwhole, part, hpart, hlength,
    hcounted, hnothing, htxs⟩ := hrun
  have hok := eq_ok_of_toOption hreplay
  have hfree := CollisionFree.of_toList htxs
  obtain ⟨genesis', hgenesis', hall, -⟩ := replayAuthoritativePrefixV3_consistent hfree hok
  obtain rfl := Option.some.inj (hgenesis.symm.trans hgenesis')
  obtain ⟨whole', part', hwhole', hpart', hsame, -⟩ := hall 4 (by omega)
  rw [eq_ok_of_toOption hwhole, Except.ok.injEq] at hwhole'
  rw [eq_ok_of_toOption hpart, Except.ok.injEq] at hpart'
  subst hwhole' hpart'
  exact ⟨state, replay, genesis, whole, part, hfree, hok, hgenesis, eq_ok_of_toOption hwhole,
    eq_ok_of_toOption hpart, hsame, hcounted, hnothing⟩

end PulseDag
