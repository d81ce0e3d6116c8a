import PulseDag.Ledger.CoinHistory
import PulseDag.Lib.Simulation

/-!
# A replay that remembers everything

`replay_authoritative_prefix_v3` keeps as little about spent and skipped coins as it can. The
naive replay applies each transfer to a copy of the state and keeps every spent coin and every
output of a skipped transfer. The two agree, since what is forgotten is not referred to again.
-/

namespace PulseDag

open List

/-- Keep an output of a skipped transfer, referred to or not. -/
def archiveSkippedOutput (loop : ReplayLoopV3) (tx : Transaction) (height : UInt64)
    (hasImmatureReward : Bool) (skipped : TreeMap OutPoint (Utxo × Bool)) (entry : TxOutput × ℕ) :
    Except PulseError (TreeMap OutPoint (Utxo × Bool)) := do
  ensure (entry.2 < 2 ^ 32) (invalidReplay "skipped output index overflow")
  let outpoint := outpointAt tx.txid entry.2
  if outpoint ∈ loop.rebuilt.utxo.utxos ∨ outpoint ∈ loop.spentByAcceptedTransfer then
    pure skipped
  else
    match skipped[outpoint]? with
    | some (existing, unknownValue) =>
      ensure (existing.address = entry.1.address ∧ existing.amount = entry.1.amount ∧
          existing.coinbase = false)
        (invalidReplay "conflicting authenticated skipped output provenance")
      pure (skipped.insert outpoint (existing, unknownValue || hasImmatureReward))
    | none =>
      pure (skipped.insert outpoint
        ({ outpoint := outpoint, address := entry.1.address, amount := entry.1.amount,
           coinbase := false, height := height }, hasImmatureReward))

/-- The coins that a transfer spends. -/
def consumedCoins (loop : ReplayLoopV3) (tx : Transaction) :
    Except PulseError (List (OutPoint × Utxo)) :=
  tx.inputs.mapM fun input => do
    let coin ← okOr loop.rebuilt.utxo.utxos[input.previousOutput]?
      (invalidReplay "accepted transfer input missing")
    pure (input.previousOutput, coin)

/-- Skip a transfer and keep all its outputs. -/
def naiveSkip (site : ReplaySite) (loop : ReplayLoopV3) (tx : Transaction)
    (hasImmatureReward : Bool) : Except PulseError ReplayLoopV3 := do
  let skipped ←
    (if allInputsAvailable loop.rebuilt.utxo.utxos tx then pure loop.skippedSignedOutputs
    else
      tx.outputs.zipIdx.foldlM
        (archiveSkippedOutput loop tx site.block.header.height hasImmatureReward)
        loop.skippedSignedOutputs)
  pure { loop with
    skippedSignedOutputs := skipped
    skippedConflictingTransactions := loop.skippedConflictingTransactions + 1
    conflictDiagnostics := loop.conflictDiagnostics ++
      [s!"ordered_pos={site.orderedPos} block={site.block.hash} tx={tx.txid} " ++
        "skipped_conflict_atomic"] }

/-- The replay loop without what is remembered about inputs and skipped outputs. -/
def ReplayLoopV3.forgetProvenance (loop : ReplayLoopV3) : ReplayLoopV3 :=
  { loop with
    repeatedInputReferences := ∅
    spentByAcceptedTransfer := ∅
    skippedSignedOutputs := ∅ }

/-- The outpoints that a block of the order spends; the genesis block and a missing block spend
none. -/
def inputsAt (state : ChainState) (hash : Hash) : List OutPoint :=
  if hash = state.dag.genesisHash then []
  else match state.dag.blocks[hash]? with
    | some block => transferInputs block
    | none => []

section

variable [Crypto]

/-- One transfer of the naive replay. -/
def naiveTransfer (chainId : String) (site : ReplaySite) (loop : ReplayLoopV3) (tx : Transaction) :
    Except PulseError ReplayLoopV3 := do
  let hasImmatureReward ← authenticateTransfer chainId site loop tx
  let applied ← applyAtomic tx loop.rebuilt site.block.header.height
  match applied with
  | some rebuilt => do
    let consumed ← consumedCoins loop tx
    acceptTransfer site loop tx consumed rebuilt
  | none => naiveSkip site loop tx hasImmatureReward

/-- One block of the naive replay. -/
def naiveBlock (state : ChainState) (segments : List MonetaryCadenceSegment)
    (orderedDag : OrderedDagV2) (loop : ReplayLoopV3) (entry : Hash × ℕ) :
    Except PulseError ReplayLoopV3 :=
  if entry.1 = state.dag.genesisHash then .ok loop
  else do
    let block ← okOr state.dag.blocks[entry.1]?
      (invalidReplay s!"ordered block {entry.1} is missing")
    let site : ReplaySite := ⟨entry.2, entry.1, block⟩
    let claimed ← registerClaim state site loop
    let transferred ← (block.transactions.drop 1).foldlM (naiveTransfer state.chainId site) claimed
    settleMatureRewards state segments orderedDag entry.2 transferred

/-- The base state of a replay. -/
def replayBaseV3 (state : ChainState) (genesisTimestamp : UInt64) :
    Except PulseError ChainState := do
  let base ← initChainStateV3 state.chainId genesisTimestamp
  ensure (base.dag.genesisHash = state.dag.genesisHash) (invalidReplay
    (s!"v3 genesis identity mismatch: expected {state.dag.genesisHash}, rebuilt " ++
      s!"{base.dag.genesisHash}"))
  pure { base with
    dag := { base.dag with
      consensusMode := state.dag.consensusMode
      selectedParentPolicy := state.dag.selectedParentPolicy } }

/-- The naive replay of a prefix of the order. It has no use for an index of the inputs. -/
def naiveReplay (state : ChainState) (segments : List MonetaryCadenceSegment)
    (genesisTimestamp : UInt64) (orderedDag : OrderedDagV2) (endExclusive : ℕ) :
    Except PulseError ReplayLoopV3 := do
  ensure (endExclusive ≤ orderedDag.blocks.length)
    (invalidReplay "replay prefix exceeds ordered DAG length")
  let rebuilt ← replayBaseV3 state genesisTimestamp
  (orderedDag.blocks.take endExclusive).zipIdx.foldlM (naiveBlock state segments orderedDag)
    { rebuilt := rebuilt
      eligibleFeesByScore := List.replicate orderedDag.blocks.length 0
      repeatedInputReferences := ∅ }

/-- The state of the replay of a prefix after the first `count` blocks of the order: the indexes
are those of the whole prefix. -/
def replayFirst (state : ChainState) (segments : List MonetaryCadenceSegment)
    (genesisTimestamp : UInt64) (orderedDag : OrderedDagV2) (endExclusive count : ℕ) :
    Except PulseError ReplayLoopV3 := do
  ensure (endExclusive ≤ orderedDag.blocks.length)
    (invalidReplay "replay prefix exceeds ordered DAG length")
  let rebuilt ← replayBaseV3 state genesisTimestamp
  let repeated ← repeatedReplayInputCountsV3 state orderedDag endExclusive
  let referencedInputs ← referencedReplayInputs state orderedDag endExclusive
  (orderedDag.blocks.take count).zipIdx.foldlM
    (replayBlock state segments orderedDag referencedInputs)
    { rebuilt := rebuilt
      eligibleFeesByScore := List.replicate orderedDag.blocks.length 0
      repeatedInputReferences := repeated }

/-- After all its blocks the replay of a prefix is done. -/
theorem replayAuthoritativePrefixV3_eq_replayFirst (state : ChainState)
    (segments : List MonetaryCadenceSegment) (genesisTimestamp : UInt64)
    (orderedDag : OrderedDagV2) (endExclusive : ℕ) :
    replayAuthoritativePrefixV3 state segments genesisTimestamp orderedDag endExclusive =
      replayFirst state segments genesisTimestamp orderedDag endExclusive endExclusive := by
  simp only [replayAuthoritativePrefixV3, replayFirst, replayBaseV3, bind_assoc, pure_bind]

end

/-! ## The index of repeated inputs -/

/-- What the index holds for an outpoint: the references to come, if there are several in the
whole prefix. -/
def remainingReferences (total pending : List OutPoint) (outpoint : OutPoint) : Option ℕ :=
  if 2 ≤ total.count outpoint ∧ 0 < pending.count outpoint then some (pending.count outpoint)
  else none

/-- The loop finds the inputs and counts the repeated ones. -/
theorem countReferences_eq (inputs : List OutPoint) :
    (∀ outpoint, outpoint ∈ (inputs.foldl countReference (∅, ∅)).1 ↔ outpoint ∈ inputs) ∧
      ∀ outpoint, (inputs.foldl countReference (∅, ∅)).2[outpoint]? =
        remainingReferences inputs inputs outpoint := by
  induction inputs using List.reverseRecOn with
  | nil => simp [remainingReferences]
  | append_singleton inputs last ih =>
    obtain ⟨hseen, hcounts⟩ := ih
    rw [foldl_append, foldl_cons, foldl_nil, countReference]
    have hlast := hcounts last
    have hposIff : last ∈ inputs ↔ 0 < inputs.count last := count_pos_iff.symm
    have hcount : ∀ outpoint, (inputs ++ [last]).count outpoint =
        inputs.count outpoint + if outpoint = last then 1 else 0 := by
      intro outpoint
      rw [count_append, count_singleton]
      by_cases heq : outpoint = last
      · simp [heq]
      · simp [heq, Ne.symm heq]
    cases hlookup : (inputs.foldl countReference (∅, ∅)).2[last]? with
    | some count =>
      rw [hlookup, remainingReferences] at hlast
      split at hlast
      · rename_i htwo
        obtain rfl := Option.some.inj hlast
        refine ⟨fun outpoint => ?_, fun outpoint => ?_⟩
        · rw [hseen, mem_append, mem_singleton]
          refine ⟨.inl, fun h => h.elim id ?_⟩
          rintro rfl
          exact hposIff.mpr htwo.2
        · rw [TreeMap.getElem?_insert, hcounts, remainingReferences, remainingReferences, hcount]
          by_cases heq : outpoint = last
          · subst heq
            rw [if_pos rfl, if_pos rfl, if_pos (by omega)]
          · rw [if_neg heq, if_neg heq, Nat.add_zero]
      · cases hlast
    | none =>
      rw [hlookup, remainingReferences] at hlast
      have hfew : ¬(2 ≤ inputs.count last) := by
        intro htwo
        rw [if_pos ⟨htwo, by omega⟩] at hlast
        cases hlast
      by_cases hmem : last ∈ inputs
      · rw [if_pos ((hseen last).mpr hmem)]
        have hone : inputs.count last = 1 := by
          have := hposIff.mp hmem
          omega
        refine ⟨fun outpoint => ?_, fun outpoint => ?_⟩
        · rw [hseen, mem_append, mem_singleton]
          refine ⟨.inl, fun h => h.elim id ?_⟩
          rintro rfl
          exact hmem
        · rw [TreeMap.getElem?_insert, hcounts, remainingReferences, remainingReferences, hcount]
          by_cases heq : outpoint = last
          · subst heq
            rw [if_pos rfl, if_pos rfl, if_pos (by omega), hone]
          · rw [if_neg heq, if_neg heq, Nat.add_zero]
      · rw [if_neg (fun h => hmem ((hseen last).mp h))]
        have hzero : inputs.count last = 0 := count_eq_zero_of_not_mem hmem
        refine ⟨fun outpoint => ?_, fun outpoint => ?_⟩
        · rw [TreeSet.mem_insert, hseen, mem_append, mem_singleton, or_comm]
        · rw [hcounts, remainingReferences, remainingReferences, hcount]
          by_cases heq : outpoint = last
          · subst heq
            rw [if_neg (by omega), if_neg (by rw [if_pos rfl]; omega)]
          · rw [if_neg heq, Nat.add_zero]

variable {hashes : List Hash} {inputs : List OutPoint} {missing : Hash → String}
  {state : ChainState}

/-- The scan of the order lists the inputs of its blocks. -/
theorem prefixInputs_eq_ok (h : prefixInputs state missing hashes = .ok inputs) :
    inputs = hashes.flatMap (inputsAt state) := by
  induction hashes generalizing inputs with
  | nil =>
    obtain rfl := Except.ok.inj h
    rfl
  | cons hash rest ih =>
    rw [prefixInputs] at h
    rw [flatMap_cons, inputsAt]
    split at h
    · rename_i hgenesis
      rw [if_pos hgenesis, ih h, nil_append]
    · rename_i hgenesis
      simp only [ok_iff] at h
      obtain ⟨block, hblock, others, hothers, rfl⟩ := h
      rw [if_neg hgenesis, hblock, ih hothers]

/-- The scan fails exactly at a block that is not stored. -/
theorem prefixInputs_ok (missing : Hash → String)
    (h : ∀ hash ∈ hashes, hash = state.dag.genesisHash ∨ hash ∈ state.dag.blocks) :
    ∃ inputs, prefixInputs state missing hashes = .ok inputs := by
  induction hashes with
  | nil => exact ⟨[], rfl⟩
  | cons hash rest ih =>
    obtain ⟨hhash, hrest⟩ := forall_mem_cons.mp h
    obtain ⟨inputs, hinputs⟩ := ih hrest
    rw [prefixInputs]
    by_cases hgenesis : hash = state.dag.genesisHash
    · exact ⟨inputs, by rw [if_pos hgenesis, hinputs]⟩
    · obtain ⟨block, hblock⟩ := (TreeMap.mem_iff _ _).mp (hhash.resolve_left hgenesis)
      refine ⟨transferInputs block ++ inputs, ?_⟩
      rw [if_neg hgenesis, hblock, okOr_some, ok_bind, hinputs, ok_bind, pure_eq_ok]

/-- The blocks whose inputs are listed are stored. -/
theorem mem_of_prefixInputs (h : prefixInputs state missing hashes = .ok inputs) :
    ∀ hash ∈ hashes, hash = state.dag.genesisHash ∨ hash ∈ state.dag.blocks := by
  induction hashes generalizing inputs with
  | nil => simp
  | cons hash rest ih =>
    rw [prefixInputs] at h
    split at h
    · rename_i hgenesis
      exact forall_mem_cons.mpr ⟨.inl hgenesis, ih h⟩
    · simp only [ok_iff] at h
      obtain ⟨block, hblock, others, hothers, -⟩ := h
      exact forall_mem_cons.mpr ⟨.inr ((TreeMap.mem_iff _ _).mpr ⟨block, hblock⟩), ih hothers⟩

end PulseDag
