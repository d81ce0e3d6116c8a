import PulseDag.Ledger.PrefixConsistency
import PulseDag.Ledger.ReplayErrors

/-!
# No coin comes back

Along a replay no outpoint is put into the ledger twice, so a spent coin stays spent. Settling a
reward therefore never meets its own outpoint. A transfer can meet its own outputs, but only when
one of its inputs is gone: it is a second copy, and is skipped.
-/

namespace PulseDag

open List

section

variable [Crypto] {state : ChainState} {segments : List MonetaryCadenceSegment}
  {orderedDag : OrderedDagV2} {referencedInputs : TreeSet OutPoint}
  {first loop next last : ReplayLoopV3} {log inserted : List OutPoint}

/-- An empty ledger has an empty history. -/
theorem CoinHistory.of_empty (h : first.rebuilt.utxo.utxos = ∅) :
    CoinHistory state orderedDag [] first where
  nodup := nodup_nil
  ledger outpoint hmem := by
    rw [h] at hmem
    exact absurd hmem Std.ExtTreeMap.not_mem_empty
  origin _ hmem := absurd hmem not_mem_nil

/-- A coin after a step was there or is inserted. -/
theorem CoinStep.mem_ledger
    (h : CoinStep state segments orderedDag referencedInputs loop inserted next)
    {outpoint : OutPoint} (hmem : outpoint ∈ next.rebuilt.utxo.utxos) :
    outpoint ∈ loop.rebuilt.utxo.utxos ∨ outpoint ∈ inserted := by
  cases h with
  | claimed hclaim => exact .inl ((registerClaim_sameLedger hclaim).rebuilt ▸ hmem)
  | applied _ _ _ happlied =>
    rcases happlied.mem_utxos.mp hmem with hcreated | ⟨-, hold⟩
    · exact .inr hcreated
    · exact .inl hold
  | skipped _ hskipped => exact .inl (hskipped.rebuilt ▸ hmem)
  | matured score => exact .inl hmem
  | settled _ _ hinsert =>
    rw [hinsert, TreeMap.mem_insert] at hmem
    rcases hmem with rfl | hold
    · exact .inr (mem_singleton_self _)
    · exact .inl hold

/-- What is in the ledger was there before or has been put in. -/
theorem CoinRun.mem_ledger (h : CoinRun state segments orderedDag referencedInputs first log last)
    {outpoint : OutPoint} (hmem : outpoint ∈ last.rebuilt.utxo.utxos) :
    outpoint ∈ first.rebuilt.utxo.utxos ∨ outpoint ∈ log := by
  induction h with
  | refl => exact .inl hmem
  | step _ hstep ih =>
    rcases hstep.mem_ledger hmem with hbefore | hinserted
    · exact (ih hbefore).imp_right (mem_append_left _)
    · exact .inr (mem_append_right _ hinserted)

/-- A coin that has left the ledger does not come back. -/
theorem CoinHistory.gone (hsha : Function.Injective Crypto.sha256)
    (hfits : ReplayFits state orderedDag) (hnodup : orderedDag.blocks.Nodup)
    (h : CoinHistory state orderedDag log loop) {later : List OutPoint}
    (hrun : CoinRun state segments orderedDag referencedInputs loop later last)
    {outpoint : OutPoint} (hlog : outpoint ∈ log) (hgone : outpoint ∉ loop.rebuilt.utxo.utxos) :
    outpoint ∉ last.rebuilt.utxo.utxos := by
  intro hmem
  have hdisjoint := (nodup_append.mp (h.run hsha hfits hnodup hrun).nodup).2.2
  rcases hrun.mem_ledger hmem with hthere | hlater
  · exact hgone hthere
  · exact hdisjoint outpoint hlog outpoint hlater rfl

/-- A transfer that meets its own outputs has a missing input. -/
theorem CoinHistory.duplicate_unavailable (hsha : Function.Injective Crypto.sha256)
    (h : CoinHistory state orderedDag log loop) {site : ReplaySite} {tx : Transaction}
    {immature : Bool} {label : String} (hfits : tx.Fits)
    (hauth : authenticateTransfer state.chainId site loop tx = .ok immature)
    (hduplicate : applyTransaction tx loop.rebuilt site.block.header.height =
      .error (.duplicateUtxoOutpoint label)) :
    allInputsAvailable loop.rebuilt.utxo.utxos tx = false := by
  by_contra havailable
  rw [Bool.not_eq_false, allInputsAvailable_iff] at havailable
  obtain ⟨hinputs, hpresent⟩ := havailable
  have hid := authenticateTransfer_identified hauth
  have hfresh := h.created_fresh hsha hfits hid hinputs hpresent
  have happlicable : Applicable tx loop.rebuilt.utxo :=
    (inPlaceSafe_iff_applicable hinputs (authenticateTransfer_nodup hauth)
      hfits.outputs_length).mp <| by
      simp only [inPlaceSafe, Bool.and_eq_true, allInputsAvailable_iff, decide_eq_true_eq,
        all_eq_true]
      exact ⟨⟨⟨hinputs, hpresent⟩, hfits.outputs_length⟩,
        fun outpoint hmem hledger => hfresh outpoint hmem (h.ledger outpoint hledger)⟩
  obtain ⟨rebuilt, hrebuilt⟩ := happlicable.applyTransaction_ok site.block.header.height
  rw [hduplicate] at hrebuilt
  cases hrebuilt

/-! ## The errors of the replay -/

omit [Crypto] in
/-- Not the error of a taken outpoint. -/
def NotDuplicate (error : PulseError) : Prop := ∀ label, error ≠ .duplicateUtxoOutpoint label

omit [Crypto] in
/-- The errors of the replay itself are of other kinds. -/
theorem replayErrors_notDuplicate : ReplayErrors NotDuplicate where
  nonDeterministicState _ _ := PulseError.noConfusion
  internal _ _ := PulseError.noConfusion
  invalidBlock _ _ := PulseError.noConfusion
  chainIdMismatch _ := PulseError.noConfusion

/-- The outpoint of the next reward is free. -/
theorem settleReward_notDuplicate (hsha : Function.Injective Crypto.sha256)
    (hfits : ReplayFits state orderedDag) (hnodup : orderedDag.blocks.Nodup)
    (h : CoinHistory state orderedDag log loop) :
    FailsWith NotDuplicate (settleReward state segments orderedDag loop loop.nextRewardScore) := by
  refine settleReward_failsWith replayErrors_notDuplicate
    fun hash claimTxid coin hhash houtpoint => ?_
  have hfresh := h.reward_fresh hsha hfits hnodup hhash claimTxid
  rw [addCoin, ensure_pos (houtpoint ▸ fun hmem => hfresh (h.ledger _ hmem))]
  exact failsWith_ok _

/-- No reward of a run of settlements meets a taken outpoint. -/
theorem settleRewards_notDuplicate (hsha : Function.Injective Crypto.sha256)
    (hfits : ReplayFits state orderedDag) (hnodup : orderedDag.blocks.Nodup)
    (h : CoinHistory state orderedDag log loop) (count : ℕ) :
    FailsWith NotDuplicate ((List.range' loop.nextRewardScore count).foldlM
      (settleReward state segments orderedDag) loop) := by
  induction count generalizing loop log with
  | zero => exact failsWith_ok _
  | succ count ih =>
    rw [range'_succ, foldlM_cons]
    refine (settleReward_notDuplicate hsha hfits hnodup h).bind fun settled hsettled => ?_
    obtain ⟨hash, claim, coin, -, hfree, hinsert, hscore⟩ := settleReward_inserts hsettled
    have hstep : CoinStep state segments orderedDag ∅ loop _ settled :=
      .settled hsettled hfree hinsert
    rw [← hscore]
    exact ih (h.step hsha hfits hnodup hstep)

/-- The replay never reports a taken outpoint. -/
theorem replayAuthoritativePrefixV3_notDuplicate (hsha : Function.Injective Crypto.sha256)
    (hfits : ReplayFits state orderedDag) (hnodup : orderedDag.blocks.Nodup)
    (genesisTimestamp : UInt64) (endExclusive : ℕ) :
    FailsWith NotDuplicate
      (replayAuthoritativePrefixV3 state segments genesisTimestamp orderedDag endExclusive) := by
  refine replayAuthoritativePrefixV3_failsWith replayErrors_notDuplicate
    (I := fun loop => ∃ log, CoinHistory state orderedDag log loop)
    (fun _ hempty => ⟨[], .of_empty hempty⟩) (fun referenced loop entry hloop => ?_)
    (fun referenced loop entry next hloop hstep => ?_) _ _
  · obtain ⟨log, hhistory⟩ := hloop
    refine replayBlock_failsWith replayErrors_notDuplicate entry
      fun block claimed transferred hblock hclaimed htransferred mature => ?_
    have hreach : CoinReach state segments orderedDag referenced loop claimed :=
      CoinReach.step ⟨[], .refl _⟩ (.claimed hclaimed)
    obtain ⟨later, hrun⟩ := (CoinReach.transfers ⟨entry.2, entry.1, block⟩ hreach hblock
      htransferred).step (.matured mature)
    exact settleRewards_notDuplicate hsha hfits hnodup (hhistory.run hsha hfits hnodup hrun) _
  · obtain ⟨log, hhistory⟩ := hloop
    obtain ⟨later, hrun⟩ := CoinReach.block ⟨[], .refl _⟩ hstep
    exact ⟨_, hhistory.run hsha hfits hnodup hrun⟩

/-- Along every run from the empty ledger the outpoints that are put in are distinct, a coin that
has left does not come back, the next reward does not meet its own outpoint, and a transfer meets
its own outputs only when an input is missing. The replay is such a run and never reports a taken
outpoint. -/
theorem replayAuthoritativePrefixV3_coins_unique (hsha : Function.Injective Crypto.sha256)
    (hfits : ReplayFits state orderedDag) (hnodup : orderedDag.blocks.Nodup)
    (segments : List MonetaryCadenceSegment) (genesisTimestamp : UInt64) (endExclusive : ℕ) :
    (∀ referencedInputs first log loop, first.rebuilt.utxo.utxos = ∅ →
      CoinRun state segments orderedDag referencedInputs first log loop →
      log.Nodup ∧
      (∀ later last, CoinRun state segments orderedDag referencedInputs loop later last →
        ∀ outpoint ∈ log, outpoint ∉ loop.rebuilt.utxo.utxos →
          outpoint ∉ last.rebuilt.utxo.utxos) ∧
      (∀ label, settleReward state segments orderedDag loop loop.nextRewardScore ≠
        .error (.duplicateUtxoOutpoint label)) ∧
      ∀ (site : ReplaySite) (tx : Transaction) (immature : Bool) (label : String),
        state.dag.blocks[site.hash]? = some site.block → tx ∈ site.block.transactions →
        authenticateTransfer state.chainId site loop tx = .ok immature →
        applyTransaction tx loop.rebuilt site.block.header.height =
          .error (.duplicateUtxoOutpoint label) →
        allInputsAvailable loop.rebuilt.utxo.utxos tx = false) ∧
    (∀ count loop,
      replayFirst state segments genesisTimestamp orderedDag endExclusive count = .ok loop →
      ∃ referencedInputs first log, first.rebuilt.utxo.utxos = ∅ ∧
        CoinRun state segments orderedDag referencedInputs first log loop) ∧
    ∀ label, replayAuthoritativePrefixV3 state segments genesisTimestamp orderedDag endExclusive ≠
      .error (.duplicateUtxoOutpoint label) := by
  refine ⟨fun referencedInputs first log loop hempty hrun => ?_, fun count loop hloop => ?_,
    fun label heq => ?_⟩
  · have hstart : CoinHistory state orderedDag [] first := .of_empty hempty
    have hhistory := hstart.run hsha hfits hnodup hrun
    rw [nil_append] at hhistory
    refine ⟨hhistory.nodup, fun later last hlater outpoint hlog hgone => ?_, fun label heq => ?_,
      fun site tx immature label hblock htx hauth hduplicate => ?_⟩
    · exact hhistory.gone hsha hfits hnodup hlater hlog hgone
    · exact settleReward_notDuplicate hsha hfits hnodup hhistory _ heq label rfl
    · exact hhistory.duplicate_unavailable hsha (hfits.transactions _ _ hblock tx htx) hauth
        hduplicate
  · obtain ⟨referenced, first, hempty, -, log, hrun⟩ := replayFirst_reach hloop
    exact ⟨referenced, first, log, by rw [hempty]; rfl, hrun⟩
  · exact replayAuthoritativePrefixV3_notDuplicate hsha hfits hnodup _ _ _ heq label rfl

end

/-- The label of a taken outpoint, if that is how the application fails. -/
def duplicateLabel (result : Except PulseError ChainState) : Option String :=
  match result with
  | .error (.duplicateUtxoOutpoint label) => some label
  | _ => none

/-- The label is that of the error. -/
theorem duplicateLabel_eq_some {result : Except PulseError ChainState} {label : String}
    (h : duplicateLabel result = some label) : result = .error (.duplicateUtxoOutpoint label) := by
  unfold duplicateLabel at h
  split at h
  · rw [Option.some.inj h]
  · cases h

/-- The second copy of a transfer meets the outputs of the first one: the branch for a taken
outpoint is reached on the way through the order. -/
theorem duplicateUtxoOutpoint_reached_repeatedTransfer :
    letI := tableCrypto (sampleTable repeatedTransfer 4)
    ∃ (state : ChainState) (ordered : OrderedDagV2) (loop claimed : ReplayLoopV3)
      (site : ReplaySite) (tx : Transaction) (immature : Bool) (label : String),
      Function.Injective Crypto.sha256 ∧ ReplayFits state ordered ∧ ordered.blocks.Nodup ∧
      replayFirst state hourlyCadence 1 ordered 5 4 = .ok loop ∧
      (ordered.blocks.take 5)[4]? = some site.hash ∧ site.orderedPos = 4 ∧
      state.dag.blocks[site.hash]? = some site.block ∧ registerClaim state site loop = .ok claimed ∧
      site.block.transactions.drop 1 = [tx] ∧
      authenticateTransfer state.chainId site claimed tx = .ok immature ∧
      applyTransaction tx claimed.rebuilt site.block.header.height =
        .error (.duplicateUtxoOutpoint label) := by
  let := tableCrypto (sampleTable repeatedTransfer 4)
  have hrun : ((sampleRun repeatedTransfer).toOption.bind fun run =>
      (deriveOrderedDagV2 run.2).toOption.bind fun ordered =>
      (replayFirst run.2 hourlyCadence 1 ordered 5 4).toOption.bind fun loop =>
      (ordered.blocks.take 5)[4]?.bind fun hash =>
      run.2.dag.blocks[hash]?.bind fun block =>
      (registerClaim run.2 ⟨4, hash, block⟩ loop).toOption.bind fun claimed =>
      block.transactions[1]?.bind fun tx =>
      (authenticateTransfer run.2.chainId ⟨4, hash, block⟩ claimed tx).toOption.bind fun _ =>
      (duplicateLabel (applyTransaction tx claimed.rebuilt block.header.height)).map fun _ =>
        (block.transactions.drop 1 == [tx], decide (∀ hash ∈ ordered.blocks, FitsStr hash),
          decide (∀ entry ∈ run.2.dag.blocks.toList, ∀ tx ∈ entry.2.transactions, tx.Fits))) =
      some (true, true, true) := by decide +kernel
  simp only [Option.bind_eq_some_iff, Option.map_eq_some_iff, Prod.mk.injEq, decide_eq_true_eq,
    beq_iff_eq] at hrun
  obtain ⟨⟨s0, state⟩, -, ordered, hordered, loop, hloop, hash, hhash, block, hblock, claimed,
    hclaimed, tx, -, immature, hauth, label, hlabel, htxs, hhashes, hfits⟩ := hrun
  exact ⟨state, ordered, loop, claimed, ⟨4, hash, block⟩, tx, immature, label,
    sampleTable_injective (by decide), .of_toList hhashes hfits,
    deriveOrderedDagV2_nodup (eq_ok_of_toOption hordered), eq_ok_of_toOption hloop, hhash, rfl,
    hblock,
    eq_ok_of_toOption hclaimed, htxs, eq_ok_of_toOption hauth, duplicateLabel_eq_some hlabel⟩

/-- The whole chain puts three rewards and one transfer in, under distinct outpoints. -/
theorem replayAuthoritativePrefixV3_coins_unique_repeatedTransfer :
    letI := tableCrypto (sampleTable repeatedTransfer 4)
    ∃ (state : ChainState) (ordered : OrderedDagV2) (loop : ReplayLoopV3) (log : List OutPoint),
      Function.Injective Crypto.sha256 ∧ ReplayFits state ordered ∧ ordered.blocks.Nodup ∧
      replayFirst state hourlyCadence 1 ordered 5 5 = .ok loop ∧
      loop.appliedTransactions = 1 ∧ loop.materializedRewards = 3 ∧
      (∃ referencedInputs first, first.rebuilt.utxo.utxos = ∅ ∧
        CoinRun state hourlyCadence ordered referencedInputs first log loop) ∧ log.Nodup := by
  let := tableCrypto (sampleTable repeatedTransfer 4)
  have hrun : ((sampleRun repeatedTransfer).toOption.bind fun run =>
      (deriveOrderedDagV2 run.2).toOption.bind fun ordered =>
      (replayFirst run.2 hourlyCadence 1 ordered 5 5).toOption.map fun loop =>
        (loop.appliedTransactions, loop.materializedRewards,
          decide (∀ hash ∈ ordered.blocks, FitsStr hash),
          decide (∀ entry ∈ run.2.dag.blocks.toList, ∀ tx ∈ entry.2.transactions, tx.Fits))) =
      some (1, 3, true, true) := by decide +kernel
  simp only [Option.bind_eq_some_iff, Option.map_eq_some_iff, Prod.mk.injEq,
    decide_eq_true_eq] at hrun
  obtain ⟨⟨s0, state⟩, -, ordered, hordered, loop, hloop, happlied, hrewards, hhashes, hfits⟩ :=
    hrun
  have hsha : Function.Injective Crypto.sha256 := sampleTable_injective (by decide)
  have hreplayFits := ReplayFits.of_toList hhashes hfits
  have hnodup := deriveOrderedDagV2_nodup (eq_ok_of_toOption hordered)
  obtain ⟨hruns, hreplay, -⟩ :=
    replayAuthoritativePrefixV3_coins_unique hsha hreplayFits hnodup hourlyCadence 1 5
  obtain ⟨referenced, first, log, hempty, hcoins⟩ := hreplay 5 loop (eq_ok_of_toOption hloop)
  exact ⟨state, ordered, loop, log, hsha, hreplayFits, hnodup, eq_ok_of_toOption hloop, happlied,
    hrewards, ⟨referenced, first, hempty, hcoins⟩,
    (hruns referenced first log loop hempty hcoins).1⟩

end PulseDag
