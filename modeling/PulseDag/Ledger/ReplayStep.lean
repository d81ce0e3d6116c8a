import PulseDag.Ledger.ReplayV3

/-!
# What one step of the replay does

A transfer is applied exactly when the ledger allows it, and then its atoms are conserved:
what leaves the ledger is its fee. A transfer that is not applied leaves the ledger and the
fees alone. Settling a reward adds one coin.
-/

namespace PulseDag

/-- Two loop states with the same ledger, fees, scores and counters. They may differ in what
is remembered about spent, claimed and skipped coins. -/
structure ReplayLoopV3.SameLedger (a b : ReplayLoopV3) : Prop where
  rebuilt : a.rebuilt = b.rebuilt
  eligibleFeesByScore : a.eligibleFeesByScore = b.eligibleFeesByScore
  nextRewardScore : a.nextRewardScore = b.nextRewardScore
  matureRewardPrefixScore : a.matureRewardPrefixScore = b.matureRewardPrefixScore
  appliedTransactions : a.appliedTransactions = b.appliedTransactions
  skippedConflictingTransactions :
    a.skippedConflictingTransactions = b.skippedConflictingTransactions

/-- A loop has its own ledger. -/
theorem ReplayLoopV3.SameLedger.refl (a : ReplayLoopV3) : a.SameLedger a :=
  ⟨rfl, rfl, rfl, rfl, rfl, rfl⟩

/-- Having the same ledger is transitive. -/
theorem ReplayLoopV3.SameLedger.trans {a b c : ReplayLoopV3} (hab : a.SameLedger b)
    (hbc : b.SameLedger c) : a.SameLedger c :=
  ⟨hab.1.trans hbc.1, hab.2.trans hbc.2, hab.3.trans hbc.3, hab.4.trans hbc.4,
    hab.5.trans hbc.5, hab.6.trans hbc.6⟩

/-- Releasing a reference keeps the ledger. -/
theorem releaseReference_sameLedger {loop next : ReplayLoopV3} {input : TxInput}
    (h : releaseReference loop input = .ok next) : next.SameLedger loop := by
  simp only [releaseReference] at h
  split at h
  · obtain rfl := Except.ok.inj h
    exact .refl _
  · simp only [ok_iff] at h
    obtain ⟨-, -, h⟩ := h
    split at h
    · obtain rfl := Except.ok.inj h
      exact ⟨rfl, rfl, rfl, rfl, rfl, rfl⟩
    · obtain rfl := Except.ok.inj h
      exact ⟨rfl, rfl, rfl, rfl, rfl, rfl⟩

variable {inputs : List TxInput} {utxos : TreeMap OutPoint Utxo} {state : ChainState}

/-- Releasing references keeps the ledger. -/
theorem releaseReferences_sameLedger {loop next : ReplayLoopV3}
    (h : inputs.foldlM releaseReference loop = .ok next) : next.SameLedger loop := by
  refine foldlM_induction (P := fun state => state.SameLedger loop) ?_ (.refl loop) h
  intro state input after _ hstate hafter
  exact (releaseReference_sameLedger hafter).trans hstate

/-- A transaction with inputs spends them. -/
theorem spentOutpoints_of_inputs {tx : Transaction} (h : tx.inputs ≠ []) :
    spentOutpoints tx = tx.inputs.map TxInput.previousOutput := by
  rw [spentOutpoints, if_neg]
  simp [isCoinbase, h]

/-- All inputs are there, and there are some. -/
theorem allInputsAvailable_iff {tx : Transaction} :
    allInputsAvailable utxos tx = true ↔
      tx.inputs ≠ [] ∧ ∀ input ∈ tx.inputs, input.previousOutput ∈ utxos := by
  simp [allInputsAvailable]

/-- The sum of the inputs is exact. -/
theorem replayInputSum_eq_ok {sum total : ℕ} (h : replayInputSum utxos inputs sum = .ok total) :
    total = sum + ((inputs.map TxInput.previousOutput).map (amountAt utxos)).sum := by
  induction inputs generalizing sum with
  | nil =>
    obtain rfl := Except.ok.inj h
    rfl
  | cons input rest ih =>
    simp only [replayInputSum, ok_iff] at h
    obtain ⟨coin, hcoin, -, -, hrest⟩ := h
    have hamount : amountAt utxos input.previousOutput = coin.amount.toNat := by
      simp [amountAt, hcoin]
    rw [ih hrest, List.map_cons, List.map_cons, List.sum_cons, hamount, Nat.add_assoc]

/-- The sum of the outputs is exact. -/
theorem replayOutputSum_eq_ok {outputs : List TxOutput} {sum total : ℕ}
    (h : replayOutputSum outputs sum = .ok total) :
    total = sum + (outputs.map fun output => output.amount.toNat).sum := by
  induction outputs generalizing sum with
  | nil =>
    obtain rfl := Except.ok.inj h
    rfl
  | cons output rest ih =>
    simp only [replayOutputSum, ok_iff] at h
    obtain ⟨-, -, hrest⟩ := h
    rw [ih hrest, List.map_cons, List.sum_cons, Nat.add_assoc]

/-- The shape of a transaction that has passed `validate_transaction` or its version 2. -/
theorem validateTransactionWith_shape {txid : Except PulseError Hash}
    {signatures : Except PulseError Unit} {tx : Transaction} {u : Unit}
    (h : validateTransactionWith txid signatures tx state = .ok u) :
    tx.outputs ≠ [] ∧ tx.inputs ≠ [] ∧ (tx.inputs.map TxInput.previousOutput).Nodup := by
  simp only [validateTransactionWith, bind_eq_ok, ensure_eq_ok] at h
  obtain ⟨-, houtputs, -, hinputs, -, -, -, hnodup, -⟩ := h
  exact ⟨houtputs, hinputs, hnodup⟩

section

variable [Crypto] {chainId : String} {referencedInputs : TreeSet OutPoint} {site : ReplaySite}
  {loop next : ReplayLoopV3} {tx : Transaction}

/-- A signed spend pays its outputs and its fee with its inputs, to the atom. -/
theorem validateSignedReplaySpend_eq_ok {u : Unit}
    (h : validateSignedReplaySpend tx state chainId site = .ok u) :
    tx.inputs ≠ [] ∧
      ((tx.inputs.map TxInput.previousOutput).map (amountAt state.utxo.utxos)).sum =
        outputTotal tx + tx.fee.toNat := by
  simp only [validateSignedReplaySpend, bind_eq_ok, mapError_eq_ok, ensure_eq_ok] at h
  obtain ⟨_, hvalid, inputs, hinputs, outputs, houtputs, -, -, hsum⟩ := h
  refine ⟨(validateTransactionWith_shape hvalid).2.1, ?_⟩
  have hin := replayInputSum_eq_ok hinputs
  have hout := replayOutputSum_eq_ok houtputs
  rw [Nat.zero_add] at hin hout
  rw [← hin, hsum, hout, outputTotal]

/-- An authenticated transfer has inputs; when they are all there, it conserves atoms. -/
theorem authenticateTransfer_eq_ok {immature : Bool}
    (h : authenticateTransfer chainId site loop tx = .ok immature) :
    tx.inputs ≠ [] ∧ (allInputsAvailable loop.rebuilt.utxo.utxos tx = true →
      ((tx.inputs.map TxInput.previousOutput).map (amountAt loop.rebuilt.utxo.utxos)).sum =
        outputTotal tx + tx.fee.toNat) := by
  unfold authenticateTransfer at h
  by_cases havailable : allInputsAvailable loop.rebuilt.utxo.utxos tx = true
  · rw [if_pos havailable, bind_eq_ok] at h
    obtain ⟨_, hspend, -⟩ := h
    obtain ⟨hinputs, hsum⟩ := validateSignedReplaySpend_eq_ok hspend
    exact ⟨hinputs, fun _ => hsum⟩
  · refine ⟨fun hempty => ?_, fun hall => absurd hall havailable⟩
    -- without inputs nothing is restored, and a spend without inputs is invalid
    have hledger : historicalLedger loop tx = (loop.rebuilt.utxo, false) := by
      rw [historicalLedger, hempty, List.foldl_nil]
    rw [if_neg havailable] at h
    simp only [bind_eq_ok, hledger, Bool.false_eq_true, if_false] at h
    obtain ⟨_, -, _, hspend, -⟩ := h
    exact (validateSignedReplaySpend_eq_ok hspend).1 hempty

omit [Crypto] in
/-- `applyTransfer` applies the transfer if it can be applied and skips it otherwise. -/
theorem applyTransfer_eq_ok {result : Option ChainState}
    (h : applyTransfer site loop tx = .ok result) :
    (∃ rebuilt, result = some rebuilt ∧
      applyTransaction tx loop.rebuilt site.block.header.height = .ok rebuilt) ∨
    (result = none ∧ ¬Applicable tx loop.rebuilt.utxo) := by
  simp only [applyTransfer] at h
  split at h
  · simp only [ok_iff] at h
    obtain ⟨rebuilt, hrebuilt, rfl⟩ := h
    exact .inl ⟨rebuilt, rfl, hrebuilt⟩
  · rw [applyAtomic_eq, Except.ok.injEq] at h
    subst h
    cases happly : applyTransaction tx loop.rebuilt site.block.header.height with
    | ok rebuilt => exact .inl ⟨rebuilt, rfl, rfl⟩
    | error error =>
      refine .inr ⟨rfl, fun happlicable => ?_⟩
      obtain ⟨rebuilt, hrebuilt⟩ := happlicable.applyTransaction_ok site.block.header.height
      rw [happly] at hrebuilt
      cases hrebuilt

/-- An applied transfer: the ledger changes as `apply_transaction` says, and the fee is added
to the fees of the score. -/
structure TransferApplied (site : ReplaySite) (loop : ReplayLoopV3) (tx : Transaction)
    (next : ReplayLoopV3) : Prop where
  applicable : Applicable tx loop.rebuilt.utxo
  conserved : ((spentOutpoints tx).map (amountAt loop.rebuilt.utxo.utxos)).sum =
    outputTotal tx + tx.fee.toNat
  rebuilt : applyTransaction tx loop.rebuilt site.block.header.height = .ok next.rebuilt
  fees : ∃ before after, loop.eligibleFeesByScore[site.orderedPos]? = some before ∧
    checkedAdd before tx.fee = some after ∧
    next.eligibleFeesByScore = loop.eligibleFeesByScore.set site.orderedPos after
  nextRewardScore : next.nextRewardScore = loop.nextRewardScore
  matureRewardPrefixScore : next.matureRewardPrefixScore = loop.matureRewardPrefixScore
  appliedTransactions : next.appliedTransactions = loop.appliedTransactions + 1
  skippedConflictingTransactions :
    next.skippedConflictingTransactions = loop.skippedConflictingTransactions

/-- A skipped transfer: the ledger does not allow it and stays as it is, and so do the fees. -/
structure TransferSkipped (loop : ReplayLoopV3) (tx : Transaction) (next : ReplayLoopV3) :
    Prop where
  not_applicable : ¬Applicable tx loop.rebuilt.utxo
  rebuilt : next.rebuilt = loop.rebuilt
  eligibleFeesByScore : next.eligibleFeesByScore = loop.eligibleFeesByScore
  nextRewardScore : next.nextRewardScore = loop.nextRewardScore
  matureRewardPrefixScore : next.matureRewardPrefixScore = loop.matureRewardPrefixScore
  appliedTransactions : next.appliedTransactions = loop.appliedTransactions
  skippedConflictingTransactions :
    next.skippedConflictingTransactions = loop.skippedConflictingTransactions + 1

/-- Every transfer that does not stop the replay is applied or skipped. -/
theorem replayTransfer_cases (h : replayTransfer chainId referencedInputs site loop tx = .ok next) :
    TransferApplied site loop tx next ∨ TransferSkipped loop tx next := by
  simp only [replayTransfer, bind_eq_ok] at h
  obtain ⟨immature, hauth, archived, -, result, hresult, middle, hmiddle, hrelease⟩ := h
  obtain ⟨hinputs, hconserved⟩ := authenticateTransfer_eq_ok hauth
  have hsame := releaseReferences_sameLedger hrelease
  obtain ⟨rebuilt, rfl, hrebuilt⟩ | ⟨rfl, hnot⟩ := applyTransfer_eq_ok hresult
  · left
    simp only [acceptTransfer, ok_iff] at hmiddle
    obtain ⟨before, hbefore, after, hafter, rfl⟩ := hmiddle
    have happlicable := (applyTransaction_eq_ok hrebuilt).1
    have hspent := spentOutpoints_of_inputs hinputs
    have havailable : allInputsAvailable loop.rebuilt.utxo.utxos tx = true := by
      rw [allInputsAvailable_iff]
      refine ⟨hinputs, fun input hinput => happlicable.spent_mem _ ?_⟩
      rw [hspent]
      exact List.mem_map_of_mem hinput
    exact
      { applicable := happlicable
        conserved := by rw [hspent]; exact hconserved havailable
        rebuilt := by rw [hsame.rebuilt]; exact hrebuilt
        fees := ⟨before, after, hbefore, hafter, hsame.eligibleFeesByScore⟩
        nextRewardScore := hsame.nextRewardScore
        matureRewardPrefixScore := hsame.matureRewardPrefixScore
        appliedTransactions := hsame.appliedTransactions
        skippedConflictingTransactions := hsame.skippedConflictingTransactions }
  · right
    simp only [skipTransfer, ok_iff] at hmiddle
    obtain ⟨skipped, -, rfl⟩ := hmiddle
    exact
      { not_applicable := hnot
        rebuilt := hsame.rebuilt
        eligibleFeesByScore := hsame.eligibleFeesByScore
        nextRewardScore := hsame.nextRewardScore
        matureRewardPrefixScore := hsame.matureRewardPrefixScore
        appliedTransactions := hsame.appliedTransactions
        skippedConflictingTransactions := hsame.skippedConflictingTransactions }

omit [Crypto] in
/-- An applied transfer takes exactly its fee out of the ledger. -/
theorem TransferApplied.utxoTotal_add_fee (h : TransferApplied site loop tx next) :
    utxoTotal next.rebuilt.utxo.utxos + tx.fee.toNat = utxoTotal loop.rebuilt.utxo.utxos := by
  have htotal := h.applicable.utxoTotal_spendAndCreate site.block.header.height
  rw [← (applyTransaction_eq_ok h.rebuilt).2.1, h.conserved] at htotal
  omega

/-- Registering a claim keeps the ledger. -/
theorem registerClaim_sameLedger (h : registerClaim state site loop = .ok next) :
    next.SameLedger loop := by
  simp only [registerClaim, ok_iff] at h
  obtain ⟨claim, -, beneficiary, -, rfl⟩ := h
  exact ⟨rfl, rfl, rfl, rfl, rfl, rfl⟩

/-- Settling a reward adds the subsidy of its score and the fees kept for it to the ledger. -/
theorem settleReward_eq_ok {segments : List MonetaryCadenceSegment} {orderedDag : OrderedDagV2}
    {rewardScore : ℕ} (h : settleReward state segments orderedDag loop rewardScore = .ok next) :
    ∃ fees subsidy, loop.eligibleFeesByScore[rewardScore]? = some fees ∧
      subsidyAtomsForScore rewardScore segments = .ok subsidy ∧
      utxoTotal next.rebuilt.utxo.utxos =
        subsidy.toNat + fees.toNat + utxoTotal loop.rebuilt.utxo.utxos ∧
      next.eligibleFeesByScore = loop.eligibleFeesByScore ∧
      next.nextRewardScore = rewardScore + 1 ∧
      next.matureRewardPrefixScore = loop.matureRewardPrefixScore := by
  simp only [settleReward, materializeRewardAtScore, ok_iff, checkedAdd_eq_some] at h
  obtain ⟨fees, hfees, settled, ⟨hash, -, -, -, block, -, claim, -, beneficiary, -, subsidy,
    hsubsidy, amount, hamount, utxo, hutxo, rfl⟩, rfl⟩ := h
  obtain ⟨hfree, hinsert⟩ := addCoin_eq_ok hutxo
  refine ⟨fees, subsidy, hfees, hsubsidy, ?_, rfl, rfl, rfl⟩
  change utxoTotal utxo.utxos = _
  rw [hinsert, utxoTotal, mapTotal_insert _ _ hfree, hamount]
  rfl

end

end PulseDag
