import PulseDag.Lib.Passes
import PulseDag.Mempool.Reconcile

/-!
# What a transaction sees of the pool

Validation looks up the outputs that the inputs of a transaction name, in the ledger or else in the
pool, and asks whether they are spent in the pool. So the verdict on a transaction depends on the
pool only through these outputs, and a transaction that is valid with some of them missing is one
whose output was not found.
-/

namespace PulseDag

open List

/-- The outpoints that a transaction spends. -/
def Transaction.spends (tx : Transaction) : List OutPoint := tx.inputs.map TxInput.previousOutput

/-- The output that an outpoint names, in the ledger or in the pool. -/
def resolvedOutput (state : ChainState) (outpoint : OutPoint) : Option TxOutput :=
  match state.utxo.utxos[outpoint]? with
  | some utxo => some ⟨utxo.address, utxo.amount⟩
  | none => pooledOutput state outpoint

/-- The amount of the output found. -/
theorem txOutputAmount_eq (state : ChainState) (outpoint : OutPoint) :
    txOutputAmount state outpoint = (resolvedOutput state outpoint).map TxOutput.amount := by
  rw [txOutputAmount, resolvedOutput]
  cases state.utxo.utxos[outpoint]? <;> rfl

/-- The address of the output found. -/
theorem referencedOutputAddress_eq (state : ChainState) (outpoint : OutPoint) :
    referencedOutputAddress state outpoint =
      (resolvedOutput state outpoint).map TxOutput.address := by
  rw [referencedOutputAddress, resolvedOutput]
  cases state.utxo.utxos[outpoint]? <;> rfl

/-- The settings and the DAG of two states agree. -/
structure SameChain (s t : ChainState) : Prop where
  chainId : s.chainId = t.chainId
  dag : s.dag = t.dag

/-- The states agree on all that the validation of a transaction reads. -/
structure SameInputs (tx : Transaction) (s t : ChainState) : Prop extends SameChain s t where
  resolved : ∀ o ∈ tx.spends, resolvedOutput s o = resolvedOutput t o
  spent : ∀ o ∈ tx.spends, o ∈ s.mempool.spentOutpoints ↔ o ∈ t.mempool.spentOutpoints

/-- The second state sees every input of a transaction that the first one sees, and the first one
has none of them spent. -/
structure FewerInputs (tx : Transaction) (s t : ChainState) : Prop extends SameChain s t where
  resolved : ∀ o ∈ tx.spends, resolvedOutput s o = none ∨ resolvedOutput s o = resolvedOutput t o
  unspent : ∀ o ∈ tx.spends, o ∉ s.mempool.spentOutpoints

/-- How `reconcile_mempool` takes the outcome of a validation. -/
def verdictOf : Except PulseError Unit → Verdict
  | .ok () => .accept
  | .error .utxoNotFound => .defer
  | .error _ => .drop

/-- A validation of transactions against the ledger and the pool. What has a verdict other than to
be dropped states its own id. -/
structure PoolValidator (identified : Transaction → Prop)
    (validate : Transaction → ChainState → Except PulseError Unit) : Prop where
  inputs_ne_nil : ∀ {tx s}, validate tx s = .ok () → tx.inputs ≠ []
  nodup : ∀ {tx s}, validate tx s = .ok () → tx.spends.Nodup
  resolved : ∀ {tx s}, validate tx s = .ok () → ∀ o ∈ tx.spends, resolvedOutput s o ≠ none
  unspent : ∀ {tx s}, validate tx s = .ok () → ∀ o ∈ tx.spends, o ∉ s.mempool.spentOutpoints
  identified : ∀ {tx s}, verdictOf (validate tx s) ≠ .drop → identified tx
  congr : ∀ {tx s t}, SameInputs tx s t → validate tx s = validate tx t
  missing : ∀ {tx s t}, validate tx t = .ok () → FewerInputs tx s t →
    (∃ o ∈ tx.spends, resolvedOutput s o = none) → validate tx s = .error .utxoNotFound

variable {tx : Transaction} {inputs : List TxInput} {state : ChainState}

/-- With fewer inputs a valid transaction is valid or waits for an output. -/
theorem PoolValidator.ok_or_missing {identified : Transaction → Prop}
    {validate : Transaction → ChainState → Except PulseError Unit}
    (hv : PoolValidator identified validate) {s t : ChainState} (ht : validate tx t = .ok ())
    (h : FewerInputs tx s t) : validate tx s = .ok () ∨ validate tx s = .error .utxoNotFound := by
  by_cases hmissing : ∃ o ∈ tx.spends, resolvedOutput s o = none
  · exact .inr (hv.missing ht h hmissing)
  · push Not at hmissing
    refine .inl ((hv.congr ⟨h.toSameChain, fun o ho => ?_, fun o ho => ?_⟩).trans ht)
    · exact (h.resolved o ho).resolve_left (hmissing o ho)
    · exact iff_of_false (h.unspent o ho) (hv.unspent ht o ho)

/-! ## `validate_transaction` -/

/-- An input spends its outpoint. -/
theorem mem_spends {input : TxInput} (h : input ∈ tx.inputs) :
    input.previousOutput ∈ tx.spends := mem_map_of_mem h

/-- The inputs of a total are found and unspent. -/
theorem totalInput_ok {acc total : UInt64} (h : totalInput state inputs acc = .ok total) :
    ∀ input ∈ inputs,
      resolvedOutput state input.previousOutput ≠ none ∧
      input.previousOutput ∉ state.mempool.spentOutpoints := by
  induction inputs generalizing acc with
  | nil => simp
  | cons input rest ih =>
    simp only [totalInput, bind_eq_ok, okOr_eq_ok, ensure_eq_ok, txOutputAmount_eq,
      Option.map_eq_some_iff] at h
    obtain ⟨amount, ⟨output, houtput, -⟩, -, hunspent, next, -, hrest⟩ := h
    refine forall_mem_cons.mpr ⟨⟨?_, hunspent⟩, ih hrest⟩
    simp [houtput]

/-- The total depends on the outputs found. -/
theorem totalInput_congr {s t : ChainState}
    (hresolved : ∀ input ∈ inputs,
      resolvedOutput s input.previousOutput = resolvedOutput t input.previousOutput)
    (hspent : ∀ input ∈ inputs, input.previousOutput ∈ s.mempool.spentOutpoints ↔
      input.previousOutput ∈ t.mempool.spentOutpoints) (acc : UInt64) :
    totalInput s inputs acc = totalInput t inputs acc := by
  induction inputs generalizing acc with
  | nil => rfl
  | cons input rest ih =>
    obtain ⟨hinput, hrest⟩ := forall_mem_cons.mp hresolved
    obtain ⟨hinputSpent, hrestSpent⟩ := forall_mem_cons.mp hspent
    simp only [totalInput, txOutputAmount_eq, hinput, hinputSpent, ih hrest hrestSpent]

/-- The first missing input stops the sum; before it the sum runs as it would with all inputs. -/
theorem totalInput_missing {s t : ChainState} {acc total : UInt64}
    (ht : totalInput t inputs acc = .ok total)
    (hresolved : ∀ input ∈ inputs, resolvedOutput s input.previousOutput = none ∨
      resolvedOutput s input.previousOutput = resolvedOutput t input.previousOutput)
    (hunspent : ∀ input ∈ inputs, input.previousOutput ∉ s.mempool.spentOutpoints)
    (hmissing : ∃ input ∈ inputs, resolvedOutput s input.previousOutput = none) :
    totalInput s inputs acc = .error .utxoNotFound := by
  induction inputs generalizing acc with
  | nil => simp at hmissing
  | cons input rest ih =>
    obtain ⟨hinput, hrest⟩ := forall_mem_cons.mp hresolved
    obtain ⟨hinputSpent, hrestSpent⟩ := forall_mem_cons.mp hunspent
    by_cases hnone : resolvedOutput s input.previousOutput = none
    · simp only [totalInput, txOutputAmount_eq, hnone, Option.map_none, okOr_none, error_bind]
    · have hsame := hinput.resolve_left hnone
      have hlater : ∃ input ∈ rest, resolvedOutput s input.previousOutput = none := by
        obtain ⟨other, hother, habsent⟩ := hmissing
        rcases mem_cons.mp hother with rfl | hother
        · exact absurd habsent hnone
        · exact ⟨other, hother, habsent⟩
      simp only [totalInput, ok_iff, txOutputAmount_eq] at ht
      obtain ⟨amount, hamount, -, -, next, hnext, hlast⟩ := ht
      simp only [totalInput, txOutputAmount_eq, hsame, hamount, okOr_some, ok_bind,
        ensure_pos hinputSpent, hnext, ih hlast hrest hrestSpent hlater]

/-- Confirmation depends on the DAG. -/
theorem transactionIsConfirmed_congr {s t : ChainState} (h : s.dag = t.dag) (txid : Hash) :
    transactionIsConfirmed txid s = transactionIsConfirmed txid t := by
  simp only [transactionIsConfirmed, orderedBlockSkippedTransaction, h]

section

variable [Crypto]

/-- Signatures depend on the outputs found. -/
theorem verifyTransactionSignatures_congr {s t : ChainState}
    (h : ∀ o ∈ tx.spends, resolvedOutput s o = resolvedOutput t o) :
    verifyTransactionSignatures tx s = verifyTransactionSignatures tx t := by
  have hinputs : verifyTransactionSignaturesWithMessage tx s
      (canonicalUnsignedTransactionBytes tx) =
      verifyTransactionSignaturesWithMessage tx t (canonicalUnsignedTransactionBytes tx) := by
    refine forM_congr fun input hinput => ?_
    simp only [verifyInputSignature, referencedOutputAddress_eq, h _ (mem_spends hinput)]
  simp only [verifyTransactionSignatures, hinputs]

/-- What a valid transaction has passed before its inputs are looked up. -/
structure WellShaped (tx : Transaction) (state : ChainState) : Prop where
  outputs : tx.outputs ≠ []
  inputs : tx.inputs ≠ []
  amounts : ∀ output ∈ tx.outputs, output.amount ≠ 0
  nodup : tx.spends.Nodup
  txid : computeTxid tx = tx.txid
  unconfirmed : transactionIsConfirmed tx.txid state = false

/-- The part of `validate_transaction` after the checks of the shape. -/
def checkFunds (tx : Transaction) (state : ChainState) : Except PulseError Unit := do
  let inputs ← totalInput state tx.inputs 0
  let outputs ← okOr (checkedSum 0 (tx.outputs.map TxOutput.amount))
    (.invalidTransaction "output overflow")
  let required ← okOr (checkedAdd outputs tx.fee) (.invalidTransaction "output overflow")
  ensure (required ≤ inputs) .insufficientFunds
  verifyTransactionSignatures tx state

/-- A well-shaped transaction is checked for its funds. -/
theorem WellShaped.validateTransaction (h : WellShaped tx state) :
    validateTransaction tx state = checkFunds tx state := by
  have hnodup : (tx.inputs.map TxInput.previousOutput).Nodup := h.nodup
  simp only [PulseDag.validateTransaction, validateTransactionWith, ensure_pos h.outputs,
    ensure_pos h.inputs, ensure_pos h.amounts, ensure_pos hnodup, ensure_pos h.txid,
    ensure_pos h.unconfirmed, ok_bind, checkFunds]

/-- A transaction of another shape is dropped, whatever the pool holds. -/
theorem verdictOf_validateTransaction_of_not (h : ¬WellShaped tx state) :
    verdictOf (validateTransaction tx state) = .drop := by
  rw [validateTransaction, validateTransactionWith]
  by_cases houtputs : tx.outputs ≠ []
  case neg => rw [ensure_neg houtputs, error_bind, verdictOf]; simp
  by_cases hinputs : tx.inputs ≠ []
  case neg => rw [ensure_pos houtputs, ok_bind, ensure_neg hinputs, error_bind, verdictOf]; simp
  rw [ensure_pos houtputs, ok_bind, ensure_pos hinputs, ok_bind]
  by_cases hamounts : ∀ output ∈ tx.outputs, output.amount ≠ 0
  case neg => rw [ensure_neg hamounts, error_bind, verdictOf]; simp
  by_cases hnodup : (tx.inputs.map TxInput.previousOutput).Nodup
  case neg => rw [ensure_pos hamounts, ok_bind, ensure_neg hnodup, error_bind, verdictOf]; simp
  rw [ensure_pos hamounts, ok_bind, ensure_pos hnodup, ok_bind, ok_bind]
  by_cases htxid : computeTxid tx = tx.txid
  case neg => rw [ensure_neg htxid, error_bind, verdictOf]; simp
  by_cases hconfirmed : transactionIsConfirmed tx.txid state = false
  case neg => rw [ensure_pos htxid, ok_bind, ensure_neg hconfirmed, error_bind, verdictOf]; simp
  exact absurd ⟨houtputs, hinputs, hamounts, hnodup, htxid, hconfirmed⟩ h

/-- What is not dropped is well shaped. -/
theorem wellShaped_of_verdict (h : verdictOf (validateTransaction tx state) ≠ .drop) :
    WellShaped tx state := by
  by_contra hnot
  exact h (verdictOf_validateTransaction_of_not hnot)

/-- What is valid is well shaped. -/
theorem wellShaped_of_ok (h : validateTransaction tx state = .ok ()) : WellShaped tx state :=
  wellShaped_of_verdict (by rw [h]; simp [verdictOf])

/-- The shape depends on the DAG. -/
theorem WellShaped.congr {s t : ChainState} (h : s.dag = t.dag) :
    WellShaped tx s ↔ WellShaped tx t := by
  constructor
  · rintro ⟨houtputs, hinputs, hamounts, hnodup, htxid, hconfirmed⟩
    exact ⟨houtputs, hinputs, hamounts, hnodup, htxid,
      transactionIsConfirmed_congr h tx.txid ▸ hconfirmed⟩
  · rintro ⟨houtputs, hinputs, hamounts, hnodup, htxid, hconfirmed⟩
    exact ⟨houtputs, hinputs, hamounts, hnodup, htxid,
      (transactionIsConfirmed_congr h tx.txid).trans hconfirmed⟩

/-- The inputs of a valid transaction are found and unspent. -/
theorem validateTransaction_inputs (h : validateTransaction tx state = .ok ()) : ∀ o ∈ tx.spends,
      resolvedOutput state o ≠ none ∧ o ∉ state.mempool.spentOutpoints := by
  rw [(wellShaped_of_ok h).validateTransaction] at h
  simp only [checkFunds, bind_eq_ok] at h
  obtain ⟨total, htotal, -⟩ := h
  intro o ho
  obtain ⟨input, hinput, rfl⟩ := mem_map.mp ho
  exact totalInput_ok htotal input hinput

/-- The validator of the pool. -/
theorem poolValidator_validateTransaction :
    PoolValidator (fun tx => computeTxid tx = tx.txid) validateTransaction where
  inputs_ne_nil h := (wellShaped_of_ok h).inputs
  nodup h := (wellShaped_of_ok h).nodup
  resolved h o ho := (validateTransaction_inputs h o ho).1
  unspent h o ho := (validateTransaction_inputs h o ho).2
  identified h := (wellShaped_of_verdict h).txid
  congr {tx s t} h := by
    have htotal : ∀ acc, totalInput s tx.inputs acc = totalInput t tx.inputs acc := totalInput_congr
      (fun input hinput => h.resolved _ (mem_spends hinput))
      (fun input hinput => h.spent _ (mem_spends hinput))
    simp only [validateTransaction, validateTransactionWith, transactionIsConfirmed_congr h.dag,
      htotal, verifyTransactionSignatures_congr h.resolved]
  missing {tx s t} ht h hmissing := by
    have hshape := wellShaped_of_ok ht
    rw [hshape.validateTransaction, checkFunds] at ht
    simp only [bind_eq_ok] at ht
    obtain ⟨total, htotal, -⟩ := ht
    obtain ⟨o, ho, hnone⟩ := hmissing
    obtain ⟨input, hinput, rfl⟩ := mem_map.mp ho
    have hstops := totalInput_missing htotal (fun input hinput => h.resolved _ (mem_spends hinput))
      (fun input hinput => h.unspent _ (mem_spends hinput)) ⟨input, hinput, hnone⟩
    rw [((WellShaped.congr h.dag).mpr hshape).validateTransaction, checkFunds, hstops, error_bind]

end

/-! ## Pools as lists -/

/-- The pool of a state consists of the listed transactions, over the ledger and the DAG of another
state. -/
structure Represents (base s : ChainState) (pool : List Transaction) :
    Prop extends SameChain s base where
  utxo : s.utxo = base.utxo
  transactions : ∀ txid tx, s.mempool.transactions[txid]? = some tx ↔ tx ∈ pool ∧ tx.txid = txid
  spent : ∀ o, o ∈ s.mempool.spentOutpoints ↔ ∃ tx ∈ pool, o ∈ tx.spends

namespace Represents

variable {base s t : ChainState} {pool other : List Transaction}

/-- Two states with the same pool agree for every transaction. -/
theorem sameInputs (hs : Represents base s pool) (ht : Represents base t pool) (tx : Transaction) :
    SameInputs tx s t where
  chainId := hs.chainId.trans ht.chainId.symm
  dag := hs.dag.trans ht.dag.symm
  resolved o _ := by
    have hpool : s.mempool.transactions[o.txid]? = t.mempool.transactions[o.txid]? :=
      Option.ext fun tx => (hs.transactions o.txid tx).trans (ht.transactions o.txid tx).symm
    simp only [resolvedOutput, pooledOutput, hs.utxo, ht.utxo, hpool]
  spent o _ := (hs.spent o).trans (ht.spent o).symm

/-- Parts of one collection with distinct ids give an outpoint the same meaning, or one of them
does not know it. -/
theorem resolvedOutput_or {K : List Transaction} (hs : Represents base s pool)
    (ht : Represents base t other) (hK : ∀ a ∈ K, ∀ b ∈ K, a.txid = b.txid → a = b)
    (hpool : pool ⊆ K) (hother : other ⊆ K) {o : OutPoint} (hknown : resolvedOutput t o ≠ none) :
    (resolvedOutput s o = none ∨ resolvedOutput s o = resolvedOutput t o) ∧
      (other ⊆ pool → resolvedOutput s o = resolvedOutput t o) := by
  have hutxo : s.utxo = t.utxo := hs.utxo.trans ht.utxo.symm
  rw [resolvedOutput] at hknown
  rw [resolvedOutput, resolvedOutput, hutxo]
  cases hcoin : t.utxo.utxos[o]? with
  | some coin => exact ⟨.inr rfl, fun _ => rfl⟩
  | none =>
    simp only [hcoin] at hknown ⊢
    cases hfound : t.mempool.transactions[o.txid]? with
    | none => simp [pooledOutput, hfound] at hknown
    | some b =>
      obtain ⟨hb, hid⟩ := (ht.transactions _ _).mp hfound
      refine ⟨?_, fun hsub => ?_⟩
      · cases hhere : s.mempool.transactions[o.txid]? with
        | none => exact .inl (by simp [pooledOutput, hhere])
        | some d =>
          obtain ⟨hd, hid'⟩ := (hs.transactions _ _).mp hhere
          obtain rfl := hK d (hpool hd) b (hother hb) (hid'.trans hid.symm)
          exact .inr (by simp [pooledOutput, hhere, hfound])
      · have hhere := (hs.transactions o.txid b).mpr ⟨hsub hb, hid⟩
        simp [pooledOutput, hhere, hfound]

end Represents

end PulseDag
