import PulseDag.Ledger.NaiveReplay

/-!
# The bounded replay simulates the naive one

The replay and the naive replay run in step. Between two transfers they agree on everything but
the remembered coins, and on the remembered coins they agree at every outpoint that is still to
be referred to. A record of a skipped output is never contradicted, since a transaction id
determines the transaction.
-/

namespace PulseDag

open List

/-! ## Authentication reads the inputs only -/

/-- Two states of the loop that differ in what they remember, but not at the listed outpoints. -/
structure ReadsAlike (outpoints : List OutPoint) (a b : ReplayLoopV3) : Prop where
  same : a.forgetProvenance = b.forgetProvenance
  spent : ∀ outpoint ∈ outpoints,
    a.spentByAcceptedTransfer[outpoint]? = b.spentByAcceptedTransfer[outpoint]?
  skipped : ∀ outpoint ∈ outpoints,
    a.skippedSignedOutputs[outpoint]? = b.skippedSignedOutputs[outpoint]?

variable {others outpoints : List OutPoint} {inputs : List TxInput}
  {utxos : TreeMap OutPoint Utxo}

/-- Reading fewer outpoints. -/
theorem ReadsAlike.mono {a b : ReplayLoopV3} (h : ReadsAlike outpoints a b)
    (hsub : ∀ outpoint ∈ others, outpoint ∈ outpoints) : ReadsAlike others a b :=
  ⟨h.same, fun outpoint hmem => h.spent outpoint (hsub outpoint hmem),
    fun outpoint hmem => h.skipped outpoint (hsub outpoint hmem)⟩

/-- Loops that differ in their provenance only. -/
theorem forgetProvenance_eq {a b : ReplayLoopV3} (h : a.forgetProvenance = b.forgetProvenance) :
    b = { a with
      repeatedInputReferences := b.repeatedInputReferences
      spentByAcceptedTransfer := b.spentByAcceptedTransfer
      skippedSignedOutputs := b.skippedSignedOutputs } := by
  obtain ⟨⟩ := a
  obtain ⟨⟩ := b
  simp only [ReplayLoopV3.forgetProvenance, ReplayLoopV3.mk.injEq, and_true, true_and] at h ⊢
  simp only [h, and_self]

/-- The states agree. -/
theorem ReadsAlike.rebuilt {a b : ReplayLoopV3} (h : ReadsAlike outpoints a b) :
    a.rebuilt = b.rebuilt := by
  rw [forgetProvenance_eq h.same]

/-- The reward outpoints agree. -/
theorem ReadsAlike.rewards {a b : ReplayLoopV3} (h : ReadsAlike outpoints a b) :
    a.validatedRewardOutpoints = b.validatedRewardOutpoints := by
  rw [forgetProvenance_eq h.same]

section

variable [Crypto] {chainId : String} {site : ReplaySite} {tx : Transaction} {a b : ReplayLoopV3}

omit [Crypto] in
/-- The provenance check reads the inputs only. -/
theorem checkProvenance_congr (h : ReadsAlike (tx.inputs.map TxInput.previousOutput) a b) :
    checkProvenance a site tx = checkProvenance b site tx := by
  rw [checkProvenance, checkProvenance]
  refine forM_congr fun input hinput => ?_
  have hmem := mem_map_of_mem (f := TxInput.previousOutput) hinput
  simp only [h.rebuilt, h.rewards, TreeMap.mem_congr (h.spent _ hmem),
    TreeMap.mem_congr (h.skipped _ hmem)]

omit [Crypto] in
/-- The historical ledger reads the inputs only. -/
theorem historicalLedger_congr (h : ReadsAlike (tx.inputs.map TxInput.previousOutput) a b) :
    historicalLedger a tx = historicalLedger b tx := by
  rw [historicalLedger, historicalLedger, h.rebuilt]
  refine foldl_ext _ _ _ fun historical input hinput => ?_
  have hmem := mem_map_of_mem (f := TxInput.previousOutput) hinput
  simp only [restoreInput, provenanceCoin, h.rewards, h.spent _ hmem, h.skipped _ hmem]

/-- Authentication looks at what is remembered about the inputs of the transfer and at nothing
else that is remembered. -/
theorem authenticateTransfer_congr (h : ReadsAlike (tx.inputs.map TxInput.previousOutput) a b) :
    authenticateTransfer chainId site a tx = authenticateTransfer chainId site b tx := by
  rw [authenticateTransfer, authenticateTransfer, checkProvenance_congr h, historicalLedger_congr h,
    h.rebuilt]

/-- An authenticated transfer has distinct inputs. -/
theorem authenticateTransfer_nodup {immature : Bool}
    (h : authenticateTransfer chainId site a tx = .ok immature) :
    (tx.inputs.map TxInput.previousOutput).Nodup := by
  have hspend : ∀ (state : ChainState) (u : Unit),
      validateSignedReplaySpend tx state chainId site = .ok u →
      (tx.inputs.map TxInput.previousOutput).Nodup := by
    intro state u hspend
    simp only [validateSignedReplaySpend, bind_eq_ok, mapError_eq_ok] at hspend
    obtain ⟨_, hvalid, -⟩ := hspend
    exact (validateTransactionWith_shape hvalid).2.2
  unfold authenticateTransfer at h
  split at h
  · rw [bind_eq_ok] at h
    obtain ⟨u, hvalid, -⟩ := h
    exact hspend _ u hvalid
  · simp only [bind_eq_ok] at h
    obtain ⟨-, -, u, hvalid, -⟩ := h
    split at hvalid
    · simp only [validateImmatureTransfer, bind_eq_ok, ensure_eq_ok] at hvalid
      obtain ⟨-, ⟨-, -, hnodup⟩, -⟩ := hvalid
      exact hnodup
    · exact hspend _ u hvalid

end

/-! ## Applying in place -/

/-- Outpoints with a 32-bit index are told apart. -/
theorem outpointAt_inj {txid txid' : Hash} {index index' : ℕ} (h : index < 2 ^ 32)
    (h' : index' < 2 ^ 32) (heq : outpointAt txid index = outpointAt txid' index') :
    txid = txid' ∧ index = index' := by
  obtain ⟨htxid, hindex⟩ := OutPoint.mk.inj heq
  have hnat := congrArg UInt32.toNat hindex
  rw [UInt32.toNat_ofNat_of_lt' h, UInt32.toNat_ofNat_of_lt' h'] at hnat
  exact ⟨htxid, hnat⟩

/-- A transaction with few outputs has distinct outpoints. -/
theorem outpointsOf_nodup {tx : Transaction} (h : tx.outputs.length < 2 ^ 32) :
    (outpointsOf tx).Nodup := by
  refine List.Nodup.map_on (fun index hindex index' hindex' heq => ?_) nodup_range
  rw [mem_range] at hindex hindex'
  exact (outpointAt_inj (hindex.trans h) (hindex'.trans h) heq).2

/-- The guard of the in-place path is exact for an authenticated transfer. -/
theorem inPlaceSafe_iff_applicable {tx : Transaction} {utxo : UtxoState} (hinputs : tx.inputs ≠ [])
    (hnodup : (tx.inputs.map TxInput.previousOutput).Nodup) (hlength : tx.outputs.length < 2 ^ 32) :
    inPlaceSafe utxo.utxos tx = true ↔ Applicable tx utxo := by
  have hspent := spentOutpoints_of_inputs hinputs
  simp only [inPlaceSafe, Bool.and_eq_true, allInputsAvailable_iff, decide_eq_true_eq,
    all_eq_true]
  constructor
  · rintro ⟨⟨⟨-, hpresent⟩, -⟩, hfresh⟩
    refine ⟨outpointsOf_nodup hlength, hfresh, hspent ▸ hnodup, fun outpoint hmem => ?_⟩
    rw [hspent] at hmem
    obtain ⟨input, hinput, rfl⟩ := mem_map.mp hmem
    exact hpresent input hinput
  · intro happlicable
    refine ⟨⟨⟨hinputs, fun input hinput => happlicable.spent_mem _ ?_⟩, hlength⟩,
      happlicable.created_fresh⟩
    rw [hspent]
    exact mem_map_of_mem hinput

/-- Where the coins of some inputs are read off the ledger, the entries are those of the ledger. -/
theorem readCoins_ok {error : PulseError} (h : ∀ input ∈ inputs, input.previousOutput ∈ utxos) :
    ∃ entries, (inputs.mapM fun input => do
        let coin ← okOr utxos[input.previousOutput]? error
        pure (input.previousOutput, coin)) = .ok entries ∧
      entries.map Prod.fst = inputs.map TxInput.previousOutput ∧
      ∀ entry ∈ entries, utxos[entry.1]? = some entry.2 := by
  induction inputs with
  | nil => exact ⟨[], rfl, rfl, by simp⟩
  | cons input rest ih =>
    obtain ⟨hinput, hrest⟩ := forall_mem_cons.mp h
    obtain ⟨entries, hentries, hkeys, hlookup⟩ := ih hrest
    obtain ⟨coin, hcoin⟩ := (TreeMap.mem_iff _ _).mp hinput
    refine ⟨(input.previousOutput, coin) :: entries, ?_, ?_, ?_⟩
    · rw [mapM_cons, hcoin, okOr_some, ok_bind, pure_eq_ok, ok_bind, hentries, ok_bind,
        pure_eq_ok]
    · rw [map_cons, map_cons, hkeys]
    · exact forall_mem_cons.mpr ⟨hcoin, hlookup⟩

/-- Entries read off a ledger are found again where they have been put. -/
theorem getElem?_insertAll_read {m : TreeMap OutPoint Utxo} {entries : List (OutPoint × Utxo)}
    (hlookup : ∀ entry ∈ entries, utxos[entry.1]? = some entry.2)
    (hnodup : (entries.map Prod.fst).Nodup) (outpoint : OutPoint) :
    (insertAll m entries)[outpoint]? =
      if outpoint ∈ entries.map Prod.fst then utxos[outpoint]? else m[outpoint]? := by
  split
  · rename_i hmem
    obtain ⟨entry, hentry, rfl⟩ := mem_map.mp hmem
    rw [hlookup entry hentry]
    exact getElem?_insertAll_of_mem m hnodup hentry
  · rename_i hmem
    exact getElem?_insertAll_of_notMem m hmem

/-! ## Records of skipped outputs -/

/-- A transaction of a stored block. -/
def StoredTransaction (state : ChainState) (tx : Transaction) : Prop :=
  ∃ (hash : Hash) (block : Block), state.dag.blocks[hash]? = some block ∧ tx ∈ block.transactions

/-- Among the stored transactions an id determines its transaction. -/
structure CollisionFree [Crypto] (state : ChainState) : Prop where
  outputs_length : ∀ tx, StoredTransaction state tx → tx.outputs.length < 2 ^ 32
  eq_of_txid_eq : ∀ tx tx', StoredTransaction state tx → StoredTransaction state tx' →
    Identified tx state.chainId → Identified tx' state.chainId → tx.txid = tx'.txid → tx = tx'

/-- Being free of collisions, as a check of all pairs. -/
theorem CollisionFree.of_toList [Crypto] {state : ChainState}
    (h : ∀ entry ∈ state.dag.blocks.toList, ∀ tx ∈ entry.2.transactions,
      tx.outputs.length < 2 ^ 32 ∧ ∀ entry' ∈ state.dag.blocks.toList,
        ∀ tx' ∈ entry'.2.transactions, tx.txid = tx'.txid → tx = tx') : CollisionFree state := by
  refine ⟨?_, ?_⟩
  · rintro tx ⟨hash, block, hblock, htx⟩
    exact (h (hash, block) ((TreeMap.mem_toList _ _ _).mpr hblock) tx htx).1
  · rintro tx tx' ⟨hash, block, hblock, htx⟩ ⟨hash', block', hblock', htx'⟩ - - heq
    exact (h (hash, block) ((TreeMap.mem_toList _ _ _).mpr hblock) tx htx).2 (hash', block')
      ((TreeMap.mem_toList _ _ _).mpr hblock') tx' htx' heq

/-- A collision-free digest gives ids without collisions. -/
theorem ReplayFits.collisionFree [Crypto] {state : ChainState} {orderedDag : OrderedDagV2}
    (h : ReplayFits state orderedDag) (hsha : Function.Injective Crypto.sha256) :
    CollisionFree state := by
  have hfits : ∀ tx, StoredTransaction state tx → tx.Fits := by
    rintro tx ⟨hash, block, hblock, htx⟩
    exact h.transactions hash block hblock tx htx
  exact ⟨fun tx htx => (hfits tx htx).outputs_length, fun tx tx' htx htx' hid hid' heq =>
    hid.eq_of_txid_eq hsha hid' (hfits tx htx) (hfits tx' htx') heq⟩

/-- The records with one more output of a skipped transfer. -/
def keepSkippedOutput (tx : Transaction) (height : UInt64) (hasImmatureReward : Bool)
    (skipped : TreeMap OutPoint (Utxo × Bool)) (entry : TxOutput × ℕ) :
    TreeMap OutPoint (Utxo × Bool) :=
  let outpoint := outpointAt tx.txid entry.2
  skipped.insert outpoint
    (match skipped[outpoint]? with
    | some (existing, unknownValue) => (existing, unknownValue || hasImmatureReward)
    | none =>
      ({ outpoint := outpoint, address := entry.1.address, amount := entry.1.amount,
         coinbase := false, height := height }, hasImmatureReward))

/-- The archive after one more output. -/
theorem getElem?_keepSkippedOutput {tx : Transaction} {height : UInt64} {immature : Bool}
    {skipped : TreeMap OutPoint (Utxo × Bool)} {entry : TxOutput × ℕ} (outpoint : OutPoint) :
    (keepSkippedOutput tx height immature skipped entry)[outpoint]? =
      if outpoint = outpointAt tx.txid entry.2 then
        some (match skipped[outpoint]? with
          | some (existing, unknownValue) => (existing, unknownValue || immature)
          | none =>
            ({ outpoint := outpoint, address := entry.1.address, amount := entry.1.amount,
               coinbase := false, height := height }, immature))
      else skipped[outpoint]? := by
  rw [keepSkippedOutput, TreeMap.getElem?_insert]
  split
  · rename_i heq
    rw [heq]
  · rfl

section

variable [Crypto]

/-- The records of skipped outputs come from stored transfers that state their ids. -/
def SkippedAuthentic (state : ChainState) (skipped : TreeMap OutPoint (Utxo × Bool)) : Prop :=
  ∀ (outpoint : OutPoint) (coin : Utxo) (unknownValue : Bool),
    skipped[outpoint]? = some (coin, unknownValue) →
    ∃ tx output index, StoredTransaction state tx ∧ Identified tx state.chainId ∧
      tx.outputs[index]? = some output ∧ outpoint = outpointAt tx.txid index ∧
      coin.address = output.address ∧ coin.amount = output.amount ∧ coin.coinbase = false

variable {state : ChainState} {tx : Transaction} {height : UInt64} {immature : Bool}
  {skipped : TreeMap OutPoint (Utxo × Bool)} {output : TxOutput} {index : ℕ}

/-- The index of an output is a 32-bit word. -/
theorem CollisionFree.index_lt (hfree : CollisionFree state) (htx : StoredTransaction state tx)
    (houtput : tx.outputs[index]? = some output) : index < 2 ^ 32 :=
  (List.getElem?_eq_some_iff.mp houtput).1.trans (hfree.outputs_length tx htx)

/-- A record that exists agrees with the output. -/
theorem SkippedAuthentic.consistent (h : SkippedAuthentic state skipped)
    (hfree : CollisionFree state) (htx : StoredTransaction state tx)
    (hid : Identified tx state.chainId) (houtput : tx.outputs[index]? = some output)
    {existing : Utxo} {unknownValue : Bool}
    (hfound : skipped[outpointAt tx.txid index]? = some (existing, unknownValue)) :
    existing.address = output.address ∧ existing.amount = output.amount ∧
      existing.coinbase = false := by
  obtain ⟨tx', output', index', htx', hid', houtput', heq, hrecord⟩ := h _ _ _ hfound
  obtain ⟨htxid, rfl⟩ := outpointAt_inj (hfree.index_lt htx houtput)
    (hfree.index_lt htx' houtput') heq
  obtain rfl := hfree.eq_of_txid_eq tx tx' htx htx' hid hid' htxid
  obtain rfl := Option.some.inj (houtput.symm.trans houtput')
  exact hrecord

/-- An archived output stays authentic. -/
theorem SkippedAuthentic.keep (h : SkippedAuthentic state skipped)
    (htx : StoredTransaction state tx)
    (hid : Identified tx state.chainId) (houtput : tx.outputs[index]? = some output) :
    SkippedAuthentic state (keepSkippedOutput tx height immature skipped (output, index)) := by
  intro outpoint coin unknownValue hfound
  rw [getElem?_keepSkippedOutput] at hfound
  split at hfound
  · rename_i heq
    cases hold : skipped[outpoint]? with
    | some record =>
      rw [hold] at hfound
      obtain ⟨rfl, -⟩ := Prod.mk.inj (Option.some.inj hfound)
      exact h outpoint record.1 record.2 hold
    | none =>
      rw [hold] at hfound
      obtain ⟨rfl, -⟩ := Prod.mk.inj (Option.some.inj hfound)
      exact ⟨tx, output, index, htx, hid, houtput, heq, rfl, rfl, rfl⟩
  · exact h outpoint coin unknownValue hfound

/-- With authentic records the replay never stops at an output of a skipped transfer. -/
theorem recordSkippedOutput_eq (h : SkippedAuthentic state skipped) (hfree : CollisionFree state)
    (htx : StoredTransaction state tx) (hid : Identified tx state.chainId)
    (houtput : tx.outputs[index]? = some output) (referencedInputs : TreeSet OutPoint)
    (loop : ReplayLoopV3) :
    recordSkippedOutput referencedInputs loop tx height immature skipped (output, index) =
      .ok (if outpointAt tx.txid index ∉ referencedInputs ∨
          outpointAt tx.txid index ∈ loop.rebuilt.utxo.utxos ∨
          outpointAt tx.txid index ∈ loop.spentByAcceptedTransfer then skipped
        else keepSkippedOutput tx height immature skipped (output, index)) := by
  rw [recordSkippedOutput, ensure_pos (hfree.index_lt htx houtput), ok_bind, apply_ite Except.ok]
  refine ite_congr rfl (fun _ => rfl) fun _ => ?_
  cases hfound : skipped[outpointAt tx.txid index]? with
  | some record =>
    rw [keepSkippedOutput, hfound]
    exact congrArg (· >>= fun _ => _) (ensure_pos (h.consistent hfree htx hid houtput hfound))
  | none =>
    rw [keepSkippedOutput, hfound]
    rfl

/-- Archiving an authentic output succeeds. -/
theorem archiveSkippedOutput_eq (h : SkippedAuthentic state skipped) (hfree : CollisionFree state)
    (htx : StoredTransaction state tx) (hid : Identified tx state.chainId)
    (houtput : tx.outputs[index]? = some output) (loop : ReplayLoopV3) :
    archiveSkippedOutput loop tx height immature skipped (output, index) =
      .ok (if outpointAt tx.txid index ∈ loop.rebuilt.utxo.utxos ∨
          outpointAt tx.txid index ∈ loop.spentByAcceptedTransfer then skipped
        else keepSkippedOutput tx height immature skipped (output, index)) := by
  rw [archiveSkippedOutput, ensure_pos (hfree.index_lt htx houtput), ok_bind, apply_ite Except.ok]
  refine ite_congr rfl (fun _ => rfl) fun _ => ?_
  cases hfound : skipped[outpointAt tx.txid index]? with
  | some record =>
    rw [keepSkippedOutput, hfound]
    exact congrArg (· >>= fun _ => _) (ensure_pos (h.consistent hfree htx hid houtput hfound))
  | none =>
    rw [keepSkippedOutput, hfound]
    rfl

end

/-! ## The simulation -/

section

variable [Crypto]

/-- The two replays between two steps. The index of the replay counts the pending references,
what both remember agrees at the outpoints to come, and the records of both are authentic. -/
structure Bounded (state : ChainState) (total pending future : List OutPoint)
    (bounded naive : ReplayLoopV3) : Prop where
  reads : ReadsAlike future bounded naive
  pending_suffix : pending <:+ total
  future_subset : ∀ outpoint ∈ future, outpoint ∈ pending
  references : ∀ outpoint,
    bounded.repeatedInputReferences[outpoint]? = remainingReferences total pending outpoint
  authentic : SkippedAuthentic state bounded.skippedSignedOutputs
  authentic_naive : SkippedAuthentic state naive.skippedSignedOutputs

variable {state : ChainState} {total pending future : List OutPoint} {bounded naive : ReplayLoopV3}
  {tx : Transaction} {site : ReplaySite} {referencedInputs : TreeSet OutPoint}

/-- Fewer reads to come. -/
theorem Bounded.mono (h : Bounded state total pending future bounded naive)
    (hsub : ∀ outpoint ∈ others, outpoint ∈ future) :
    Bounded state total pending others bounded naive :=
  { h with
    reads := h.reads.mono hsub
    future_subset := fun outpoint hmem => h.future_subset outpoint (hsub outpoint hmem) }

/-- The relation looks at the loop through what it remembers. -/
theorem Bounded.congr (h : Bounded state total pending future bounded naive)
    {bounded' naive' : ReplayLoopV3} (hsame : bounded'.forgetProvenance = naive'.forgetProvenance)
    (hreferences : bounded'.repeatedInputReferences = bounded.repeatedInputReferences)
    (hspent : bounded'.spentByAcceptedTransfer = bounded.spentByAcceptedTransfer)
    (hspent' : naive'.spentByAcceptedTransfer = naive.spentByAcceptedTransfer)
    (hskipped : bounded'.skippedSignedOutputs = bounded.skippedSignedOutputs)
    (hskipped' : naive'.skippedSignedOutputs = naive.skippedSignedOutputs) :
    Bounded state total pending future bounded' naive' where
  reads := ⟨hsame, by rw [hspent, hspent']; exact h.reads.spent,
    by rw [hskipped, hskipped']; exact h.reads.skipped⟩
  pending_suffix := h.pending_suffix
  future_subset := h.future_subset
  references := by rw [hreferences]; exact h.references
  authentic := by rw [hskipped]; exact h.authentic
  authentic_naive := by rw [hskipped']; exact h.authentic_naive

omit [Crypto] in
/-- A reference to another outpoint does not count. -/
theorem remainingReferences_cons_of_ne {outpoint other : OutPoint} (hne : other ≠ outpoint) :
    remainingReferences total (outpoint :: pending) other =
    remainingReferences total pending other := by
  rw [remainingReferences, remainingReferences, count_cons_of_ne hne.symm]

/-- Releasing a reference never fails and forgets nothing that is still to be read. -/
theorem Bounded.release {input : TxInput}
    (h : Bounded state total (input.previousOutput :: pending) future bounded naive)
    (hfuture : ∀ outpoint ∈ future, outpoint ∈ pending) :
    ∃ next, releaseReference bounded input = .ok next ∧
      Bounded state total pending future next naive := by
  have hsuffix : pending <:+ total := (suffix_cons _ _).trans h.pending_suffix
  have hreference := h.references input.previousOutput
  rw [remainingReferences, count_cons_self] at hreference
  rw [releaseReference]
  by_cases htwo : 2 ≤ total.count input.previousOutput
  · rw [if_pos ⟨htwo, by omega⟩] at hreference
    simp only [hreference, ensure_pos (Nat.succ_ne_zero _), ok_bind, Nat.add_sub_cancel]
    by_cases hlast : pending.count input.previousOutput = 0
    · have hnotMem : input.previousOutput ∉ pending := count_eq_zero.mp hlast
      rw [if_pos hlast]
      refine ⟨_, rfl, ⟨h.reads.same, fun outpoint hmem => ?_, h.reads.skipped⟩, hsuffix, hfuture,
        fun outpoint => ?_, h.authentic, h.authentic_naive⟩
      · have hne : outpoint ≠ input.previousOutput :=
          fun heq => hnotMem (heq ▸ hfuture outpoint hmem)
        rw [TreeMap.getElem?_erase, if_neg hne]
        exact h.reads.spent outpoint hmem
      · rw [TreeMap.getElem?_erase]
        split
        · rename_i heq
          rw [heq, remainingReferences, if_neg (by omega)]
        · rename_i hne
          rw [h.references, remainingReferences_cons_of_ne hne]
    · rw [if_neg hlast]
      refine ⟨_, rfl, ⟨h.reads.same, h.reads.spent, h.reads.skipped⟩, hsuffix, hfuture,
        fun outpoint => ?_, h.authentic, h.authentic_naive⟩
      rw [TreeMap.getElem?_insert]
      split
      · rename_i heq
        rw [heq, remainingReferences, if_pos ⟨htwo, by omega⟩]
      · rename_i hne
        rw [h.references, remainingReferences_cons_of_ne hne]
  · rw [if_neg (by omega)] at hreference
    simp only [hreference]
    refine ⟨bounded, rfl, h.reads, hsuffix, hfuture, fun outpoint => ?_, h.authentic,
      h.authentic_naive⟩
    rw [h.references]
    by_cases heq : outpoint = input.previousOutput
    · rw [heq, remainingReferences, remainingReferences, if_neg (by omega), if_neg (by omega)]
    · exact remainingReferences_cons_of_ne heq

/-- Releasing the inputs of a transfer. -/
theorem Bounded.releaseAll
    (h : Bounded state total (inputs.map TxInput.previousOutput ++ pending) future bounded naive)
    (hfuture : ∀ outpoint ∈ future, outpoint ∈ pending) :
    ∃ next, inputs.foldlM releaseReference bounded = .ok next ∧
      Bounded state total pending future next naive := by
  induction inputs generalizing bounded with
  | nil => exact ⟨bounded, rfl, h⟩
  | cons input rest ih =>
    obtain ⟨middle, hmiddle, hbounded⟩ := Bounded.release h fun outpoint hmem =>
      mem_append_right _ (hfuture outpoint hmem)
    obtain ⟨next, hnext, hbounded'⟩ := ih hbounded
    exact ⟨next, by rw [foldlM_cons, hmiddle, ok_bind, hnext], hbounded'⟩

/-- An accepted transfer: an input that is to be read again is archived by both. -/
theorem Bounded.accept
    (h : Bounded state total (tx.inputs.map TxInput.previousOutput ++ future) future bounded naive)
    (hpresent : ∀ input ∈ tx.inputs, input.previousOutput ∈ naive.rebuilt.utxo.utxos)
    (hnodup : (tx.inputs.map TxInput.previousOutput).Nodup) (rebuilt : ChainState) :
    Agree (Bounded state total (tx.inputs.map TxInput.previousOutput ++ future) future)
      (archivedInputs bounded tx >>= fun archived =>
        acceptTransfer site bounded tx archived rebuilt)
      (consumedCoins naive tx >>= fun consumed =>
        acceptTransfer site naive tx consumed rebuilt) := by
  have hpresentFiltered : ∀ input ∈ tx.inputs.filter (fun input =>
      decide (input.previousOutput ∈ bounded.repeatedInputReferences)),
      input.previousOutput ∈ bounded.rebuilt.utxo.utxos := by
    rw [h.reads.rebuilt]
    exact fun input hinput => hpresent input (mem_of_mem_filter hinput)
  obtain ⟨archived, harchived, hkeys, hlookup⟩ := readCoins_ok hpresentFiltered
  obtain ⟨consumed, hconsumed, hkeys', hlookup'⟩ := readCoins_ok hpresent
  have harchivedNodup : (archived.map Prod.fst).Nodup := by
    rw [hkeys]
    exact hnodup.sublist (filter_sublist.map _)
  rw [archivedInputs, consumedCoins, harchived, hconsumed, ok_bind, ok_bind, acceptTransfer,
    acceptTransfer, forgetProvenance_eq h.reads.same]
  refine Agree.bind (R := Eq) (agree_self fun _ _ => rfl) ?_
  rintro fees _ - - rfl
  refine Agree.bind (R := Eq) (agree_self fun _ _ => rfl) ?_
  rintro extended _ - - rfl
  refine agree_ok ⟨⟨rfl, fun outpoint hmem => ?_, h.reads.skipped⟩, h.pending_suffix,
    h.future_subset, h.references, h.authentic, h.authentic_naive⟩
  rw [getElem?_insertAll_read hlookup harchivedNodup,
    getElem?_insertAll_read hlookup' (hkeys' ▸ hnodup), hkeys, hkeys', h.reads.rebuilt]
  by_cases hinput : outpoint ∈ tx.inputs.map TxInput.previousOutput
  · -- read here and later, so there are two references
    have htwo : 2 ≤ total.count outpoint := by
      have hle := h.pending_suffix.sublist.count_le outpoint
      rw [count_append] at hle
      have := count_pos_iff.mpr hinput
      have := count_pos_iff.mpr hmem
      omega
    have hrepeated : outpoint ∈ bounded.repeatedInputReferences := by
      rw [TreeMap.mem_iff]
      refine ⟨_, (h.references outpoint).trans (if_pos ⟨htwo, ?_⟩)⟩
      exact count_pos_iff.mpr (mem_append_left _ hinput)
    have hfiltered : outpoint ∈ (tx.inputs.filter (fun input =>
        decide (input.previousOutput ∈ bounded.repeatedInputReferences))).map
        TxInput.previousOutput := by
      obtain ⟨input, hin, rfl⟩ := mem_map.mp hinput
      exact mem_map_of_mem (mem_filter.mpr ⟨hin, decide_eq_true hrepeated⟩)
    rw [if_pos hfiltered, if_pos hinput]
  · have hfiltered : outpoint ∉ (tx.inputs.filter (fun input =>
        decide (input.previousOutput ∈ bounded.repeatedInputReferences))).map
        TxInput.previousOutput := by
      intro hmem'
      obtain ⟨input, hin, rfl⟩ := mem_map.mp hmem'
      exact hinput (mem_map_of_mem (mem_of_mem_filter hin))
    rw [if_neg hfiltered, if_neg hinput]
    exact h.reads.spent outpoint hmem

/-- A skipped transfer: an output that is to be read is recorded by both. -/
theorem Bounded.skip (h : Bounded state total pending future bounded naive)
    (hreferenced : ∀ outpoint ∈ total, outpoint ∈ referencedInputs) (hfree : CollisionFree state)
    (htx : StoredTransaction state tx) (hid : Identified tx state.chainId) (immature : Bool) :
    Agree (Bounded state total pending future)
      (skipTransfer referencedInputs site bounded tx immature)
        (naiveSkip site naive tx immature) := by
  rw [skipTransfer, naiveSkip, ← h.reads.rebuilt]
  -- the records agree where they are to be read, and both are authentic
  let Records :=
    fun (rest : List (TxOutput × ℕ)) (skipped skipped' : TreeMap OutPoint (Utxo × Bool)) =>
    (∀ entry ∈ rest, tx.outputs[entry.2]? = some entry.1) ∧
      (∀ outpoint ∈ future, skipped[outpoint]? = skipped'[outpoint]?) ∧
      SkippedAuthentic state skipped ∧ SkippedAuthentic state skipped'
  have hstart : Records tx.outputs.zipIdx bounded.skippedSignedOutputs naive.skippedSignedOutputs :=
    ⟨fun entry hentry => mem_zipIdx_iff_getElem?.mp hentry, h.reads.skipped, h.authentic,
      h.authentic_naive⟩
  have hrecords : Agree (Records [])
      (if allInputsAvailable bounded.rebuilt.utxo.utxos tx then pure bounded.skippedSignedOutputs
        else tx.outputs.zipIdx.foldlM
          (recordSkippedOutput referencedInputs bounded tx site.block.header.height immature)
          bounded.skippedSignedOutputs)
      (if allInputsAvailable bounded.rebuilt.utxo.utxos tx then pure naive.skippedSignedOutputs
        else tx.outputs.zipIdx.foldlM
          (archiveSkippedOutput naive tx site.block.header.height immature)
          naive.skippedSignedOutputs) := by
    split
    · exact agree_ok ⟨by simp, hstart.2⟩
    · refine agree_foldlM ?_ hstart
      rintro ⟨output, index⟩ rest skipped skipped' ⟨hentries, hagree, hauthentic, hauthentic'⟩
      obtain ⟨houtput, hrest⟩ := forall_mem_cons.mp hentries
      rw [recordSkippedOutput_eq hauthentic hfree htx hid houtput,
        archiveSkippedOutput_eq hauthentic' hfree htx hid houtput, ← h.reads.rebuilt]
      refine agree_ok ⟨hrest, fun outpoint hmem => ?_, ?_, ?_⟩
      · by_cases heq : outpoint = outpointAt tx.txid index
        · have hread : outpointAt tx.txid index ∈ referencedInputs :=
            heq ▸ hreferenced outpoint (h.pending_suffix.subset (h.future_subset outpoint hmem))
          have hspent := TreeMap.mem_congr (h.reads.spent outpoint hmem)
          rw [heq] at hspent
          simp only [hread, not_true_eq_false, false_or, hspent]
          split
          · exact hagree outpoint hmem
          · rw [getElem?_keepSkippedOutput, getElem?_keepSkippedOutput, hagree outpoint hmem]
        · have hkeep : ∀ (condition : Prop) [Decidable condition]
              (records : TreeMap OutPoint (Utxo × Bool)),
              (if condition then records else keepSkippedOutput tx site.block.header.height immature
                records (output, index))[outpoint]? = records[outpoint]? := by
            intro condition _ records
            split
            · rfl
            · rw [getElem?_keepSkippedOutput, if_neg heq]
          rw [hkeep, hkeep, hagree outpoint hmem]
      · split
        · exact hauthentic
        · exact hauthentic.keep htx hid houtput
      · split
        · exact hauthentic'
        · exact hauthentic'.keep htx hid houtput
  refine hrecords.bind fun skipped skipped' _ _ hrel => ?_
  obtain ⟨-, hagree, hauthentic, hauthentic'⟩ := hrel
  have hspent := h.reads.spent
  rw [forgetProvenance_eq h.reads.same] at hspent ⊢
  exact agree_ok ⟨⟨rfl, hspent, hagree⟩, h.pending_suffix, h.future_subset, h.references,
    hauthentic, hauthentic'⟩

/-- One transfer. -/
theorem Bounded.transfer
    (h : Bounded state total (tx.inputs.map TxInput.previousOutput ++ future)
      (tx.inputs.map TxInput.previousOutput ++ future) bounded naive)
    (hreferenced : ∀ outpoint ∈ total, outpoint ∈ referencedInputs) (hfree : CollisionFree state)
    (htx : StoredTransaction state tx) :
    Agree (Bounded state total future future)
      (replayTransfer state.chainId referencedInputs site bounded tx)
      (naiveTransfer state.chainId site naive tx) := by
  rw [replayTransfer, naiveTransfer, authenticateTransfer_congr
    (h.reads.mono fun outpoint hmem => mem_append_left _ hmem)]
  refine Agree.bind (R := Eq) (agree_self fun _ _ => rfl) ?_
  rintro immature _ hauth - rfl
  have hid := authenticateTransfer_identified hauth
  have hinputs := (authenticateTransfer_eq_ok hauth).1
  have hnodup := authenticateTransfer_nodup hauth
  have hsafe : inPlaceSafe naive.rebuilt.utxo.utxos tx = true ↔ Applicable tx naive.rebuilt.utxo :=
    inPlaceSafe_iff_applicable hinputs hnodup (hfree.outputs_length tx htx)
  have hnarrow := h.mono fun outpoint hmem => mem_append_right _ hmem
  rw [applyTransfer, h.reads.rebuilt]
  by_cases happlicable : Applicable tx naive.rebuilt.utxo
  · obtain ⟨rebuilt, hrebuilt⟩ := happlicable.applyTransaction_ok site.block.header.height
    have hpresent : ∀ input ∈ tx.inputs, input.previousOutput ∈ naive.rebuilt.utxo.utxos := by
      intro input hinput
      refine happlicable.spent_mem _ ?_
      rw [spentOutpoints_of_inputs hinputs]
      exact mem_map_of_mem hinput
    simp only [if_pos (hsafe.mpr happlicable), applyAtomic, hrebuilt, Except.mapError, ok_bind,
      pure_eq_ok]
    rw [← bind_assoc]
    exact (hnarrow.accept hpresent hnodup rebuilt).bind_left fun _ _ hnext =>
      hnext.releaseAll fun _ hmem => hmem
  · have hskip : applyAtomic tx naive.rebuilt site.block.header.height = .ok none := by
      rw [applyAtomic_eq]
      cases happly : applyTransaction tx naive.rebuilt site.block.header.height with
      | ok rebuilt => exact absurd (applyTransaction_eq_ok happly).1 happlicable
      | error error => rfl
    simp only [if_neg (fun hin => happlicable (hsafe.mp hin)), hskip, ok_bind, pure_eq_ok]
    exact (hnarrow.skip hreferenced hfree htx hid immature).bind_left fun _ _ hnext =>
      hnext.releaseAll fun _ hmem => hmem

/-- The transfers of a block. -/
theorem Bounded.transfers {txs : List Transaction}
    (hreferenced : ∀ outpoint ∈ total, outpoint ∈ referencedInputs) (hfree : CollisionFree state)
    (htxs : ∀ tx ∈ txs, StoredTransaction state tx)
    (h : Bounded state total
      (txs.flatMap (fun tx => tx.inputs.map TxInput.previousOutput) ++ future)
      (txs.flatMap (fun tx => tx.inputs.map TxInput.previousOutput) ++ future) bounded naive) :
    Agree (Bounded state total future future)
      (txs.foldlM (replayTransfer state.chainId referencedInputs site) bounded)
      (txs.foldlM (naiveTransfer state.chainId site) naive) := by
  induction txs generalizing bounded naive with
  | nil => exact agree_ok h
  | cons tx rest ih =>
    obtain ⟨htx, hrest⟩ := forall_mem_cons.mp htxs
    rw [flatMap_cons, append_assoc] at h
    rw [foldlM_cons, foldlM_cons]
    exact (h.transfer hreferenced hfree htx).bind fun _ _ _ _ hnext => ih hrest hnext

/-- Registering a claim keeps the simulation. -/
theorem Bounded.registerClaim (h : Bounded state total pending future bounded naive) :
    Agree (Bounded state total pending future) (registerClaim state site bounded)
      (PulseDag.registerClaim state site naive) := by
  rw [PulseDag.registerClaim, PulseDag.registerClaim]
  refine Agree.bind (R := Eq) (agree_self fun _ _ => rfl) ?_
  rintro claim _ - - rfl
  refine Agree.bind (R := Eq) (agree_self fun _ _ => rfl) ?_
  rintro beneficiary _ - - rfl
  refine agree_ok (h.congr ?_ rfl rfl rfl rfl rfl)
  rw [forgetProvenance_eq h.reads.same]
  rfl

/-- Settling a reward keeps the simulation. -/
theorem Bounded.settleReward (segments : List MonetaryCadenceSegment) (orderedDag : OrderedDagV2)
    (h : Bounded state total pending future bounded naive) (rewardScore : ℕ) :
    Agree (Bounded state total pending future)
      (settleReward state segments orderedDag bounded rewardScore)
      (PulseDag.settleReward state segments orderedDag naive rewardScore) := by
  rw [PulseDag.settleReward, PulseDag.settleReward, forgetProvenance_eq h.reads.same]
  refine Agree.bind (R := Eq) (agree_self fun _ _ => rfl) ?_
  rintro fees _ - - rfl
  refine Agree.bind (R := Eq) (agree_self fun _ _ => rfl) ?_
  rintro settled _ - - rfl
  exact agree_ok (h.congr rfl rfl rfl rfl rfl rfl)

/-- Settling the mature rewards keeps the simulation. -/
theorem Bounded.settleMatureRewards (segments : List MonetaryCadenceSegment)
    (orderedDag : OrderedDagV2) (h : Bounded state total pending future bounded naive) (score : ℕ) :
    Agree (Bounded state total pending future)
      (settleMatureRewards state segments orderedDag score bounded)
      (PulseDag.settleMatureRewards state segments orderedDag score naive) := by
  rw [PulseDag.settleMatureRewards, PulseDag.settleMatureRewards]
  refine Agree.bind (R := Eq) (agree_self fun _ _ => rfl) ?_
  rintro mature _ - - rfl
  have hscore : naive.nextRewardScore = bounded.nextRewardScore := by
    rw [forgetProvenance_eq h.reads.same]
  rw [hscore]
  refine agree_foldlM (R := fun _ => Bounded state total pending future)
    (fun rewardScore _ _ _ hstep => hstep.settleReward segments orderedDag rewardScore) ?_
  refine h.congr ?_ rfl rfl rfl rfl rfl
  rw [forgetProvenance_eq h.reads.same]
  rfl

/-- One block of the order. -/
theorem Bounded.block (segments : List MonetaryCadenceSegment) (orderedDag : OrderedDagV2)
    {entry : Hash × ℕ} (hreferenced : ∀ outpoint ∈ total, outpoint ∈ referencedInputs)
    (hfree : CollisionFree state)
    (h : Bounded state total (inputsAt state entry.1 ++ future) (inputsAt state entry.1 ++ future)
      bounded naive) :
    Agree (Bounded state total future future)
      (replayBlock state segments orderedDag referencedInputs bounded entry)
      (naiveBlock state segments orderedDag naive entry) := by
  rw [replayBlock, naiveBlock]
  rw [inputsAt] at h
  split
  · rename_i hgenesis
    rw [if_pos hgenesis, nil_append] at h
    exact agree_ok h
  · rename_i hgenesis
    rw [if_neg hgenesis] at h
    refine Agree.bind (R := Eq) (agree_self fun _ _ => rfl) ?_
    rintro block _ hblock - rfl
    rw [okOr_eq_ok] at hblock
    rw [hblock] at h
    refine h.registerClaim.bind fun claimed claimed' _ _ hclaimed => ?_
    have hstored : ∀ tx ∈ block.transactions.drop 1, StoredTransaction state tx := fun tx htx =>
      ⟨entry.1, block, hblock, mem_of_mem_drop htx⟩
    refine (hclaimed.transfers hreferenced hfree hstored).bind fun next next' _ _ hnext => ?_
    exact hnext.settleMatureRewards segments orderedDag entry.2

/-- The blocks of the order, with `tail` still to come. -/
theorem Bounded.blocks (segments : List MonetaryCadenceSegment) (orderedDag : OrderedDagV2)
    {entries : List (Hash × ℕ)} {tail : List OutPoint}
    (hreferenced : ∀ outpoint ∈ total, outpoint ∈ referencedInputs) (hfree : CollisionFree state)
    (h : Bounded state total ((entries.map Prod.fst).flatMap (inputsAt state) ++ tail)
      ((entries.map Prod.fst).flatMap (inputsAt state) ++ tail) bounded naive) :
    Agree (Bounded state total tail tail)
      (entries.foldlM (replayBlock state segments orderedDag referencedInputs) bounded)
      (entries.foldlM (naiveBlock state segments orderedDag) naive) := by
  induction entries generalizing bounded naive with
  | nil => exact agree_ok h
  | cons entry rest ih =>
    rw [map_cons, flatMap_cons, append_assoc] at h
    rw [foldlM_cons, foldlM_cons]
    exact (h.block segments orderedDag hreferenced hfree).bind fun _ _ _ _ hnext => ih hnext

end

end PulseDag
