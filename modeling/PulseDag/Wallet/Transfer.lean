import PulseDag.Core.Identity
import PulseDag.Ghostdag.Reachable
import PulseDag.Ledger.Transactions

/-!
# Wallet transfers

`build_transaction_v2` picks coins of the sender, largest first, and pays the amount and the
change. The sender then attaches a public key, signs the message without signatures and computes
the transaction id again. The result is a transaction the node accepts
(`signTransactionV2_validates`).
-/

namespace PulseDag

open List

/-- `SelectedUtxo`. -/
structure SelectedUtxo where
  outpoint : OutPoint
  amount : UInt64
  deriving DecidableEq, Repr

/-- `BuildTxResponse`. -/
structure BuildTxResponse where
  transaction : Transaction
  selectedUtxos : List SelectedUtxo
  totalInput : UInt64
  change : UInt64
  signingMessage : String
  deriving DecidableEq, Repr

/-- The order of candidates: larger amounts first, then by outpoint. -/
def compareCandidates (left right : Utxo) : Ordering :=
  (compare right.amount left.amount).then
    ((compare left.outpoint.txid right.outpoint.txid).then
      (compare left.outpoint.index right.outpoint.index))

/-- The loop of `select_utxos`: take candidates until the target is reached. -/
def takeCandidates (target : UInt64) :
    List Utxo → List Utxo → UInt64 → Except PulseError (List Utxo × UInt64)
  | [], _, _ => .error .insufficientFunds
  | utxo :: rest, selected, total => do
    let total ← okOr (checkedAdd total utxo.amount)
      (.invalidTransaction "selected UTXO amount overflow")
    if target ≤ total then pure (selected ++ [utxo], total)
    else takeCandidates target rest (selected ++ [utxo]) total

/-- `select_utxos`. -/
def selectUtxos (utxos : List Utxo) (target : UInt64) : Except PulseError (List Utxo × UInt64) := do
  let candidates := utxos.insertionSort fun left right => compareCandidates left right ≠ .gt
  ensure (candidates.IsChain fun left right => left.outpoint ≠ right.outpoint)
    (.invalidTransaction "duplicate UTXO outpoint")
  takeCandidates target candidates [] 0

/-- `build_transaction_body`. -/
def buildTransactionBody (sender recipient : Address) (amount fee : UInt64)
    (availableUtxos : List Utxo) (nonce : UInt64) (version : UInt32) :
    Except PulseError (Transaction × List Utxo × UInt64 × UInt64) := do
  let target ← okOr (checkedAdd amount fee) (.invalidTransaction "amount overflow")
  let (selected, totalInput) ← selectUtxos availableUtxos target
  let change := totalInput - target
  let inputs := selected.map fun utxo => (⟨utxo.outpoint, "", ""⟩ : TxInput)
  let outputs := ⟨recipient, amount⟩ :: if 0 < change then [⟨sender, change⟩] else []
  pure (⟨"", version, inputs, outputs, fee, nonce⟩, selected, totalInput, change)

/-- `build_response`. -/
def buildResponse (transaction : Transaction) (selected : List Utxo) (totalInput change : UInt64)
    (signingMessage : List UInt8) : BuildTxResponse where
  transaction := transaction
  selectedUtxos := selected.map fun utxo => ⟨utxo.outpoint, utxo.amount⟩
  totalInput := totalInput
  change := change
  signingMessage := hexEncode signingMessage

variable [Crypto]

/-- `build_transaction_v2`. -/
def buildTransactionV2 (chainId : String) (sender recipient : Address) (amount fee : UInt64)
    (availableUtxos : List Utxo) (nonce : UInt64) : Except PulseError BuildTxResponse := do
  let (tx, selected, totalInput, change) ←
    buildTransactionBody sender recipient amount fee availableUtxos nonce transactionVersionV2
  let message ← canonicalUnsignedTransactionBytesV2 tx chainId
  let txid ← computeTxidV2 tx chainId
  pure (buildResponse { tx with txid := txid } selected totalInput change message)

/-- Attach a public key to every input. -/
def Transaction.withPublicKey (tx : Transaction) (publicKey : String) : Transaction :=
  { tx with inputs := tx.inputs.map fun input => { input with publicKey := publicKey } }

/-- Attach a signature to every input. -/
def Transaction.withSignature (tx : Transaction) (signature : String) : Transaction :=
  { tx with inputs := tx.inputs.map fun input => { input with signature := signature } }

/-- The signing steps of `sign_with_secret` and `finalize_signed_transaction`: attach the public
key, sign the message of the prepared transaction, attach the signature, compute the id again. -/
def signTransactionV2 (chainId publicKeyHex : String) (sign : List UInt8 → List UInt8)
    (tx : Transaction) : Except PulseError Transaction := do
  let prepared := tx.withPublicKey publicKeyHex
  let message ← canonicalUnsignedTransactionBytesV2 prepared chainId
  let signed := prepared.withSignature (hexEncode (sign message))
  let txid ← computeTxidV2 signed chainId
  pure { signed with txid := txid }

/-! ## Coin selection -/

variable {selected available : List Utxo} {total amount fee : UInt64} {recipient sender : Address}
  {tx : Transaction} {chainId : String} {state : ChainState}

omit [Crypto] in
/-- The loop takes a non-empty front part of the candidates that reaches the target. -/
theorem takeCandidates_spec {target : UInt64} {candidates before : List Utxo} {start : UInt64}
    (h : takeCandidates target candidates before start = .ok (selected, total)) :
    ∃ taken, taken ≠ [] ∧ taken <+: candidates ∧ selected = before ++ taken ∧
      checkedSum start (taken.map Utxo.amount) = some total ∧ target ≤ total := by
  induction candidates generalizing before start with
  | nil => cases h
  | cons utxo rest ih =>
    rw [takeCandidates, bind_eq_ok] at h
    obtain ⟨next, hnext, h⟩ := h
    rw [okOr_eq_ok] at hnext
    split at h
    next hreached =>
      obtain ⟨rfl, rfl⟩ := Prod.mk.inj (Except.ok.inj h)
      refine ⟨[utxo], by simp, prefix_append [utxo] rest, rfl, ?_, hreached⟩
      simp [checkedSum, hnext]
    next =>
      obtain ⟨taken, -, hfront, rfl, hsum, hreached⟩ := ih h
      refine ⟨utxo :: taken, by simp, ?_, by simp, ?_, hreached⟩
      · exact (prefix_cons_inj utxo).mpr hfront
      · simpa [checkedSum, hnext] using hsum

/-- A transfer of coins: what `build_transaction_body` makes of the selected coins. -/
structure Transfers (sender : Address) (amount fee : UInt64) (available : List Utxo)
    (tx : Transaction) (selected : List Utxo) (total : UInt64) : Prop where
  nonempty : selected ≠ []
  /-- The coins are available coins, each taken once. -/
  subperm : selected.Subperm available
  total_eq : total.toNat = (selected.map fun utxo => utxo.amount.toNat).sum
  version_eq : tx.version = transactionVersionV2
  inputs_eq : tx.inputs.map TxInput.previousOutput = selected.map Utxo.outpoint
  outputs_eq : ∃ recipient change, total.toNat = amount.toNat + fee.toNat + change.toNat ∧
    tx.outputs = ⟨recipient, amount⟩ :: if 0 < change then [⟨sender, change⟩] else []
  fee_eq : tx.fee = fee

omit [Crypto] in
/-- What is selected reaches the target and has the exact total. -/
theorem selectUtxos_spec {utxos : List Utxo} {target : UInt64}
    (h : selectUtxos utxos target = .ok (selected, total)) :
    selected ≠ [] ∧ selected.Subperm utxos ∧
      total.toNat = (selected.map fun utxo => utxo.amount.toNat).sum ∧ target ≤ total := by
  simp only [selectUtxos, ok_iff] at h
  obtain ⟨-, -, h⟩ := h
  obtain ⟨taken, hne, hfront, rfl, hsum, hreached⟩ := takeCandidates_spec h
  rw [checkedSum_eq_some, map_map] at hsum
  rw [UInt64.toNat_zero, Nat.zero_add] at hsum
  refine ⟨by simpa using hne, ?_, hsum, hreached⟩
  exact hfront.sublist.subperm.trans (perm_insertionSort _ utxos).subperm

omit [Crypto] in
/-- The body is a transfer. -/
theorem buildTransactionBody_spec {nonce : UInt64} {change : UInt64}
    (h : buildTransactionBody sender recipient amount fee available nonce transactionVersionV2 =
      .ok (tx, selected, total, change)) :
    Transfers sender amount fee available tx selected total := by
  simp only [buildTransactionBody, ok_iff, Prod.mk.injEq, Prod.exists] at h
  obtain ⟨target, htarget, _, _, hselect, rfl, rfl, rfl, rfl⟩ := h
  obtain ⟨hne, hsub, htotal, hreached⟩ := selectUtxos_spec hselect
  rw [checkedAdd_eq_some] at htarget
  refine ⟨hne, hsub, htotal, rfl, by simp, ⟨recipient, _, ?_, rfl⟩, rfl⟩
  rw [UInt64.toNat_sub_of_le _ _ hreached, ← htarget]
  rw [UInt64.le_iff_toNat_le] at hreached
  omega

/-- The response is a transfer. -/
theorem buildTransactionV2_spec {nonce : UInt64} {response : BuildTxResponse}
    (h : buildTransactionV2 chainId sender recipient amount fee available nonce = .ok response) :
    chainId ≠ "" ∧ ∃ selected total,
      Transfers sender amount fee available response.transaction selected total := by
  simp only [buildTransactionV2, bind_eq_ok, pure_eq_ok, Except.ok.injEq, Prod.exists] at h
  obtain ⟨tx, selected, total, change, hbody, message, hmessage, txid, -, rfl⟩ := h
  simp only [canonicalUnsignedTransactionBytesV2, validateV2Domain, bind_eq_ok,
    ensure_eq_ok] at hmessage
  obtain ⟨_, ⟨-, -, hchain⟩, -⟩ := hmessage
  have hspec := buildTransactionBody_spec hbody
  exact ⟨hchain, selected, total, hspec.nonempty, hspec.subperm, hspec.total_eq, hspec.version_eq,
    hspec.inputs_eq, hspec.outputs_eq, hspec.fee_eq⟩

/-! ## Signing -/

omit [Crypto] in
/-- The signed message does not depend on signatures or on the stored id. -/
theorem canonicalUnsignedTransactionBytesV2_withSignature (tx : Transaction)
    (chainId signature : String) (txid : Hash) :
    canonicalUnsignedTransactionBytesV2 { tx.withSignature signature with txid := txid } chainId =
      canonicalUnsignedTransactionBytesV2 tx chainId := by
  have hinputs : (tx.withSignature signature).inputs.flatMap unsignedTxInputBytes =
      tx.inputs.flatMap unsignedTxInputBytes := by
    rw [Transaction.withSignature, flatMap_map]
    rfl
  have hbody : transactionBodyBytes unsignedTxInputBytes
      { tx.withSignature signature with txid := txid } =
        transactionBodyBytes unsignedTxInputBytes tx := by
    simp only [transactionBodyBytes, hinputs]
    simp [Transaction.withSignature]
  rw [canonicalUnsignedTransactionBytesV2, canonicalUnsignedTransactionBytesV2, hbody]
  rfl

omit [Crypto] in
/-- A version 2 transaction on a chain. -/
theorem validateV2Domain_ok (hversion : tx.version = transactionVersionV2) (hchain : chainId ≠ "") :
    validateV2Domain tx chainId = .ok () := by
  rw [validateV2Domain, ensure_pos hversion, ok_bind, ensure_pos hchain]

/-- What signing makes of a transaction of version 2. -/
theorem signTransactionV2_eq {chainId publicKeyHex : String} {sign : List UInt8 → List UInt8}
    {tx : Transaction} (hversion : tx.version = transactionVersionV2) (hchain : chainId ≠ "") :
    ∃ signed message, signTransactionV2 chainId publicKeyHex sign tx = .ok signed ∧
      canonicalUnsignedTransactionBytesV2 signed chainId = .ok message ∧
      computeTxidV2 signed chainId = .ok signed.txid ∧
      signed.inputs = tx.inputs.map (fun input =>
        ⟨input.previousOutput, publicKeyHex, hexEncode (sign message)⟩) ∧
      signed.outputs = tx.outputs ∧ signed.fee = tx.fee := by
  have hprepared : validateV2Domain (tx.withPublicKey publicKeyHex) chainId = .ok () :=
    validateV2Domain_ok hversion hchain
  have hsigned : ∀ signature, validateV2Domain
      ((tx.withPublicKey publicKeyHex).withSignature signature) chainId = .ok () := fun _ =>
    validateV2Domain_ok hversion hchain
  obtain ⟨message, hmessage⟩ : ∃ message, canonicalUnsignedTransactionBytesV2
      (tx.withPublicKey publicKeyHex) chainId = .ok message := by
    rw [canonicalUnsignedTransactionBytesV2, hprepared, ok_bind, pure_eq_ok]
    exact ⟨_, rfl⟩
  obtain ⟨txid, htxid⟩ : ∃ txid, computeTxidV2
      ((tx.withPublicKey publicKeyHex).withSignature (hexEncode (sign message))) chainId =
        .ok txid := by
    rw [computeTxidV2, canonicalTransactionBytesV2, hsigned, ok_bind, pure_eq_ok, ok_bind,
      pure_eq_ok]
    exact ⟨_, rfl⟩
  refine ⟨{ (tx.withPublicKey publicKeyHex).withSignature (hexEncode (sign message)) with
    txid := txid }, message, ?_, ?_, htxid, ?_, rfl, rfl⟩
  · rw [signTransactionV2]
    dsimp only
    rw [hmessage, ok_bind, htxid, ok_bind, pure_eq_ok]
  · rw [canonicalUnsignedTransactionBytesV2_withSignature, hmessage]
  · simp [Transaction.withSignature, Transaction.withPublicKey]

/-! ## Validation -/

omit [Crypto] in
/-- Unspent coins of the state add up to their sum. -/
theorem totalInput_of_coins {inputs : List TxInput} {coins : List Utxo} {start : UInt64}
    (hinputs : inputs.map TxInput.previousOutput = coins.map Utxo.outpoint)
    (hcoins : ∀ coin ∈ coins, state.utxo.utxos[coin.outpoint]? = some coin ∧
      coin.outpoint ∉ state.mempool.spentOutpoints)
    (hsum : checkedSum start (coins.map Utxo.amount) = some total) :
    totalInput state inputs start = .ok total := by
  induction coins generalizing inputs start with
  | nil =>
    obtain rfl := map_eq_nil_iff.mp hinputs
    obtain rfl := Option.some.inj hsum
    rfl
  | cons coin rest ih =>
    obtain ⟨input, others, rfl, hinput, hothers⟩ := map_eq_cons_iff.mp hinputs
    obtain ⟨⟨hcoin, hunspent⟩, hrest⟩ := forall_mem_cons.mp hcoins
    have hnext : (checkedAdd start coin.amount).bind
        (fun next => checkedSum next (rest.map Utxo.amount)) = some total := hsum
    obtain ⟨next, hnext, hsum⟩ := Option.bind_eq_some_iff.mp hnext
    have hamount : txOutputAmount state coin.outpoint = some coin.amount := by
      rw [txOutputAmount, hcoin]
    rw [totalInput, hinput, hamount, okOr_some, ok_bind, ensure_pos hunspent, ok_bind, hnext,
      okOr_some, ok_bind]
    exact ih hothers hrest hsum

omit [Crypto] in
/-- Inputs are outputs and fee. -/
theorem Transfers.outputs_sum (h : Transfers sender amount fee available tx selected total) :
    total.toNat = (tx.outputs.map fun output => output.amount.toNat).sum + tx.fee.toNat := by
  obtain ⟨recipient, change, htotal, houtputs⟩ := h.outputs_eq
  rw [houtputs, h.fee_eq]
  split
  next => simp; omega
  next hchange =>
    have hzero : change.toNat = 0 := by
      rw [UInt64.lt_iff_toNat_lt, UInt64.toNat_zero] at hchange
      omega
    simp
    omega

omit [Crypto] in
/-- No output is zero. -/
theorem Transfers.outputs_ne_zero (h : Transfers sender amount fee available tx selected total)
    (hamount : amount ≠ 0) : ∀ output ∈ tx.outputs, output.amount ≠ 0 := by
  obtain ⟨recipient, change, -, houtputs⟩ := h.outputs_eq
  rw [houtputs, forall_mem_cons]
  refine ⟨hamount, fun output houtput => ?_⟩
  split at houtput
  next hchange =>
    rw [mem_singleton.mp houtput]
    exact (UInt64.pos_iff_ne_zero).mp hchange
  next => cases houtput

/-- A coin owned by the signer is signed for. -/
theorem verifyInputSignature_ok {coin : Utxo} {message : List UInt8} {input : TxInput}
    {publicKey signature : List UInt8} (hinput : input.previousOutput = coin.outpoint)
    (hcoin : state.utxo.utxos[coin.outpoint]? = some coin)
    (howner : addressFromPublicKey input.publicKey = coin.address)
    (hkey : hexDecode input.publicKey = some publicKey) (hkeyLength : publicKey.length = 32)
    (hsignature : hexDecode input.signature = some signature) (hlength : signature.length = 64)
    (hverify : Crypto.ed25519Verify publicKey message signature = true) :
    verifyInputSignature state message input = .ok () := by
  have haddress : referencedOutputAddress state coin.outpoint = some coin.address := by
    rw [referencedOutputAddress, hcoin]
  rw [verifyInputSignature, hinput, haddress, okOr_some, ok_bind, ensure_pos howner, ok_bind, hkey,
    okOr_some, ok_bind, hsignature, okOr_some, ok_bind, ensure_pos hkeyLength, ok_bind,
    ensure_pos hlength, ok_bind, ensure_pos hverify]

/-- The checks of `validate_transaction_v2` on a balanced transaction. -/
theorem validateTransactionV2_of_balanced {state : ChainState} {chainId : String} {tx : Transaction}
    {total : UInt64} (houtputs : tx.outputs ≠ []) (hinputs : tx.inputs ≠ [])
    (hamounts : ∀ output ∈ tx.outputs, output.amount ≠ 0)
    (hnodup : (tx.inputs.map TxInput.previousOutput).Nodup)
    (htxid : computeTxidV2 tx chainId = .ok tx.txid)
    (htotal : totalInput state tx.inputs 0 = .ok total)
    (hbalance : total.toNat = (tx.outputs.map fun output => output.amount.toNat).sum + tx.fee.toNat)
    (hsignatures : verifyTransactionSignaturesV2 tx state chainId = .ok ()) :
    validateTransactionV2 tx state chainId =
      if transactionIsConfirmed tx.txid state = true then .error .txAlreadyExists else .ok () := by
  obtain ⟨outputs, hsum, hrequired⟩ : ∃ outputs,
      checkedSum 0 (tx.outputs.map TxOutput.amount) = some outputs ∧
        checkedAdd outputs tx.fee = some total := by
    have hlt := total.toNat_lt
    obtain ⟨outputs, -, hnat⟩ := @exists_u64TryFrom
      (tx.outputs.map fun output => output.amount.toNat).sum (by omega)
    refine ⟨outputs, ?_, checkedAdd_eq_some.mpr (by rw [hnat, hbalance])⟩
    rw [checkedSum_eq_some, UInt64.toNat_zero, Nat.zero_add, map_map, hnat]
    rfl
  rw [validateTransactionV2, validateTransactionWith, ensure_pos houtputs, ok_bind,
    ensure_pos hinputs, ok_bind, ensure_pos hamounts, ok_bind, ensure_pos hnodup, ok_bind, htxid,
    ok_bind, ensure_pos rfl, ok_bind]
  by_cases hconfirmed : transactionIsConfirmed tx.txid state = true
  · rw [if_pos hconfirmed, ensure_neg (by rw [hconfirmed]; decide), error_bind]
  · rw [if_neg hconfirmed, ensure_pos (Bool.not_eq_true _ ▸ hconfirmed), ok_bind, htotal, ok_bind,
      hsum, okOr_some, ok_bind, hrequired, okOr_some, ok_bind, ensure_pos (UInt64.le_refl total),
      ok_bind, hsignatures]

/-- A transfer that the wallet built from coins of the sender and that the sender signed passes the
checks of the node, unless its id is confirmed already, and its inputs are its outputs and its fee.
The mempool records what its transactions spend in `spentOutpoints`; `sign` is a signer whose
signatures verify under the sender's public key. -/
theorem signTransactionV2_validates (state : ChainState) (chainId : String)
    (sender recipient : Address) (amount fee nonce : UInt64) (available : List Utxo)
    (response : BuildTxResponse) (publicKeyHex : String) (publicKey : List UInt8)
    (sign : List UInt8 → List UInt8)
    (hbuild : buildTransactionV2 chainId sender recipient amount fee available nonce = .ok response)
    (hamount : amount ≠ 0) (hdistinct : (available.map Utxo.outpoint).Nodup)
    (hcoins : ∀ coin ∈ available, state.utxo.utxos[coin.outpoint]? = some coin ∧
      coin.address = sender ∧ coin.outpoint ∉ state.mempool.spentOutpoints)
    (haddress : addressFromPublicKey publicKeyHex = sender)
    (hkey : hexDecode publicKeyHex = some publicKey) (hkeyLength : publicKey.length = 32)
    (hsign : ∀ message, (sign message).length = 64 ∧
      Crypto.ed25519Verify publicKey message (sign message) = true) :
    ∃ signed total, signTransactionV2 chainId publicKeyHex sign response.transaction = .ok signed ∧
      validateTransactionV2 signed state chainId =
        (if transactionIsConfirmed signed.txid state = true then .error .txAlreadyExists else .ok
          ()) ∧
      totalInput state signed.inputs 0 = .ok total ∧
      total.toNat = (signed.outputs.map fun output => output.amount.toNat).sum +
      signed.fee.toNat := by
  obtain ⟨hchain, selected, total, htransfer⟩ := buildTransactionV2_spec hbuild
  obtain ⟨signed, message, hsigned, hmessage, htxid, hinputs, houtputs, hfee⟩ :=
    @signTransactionV2_eq _ chainId publicKeyHex sign response.transaction htransfer.version_eq
      hchain
  have hprevious : signed.inputs.map TxInput.previousOutput = selected.map Utxo.outpoint := by
    rw [hinputs, map_map, ← htransfer.inputs_eq]
    rfl
  have hselected : ∀ coin ∈ selected, state.utxo.utxos[coin.outpoint]? = some coin ∧
      coin.address = sender ∧ coin.outpoint ∉ state.mempool.spentOutpoints := fun coin hcoin =>
    hcoins coin (htransfer.subperm.subset hcoin)
  have hsum : checkedSum 0 (selected.map Utxo.amount) = some total := by
    rw [checkedSum_eq_some, UInt64.toNat_zero, Nat.zero_add, map_map, htransfer.total_eq]
    rfl
  have htotal : totalInput state signed.inputs 0 = .ok total :=
    totalInput_of_coins hprevious (fun coin hcoin => ⟨(hselected coin hcoin).1,
      (hselected coin hcoin).2.2⟩) hsum
  have hbalance : total.toNat =
      (signed.outputs.map fun output => output.amount.toNat).sum + signed.fee.toNat := by
    rw [houtputs, hfee, htransfer.outputs_sum]
  refine ⟨signed, total, hsigned, ?_, htotal, hbalance⟩
  refine validateTransactionV2_of_balanced ?_ ?_ ?_ ?_ htxid htotal hbalance ?_
  · obtain ⟨recipient, change, -, hlist⟩ := htransfer.outputs_eq
    rw [houtputs, hlist]
    exact cons_ne_nil _ _
  · intro hnil
    rw [hnil, map_nil, eq_comm, map_eq_nil_iff] at hprevious
    exact htransfer.nonempty hprevious
  · rw [houtputs]
    exact htransfer.outputs_ne_zero hamount
  · obtain ⟨taken, hperm, hsub⟩ := htransfer.subperm
    rw [hprevious, ← (hperm.map Utxo.outpoint).nodup_iff]
    exact (hsub.map Utxo.outpoint).nodup hdistinct
  · rw [verifyTransactionSignaturesV2, hmessage, ok_bind, verifyTransactionSignaturesWithMessage,
      forM_eq_ok]
    intro input hinput
    have hmem := mem_map_of_mem (f := TxInput.previousOutput) hinput
    rw [hprevious] at hmem
    obtain ⟨coin, hcoin, hprev⟩ := mem_map.mp hmem
    obtain ⟨hstored, howner, -⟩ := hselected coin hcoin
    rw [hinputs] at hinput
    obtain ⟨unsigned, -, rfl⟩ := mem_map.mp hinput
    exact verifyInputSignature_ok hprev.symm hstored (haddress.trans howner.symm) hkey hkeyLength
      (hexDecode_hexEncode _) (hsign message).1 (hsign message).2

omit [Crypto] in
/-- A payment of eleven atoms and a fee of one from coins of ten and of four. -/
theorem signTransactionV2_validates_payment : letI := checksumCrypto
    ∃ state response signed,
      buildTransactionV2 "c" (addressFromPublicKey (hexEncode (List.replicate 32 7))) "bob" 11 1
        (state.utxo.utxos.toList.map Prod.snd) 0 = .ok response ∧
      response.selectedUtxos.map SelectedUtxo.amount = [10, 4] ∧ response.change = 2 ∧
      signTransactionV2 "c" (hexEncode (List.replicate 32 7)) (fun _ => List.replicate 64 9)
        response.transaction = .ok signed ∧ validateTransactionV2 signed state "c" = .ok () := by
  let := checksumCrypto
  let sender := addressFromPublicKey (hexEncode (List.replicate 32 7))
  let coin (index : UInt32) (amount : UInt64) : Utxo := ⟨⟨"a", index⟩, sender, amount, false, 0⟩
  let coins := [coin 0 4, coin 1 10]
  let sign : List UInt8 → List UInt8 := fun _ => List.replicate 64 9
  let funded (state : ChainState) : ChainState :=
    { state with utxo := ⟨coins.foldl (fun utxos coin => utxos.insert coin.outpoint coin) ∅, ∅⟩ }
  have hrun : ((initChainStateV3 "c" 1).toOption.bind fun s0 =>
      (buildTransactionV2 "c" sender "bob" 11 1 coins 0).toOption.bind fun response =>
        (signTransactionV2 "c" (hexEncode (List.replicate 32 7)) sign
          response.transaction).toOption.map fun signed =>
          (transactionIsConfirmed signed.txid (funded s0),
            response.selectedUtxos.map SelectedUtxo.amount, response.change,
            decide (∀ coin ∈ coins, (funded s0).utxo.utxos[coin.outpoint]? = some coin ∧
              coin.address = sender ∧ coin.outpoint ∉ (funded s0).mempool.spentOutpoints),
            decide ((funded s0).utxo.utxos.toList.map Prod.snd = coins))) =
      some (false, [10, 4], 2, true, true) := by
    decide +kernel
  simp only [Option.bind_eq_some_iff, Option.map_eq_some_iff, Prod.mk.injEq,
    decide_eq_true_eq] at hrun
  obtain ⟨s0, -, response, hbuild, signed, hsigned, hfresh, hselected, hchange, hcoins, hlist⟩ :=
    hrun
  obtain ⟨signed', total, hsigned', hvalid, -⟩ := signTransactionV2_validates (funded s0) "c" sender
    "bob" 11 1 0 coins response _ _ sign (eq_ok_of_toOption hbuild) (by decide)
      (by simp [coins, coin])
    hcoins rfl (hexDecode_hexEncode _) (by simp) (fun _ => ⟨length_replicate, rfl⟩)
  obtain rfl := Except.ok.inj ((eq_ok_of_toOption hsigned).symm.trans hsigned')
  rw [hfresh] at hvalid
  refine ⟨funded s0, response, signed, ?_, hselected, hchange, hsigned', hvalid⟩
  rw [hlist]
  exact eq_ok_of_toOption hbuild

end PulseDag
