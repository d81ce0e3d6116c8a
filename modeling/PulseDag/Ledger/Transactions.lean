import PulseDag.Core.Genesis

/-!
# Transactions

`tx.rs`, `validation_v2.rs`, `tx_protocol.rs` and the transaction part of `validation.rs`:
signatures, amounts and the checks that a transaction passes before it is applied.
-/

namespace PulseDag

/-- `TransactionValidationPath`. -/
inductive TransactionValidationPath
  | legacyV1
  | activatedV2
  deriving DecidableEq, Repr

/-- `transaction_output_sum`. -/
def transactionOutputSum (tx : Transaction) : Except PulseError UInt64 :=
  okOr (checkedSum 0 (tx.outputs.map TxOutput.amount)) .rewardOverflow

/-- `total_block_fees`. -/
def totalBlockFees (block : Block) : Except PulseError UInt64 :=
  okOr (checkedSum 0 ((block.transactions.filter fun tx => !isCoinbase tx).map Transaction.fee))
    .rewardOverflow

/-- `INITIAL_BLOCK_SUBSIDY`. -/
def initialBlockSubsidy : UInt64 := 50

/-- `SUBSIDY_HALVING_INTERVAL`. -/
def subsidyHalvingInterval : UInt64 := 210000

/-- `block_subsidy`. -/
def blockSubsidy (height : UInt64) : UInt64 :=
  let halvings := height / subsidyHalvingInterval
  if 64 ≤ halvings then 0 else initialBlockSubsidy >>> halvings

/-- `validate_coinbase_reward`. -/
def validateCoinbaseReward (block : Block) : Except PulseError Unit := do
  let coinbase ← okOr block.transactions.head? .missingCoinbase
  let coinbaseOutputs ← transactionOutputSum coinbase
  let fees ← totalBlockFees block
  let maxReward ← okOr (checkedAdd (blockSubsidy block.header.height) fees) .rewardOverflow
  ensure (coinbaseOutputs ≤ maxReward) .excessiveCoinbaseReward

/-- The outpoint of an output of a transaction; `index as u32` wraps. -/
def outpointAt (txid : Hash) (index : ℕ) : OutPoint := ⟨txid, UInt32.ofNat index⟩

/-- The outpoints that the outputs of a transaction create. -/
def outpointsOf (tx : Transaction) : List OutPoint :=
  (List.range tx.outputs.length).map (outpointAt tx.txid)

/-- The loop of `validate_created_utxo_outpoints` over the outpoints of a block. -/
def checkCreatedOutpoints (utxos : TreeMap OutPoint Utxo) :
    List OutPoint → TreeSet OutPoint → Except PulseError Unit
  | [], _ => .ok ()
  | outpoint :: rest, created => do
    ensure (outpoint ∉ utxos ∧ outpoint ∉ created)
      (.duplicateUtxoOutpoint (outpointLabel outpoint))
    checkCreatedOutpoints utxos rest (created.insert outpoint)

/-- `validate_created_utxo_outpoints`. -/
def validateCreatedUtxoOutpoints (block : Block) (state : ChainState) : Except PulseError Unit :=
  checkCreatedOutpoints state.utxo.utxos (block.transactions.flatMap outpointsOf) ∅

/-- The output of a pooled transaction that an outpoint names. -/
def pooledOutput (state : ChainState) (outpoint : OutPoint) : Option TxOutput := do
  let tx ← state.mempool.transactions[outpoint.txid]?
  tx.outputs[outpoint.index.toNat]?

/-- `tx_output_amount`. -/
def txOutputAmount (state : ChainState) (outpoint : OutPoint) : Option UInt64 :=
  match state.utxo.utxos[outpoint]? with
  | some utxo => some utxo.amount
  | none => (pooledOutput state outpoint).map TxOutput.amount

/-- `referenced_output_address`. -/
def referencedOutputAddress (state : ChainState) (outpoint : OutPoint) : Option Address :=
  match state.utxo.utxos[outpoint]? with
  | some utxo => some utxo.address
  | none => (pooledOutput state outpoint).map TxOutput.address

/-- `ConsensusMode::ghostdag_metadata_active`. -/
def ConsensusMode.ghostdagMetadataActive : ConsensusMode → Bool
  | .legacy => false
  | .ghostdagDev => true

/-- `ordered_block_skipped_transaction`. -/
def orderedBlockSkippedTransaction (txid blockHash : Hash) (state : ChainState) : Bool :=
  let marker := s!" block={blockHash} tx={txid} skipped_conflict"
  state.dag.orderedDagConflictDiagnostics.any fun entry => marker.toList <:+: entry.toList

/-- `transaction_is_confirmed`. -/
def transactionIsConfirmed (txid : Hash) (state : ChainState) : Bool :=
  let orderedReplay := state.dag.consensusMode.ghostdagMetadataActive ||
    state.dag.orderingVersion == ghostdagV1OrderingVersion
  let canonicalOrder := if orderedReplay then state.dag.orderedDag else state.dag.selectedChain
  (canonicalOrder.filterMap fun hash => state.dag.blocks[hash]?).any fun block =>
    block.transactions.any (fun confirmed => confirmed.txid == txid) &&
      (!orderedReplay || !orderedBlockSkippedTransaction txid block.hash state)

section

variable [Crypto]

/-- The loop body of `verify_transaction_signatures_with_message`. -/
def verifyInputSignature (state : ChainState) (message : List UInt8) (input : TxInput) :
    Except PulseError Unit := do
  let expectedAddress ← okOr (referencedOutputAddress state input.previousOutput) .utxoNotFound
  ensure (addressFromPublicKey input.publicKey = expectedAddress) .invalidSignature
  let publicKey ← okOr (hexDecode input.publicKey) .invalidSignature
  let signature ← okOr (hexDecode input.signature) .invalidSignature
  ensure (publicKey.length = 32) .invalidSignature
  ensure (signature.length = 64) .invalidSignature
  ensure (Crypto.ed25519Verify publicKey message signature = true) .invalidSignature

/-- `verify_transaction_signatures_with_message`. -/
def verifyTransactionSignaturesWithMessage (tx : Transaction) (state : ChainState)
    (message : List UInt8) : Except PulseError Unit :=
  tx.inputs.forM (verifyInputSignature state message)

/-- `validate_transaction_version_v1`. -/
def validateTransactionVersionV1 (tx : Transaction) : Except PulseError Unit :=
  ensure (tx.version = transactionVersionV1) (.invalidTransaction
    s!"legacy transaction validation requires version {transactionVersionV1}, got {tx.version}")

/-- `verify_transaction_signatures`. -/
def verifyTransactionSignatures (tx : Transaction) (state : ChainState) :
    Except PulseError Unit := do
  validateTransactionVersionV1 tx
  verifyTransactionSignaturesWithMessage tx state (canonicalUnsignedTransactionBytes tx)

/-- `verify_transaction_signatures_v2`. -/
def verifyTransactionSignaturesV2 (tx : Transaction) (state : ChainState) (chainId : String) :
    Except PulseError Unit := do
  let message ← canonicalUnsignedTransactionBytesV2 tx chainId
  verifyTransactionSignaturesWithMessage tx state message

/-- The loop that adds up the inputs of a transaction. -/
def totalInput (state : ChainState) : List TxInput → UInt64 → Except PulseError UInt64
  | [], total => .ok total
  | input :: rest, total => do
    let amount ← okOr (txOutputAmount state input.previousOutput) .utxoNotFound
    ensure (input.previousOutput ∉ state.mempool.spentOutpoints) .doubleSpend
    let next ← okOr (checkedAdd total amount) (.invalidTransaction "input overflow")
    totalInput state rest next

/-- The checks that `validate_transaction` and `validate_transaction_v2` share; they differ
in the transaction id and in the signature domain. -/
def validateTransactionWith (txid : Except PulseError Hash) (signatures : Except PulseError Unit)
    (tx : Transaction) (state : ChainState) : Except PulseError Unit := do
  ensure (tx.outputs ≠ []) (.invalidTransaction "no outputs")
  ensure (tx.inputs ≠ []) (.invalidTransaction "no inputs")
  ensure (∀ output ∈ tx.outputs, output.amount ≠ 0) (.invalidTransaction "zero-value output")
  ensure ((tx.inputs.map TxInput.previousOutput).Nodup) (.invalidTransaction "duplicate input")
  let computed ← txid
  ensure (computed = tx.txid) .invalidTxid
  ensure (transactionIsConfirmed tx.txid state = false) .txAlreadyExists
  let inputs ← totalInput state tx.inputs 0
  let outputs ← okOr (checkedSum 0 (tx.outputs.map TxOutput.amount))
    (.invalidTransaction "output overflow")
  let required ← okOr (checkedAdd outputs tx.fee) (.invalidTransaction "output overflow")
  ensure (required ≤ inputs) .insufficientFunds
  signatures

/-- `validate_transaction`. -/
def validateTransaction (tx : Transaction) (state : ChainState) : Except PulseError Unit :=
  validateTransactionWith (.ok (computeTxid tx)) (verifyTransactionSignatures tx state) tx state

/-- `validate_transaction_v2`. -/
def validateTransactionV2 (tx : Transaction) (state : ChainState) (chainId : String) :
    Except PulseError Unit :=
  validateTransactionWith (computeTxidV2 tx chainId)
    (verifyTransactionSignaturesV2 tx state chainId) tx state

/-- `tx_protocol::invalid_identity`. -/
def invalidTransactionIdentity (message : String) : PulseError :=
  .invalidTransaction ("invalid protocol activation identity: " ++ message)

/-- `resolve_transaction_validation_path`. -/
def resolveTransactionValidationPath (identity : ProtocolActivationIdentity)
    (state : ChainState) : Except PulseError TransactionValidationPath := do
  Except.mapError invalidTransactionIdentity identity.validate
  ensure (identity.chainId = state.chainId) .chainIdMismatch
  ensure (identity.genesisHash = state.dag.genesisHash)
    (invalidTransactionIdentity "genesis hash does not match chain state")
  if identity.transactionProtocolVersion = transactionVersionV1 ∧
      identity.blockHeaderProtocolVersion = blockHeaderVersionV1 ∧
      (identity.consensusMode = .legacy ∨ identity.consensusMode = .ghostdagDev) then
    pure .legacyV1
  else if identity.transactionProtocolVersion = transactionVersionV2 ∧
      identity.blockHeaderProtocolVersion = blockHeaderVersionV2 ∧
      identity.consensusMode = .ghostdagV1 then
    pure .activatedV2
  else
    .error (invalidTransactionIdentity
      "mixed or unsupported transaction/header/consensus version tuple")

/-- `validate_transaction_for_protocol`. -/
def validateTransactionForProtocol (tx : Transaction) (state : ChainState)
    (identity : ProtocolActivationIdentity) : Except PulseError Unit := do
  let path ← resolveTransactionValidationPath identity state
  ensure (tx.version = identity.transactionProtocolVersion) (.invalidTransaction
    (s!"protocol identity requires transaction version {identity.transactionProtocolVersion}, " ++
      s!"got {tx.version}"))
  match path with
  | .legacyV1 => validateTransaction tx state
  | .activatedV2 => validateTransactionV2 tx state identity.chainId

end

end PulseDag
