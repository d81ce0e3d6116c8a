import PulseDag.Mempool.Reconcile
import PulseDag.Network.Context

/-!
# Accepting a block from the network

`network_block_v2.rs` and `mutate_chain_state_serialized` of `accept.rs`. A block that closes the
authoritative order is validated against the live state, committed, materialized, persisted,
published and broadcast. The callbacks of the source are modelled by the results they give, in the
order in which they are called.
-/

namespace PulseDag

/-- `invalid_network_block`. -/
def invalidNetworkBlock (message : String) : PulseError :=
  .invalidBlock ("activated-v2 p2p block acceptance: " ++ message)

/-- The height that the parents ask for and the newest of their timestamps. -/
def networkParentBounds (state : ChainState) :
    List Hash → UInt64 → UInt64 → Except PulseError (UInt64 × UInt64)
  | [], expectedHeight, newestParentTimestamp => .ok (expectedHeight, newestParentTimestamp)
  | parent :: rest, expectedHeight, newestParentTimestamp => do
    let parentBlock ← okOr state.dag.blocks[parent]?
      (invalidNetworkBlock ("missing parent " ++ parent))
    networkParentBounds state rest
      (max expectedHeight (saturatingAdd parentBlock.header.height 1))
      (max newestParentTimestamp parentBlock.header.timestamp)

/-- The shape that `validate_network_block_staging_envelope` asks of a transaction that is not a
coinbase. -/
def checkTransferShape (transaction : Transaction) : Except PulseError Unit :=
  if isCoinbase transaction then .ok ()
  else do
    ensure (transaction.outputs ≠ []) (.invalidTransaction "no outputs")
    ensure (transaction.inputs ≠ []) (.invalidTransaction "no inputs")
    ensure (∀ output ∈ transaction.outputs, output.amount ≠ 0)
      (.invalidTransaction "zero-value output")
    ensure ((transaction.inputs.map TxInput.previousOutput).Nodup)
      (.invalidTransaction "duplicate input")

section

variable [Crypto]

/-- The loop of `validate_network_block_staging_envelope` over the transactions. -/
def checkNetworkTransactions (chainId : String) :
    List Transaction → TreeSet Hash → Except PulseError Unit
  | [], _ => .ok ()
  | transaction :: rest, seenTxids => do
    ensure (transaction.txid ∉ seenTxids)
      (invalidNetworkBlock "block contains a duplicate transaction")
    ensure (transaction.version = transactionVersionV2) (.invalidTransaction
      (s!"network block transaction {transaction.txid} uses version {transaction.version}, " ++
        s!"expected {transactionVersionV2}"))
    let computed ← computeTxidV2 transaction chainId
    ensure (computed = transaction.txid) .invalidTxid
    checkTransferShape transaction
    checkNetworkTransactions chainId rest (seenTxids.insert transaction.txid)

/-- `validate_network_block_staging_envelope`. -/
def validateNetworkBlockStagingEnvelope (clock : Clock) (block : Block) (state : ChainState)
    (identity : ProtocolActivationIdentity) : Except PulseError Unit := do
  let path ← resolvePowValidationPath identity state
  ensure (path = .activatedV2)
    (invalidNetworkBlock "requires the activated_v2 protocol identity")
  ensure (block.hash ∉ state.dag.blocks) .blockAlreadyExists
  ensure (block.header.version = blockHeaderVersionV2) (invalidNetworkBlock
    s!"requires block header version {blockHeaderVersionV2}, got {block.header.version}")
  validateBlockHeaderV2Shape block.header identity.chainId
  ensure (block.header.parents ≠ [])
    (invalidNetworkBlock "non-genesis network block must contain at least one parent")
  let computedHash ← computeBlockHashV2 block.header identity.chainId
  ensure (computedHash = block.hash) (invalidNetworkBlock
    s!"block hash mismatch: supplied {block.hash}, computed {computedHash}")
  let bounds ← networkParentBounds state block.header.parents 0 0
  ensure (block.header.height = bounds.1) (invalidNetworkBlock
    s!"height {block.header.height} does not match derived {bounds.1}")
  ensure (block.header.timestamp ≠ 0 ∧ bounds.2 ≤ block.header.timestamp) (invalidNetworkBlock
    s!"timestamp {block.header.timestamp} is older than newest parent {bounds.2}")
  ensure (block.header.timestamp ≤ saturatingAdd clock.now clock.maxFuture) (invalidNetworkBlock
    s!"timestamp too far in the future: {block.header.timestamp} > {clock.now} + {clock.maxFuture}")
  let classification ← Except.mapError (fun error => invalidNetworkBlock
    ("ghostdag_v1 classification failed: " ++ error.debug)) (classifyMergeSetV1 block state)
  ensure (block.header.blueScore = classification.blueScore) (invalidNetworkBlock
    s!"blue score {block.header.blueScore} does not match derived {classification.blueScore}")
  let selectedParent ← okOr classification.selectedParent
    (invalidNetworkBlock "ghostdag_v1 classification produced no selected parent")
  let expectedDifficulty ← okOr (expectedDifficultyForParent state selectedParent)
    (invalidNetworkBlock
      s!"difficulty context unavailable for selected parent {selectedParent}")
  ensure (block.header.difficulty = expectedDifficulty) (invalidNetworkBlock
    (s!"difficulty {block.header.difficulty} does not match selected-parent derived " ++
      s!"{expectedDifficulty}"))
  let coinbase ← okOr block.transactions.head? .missingCoinbase
  ensure (isCoinbase coinbase = true) .coinbaseNotFirst
  ensure (∀ tx ∈ block.transactions.drop 1, isCoinbase tx = false) .multipleCoinbase
  checkNetworkTransactions identity.chainId block.transactions ∅
  ensure (computeMerkleRoot block.transactions = block.header.merkleRoot)
    (invalidNetworkBlock "merkle root mismatch")
  validateCoinbaseReward block
  validatePowForProtocol block.header state identity

end

end PulseDag
