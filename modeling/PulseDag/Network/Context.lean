import PulseDag.Ghostdag.Commit
import PulseDag.Ledger.ReplayV2
import PulseDag.Network.Pow

/-!
# Validating a block in its own past

`network_context_v2.rs`. A block from the network is judged against the DAG of its own
ancestors: the receiver's state is cut down to them, the block is committed there, its
transactions are validated on the ledger before it, and the ledger after it must have the
state root that the header commits to.
-/

namespace PulseDag

/-- What the code asks its environment: `current_ts` and `dev_max_future_drift_secs`. -/
structure Clock where
  now : UInt64
  maxFuture : UInt64

/-- `ActivatedV2P2pContextDisposition`. -/
inductive ActivatedV2P2pContextDisposition
  | immediatelyFinalizable
  | deferredSideTip
  deriving DecidableEq, Repr

/-- `ActivatedV2P2pContextValidation`. -/
structure ActivatedV2P2pContextValidation where
  blockHash : Hash
  disposition : ActivatedV2P2pContextDisposition
  selectedParent : Hash
  orderedDagDigest : String
  stateRoot : String
  deriving DecidableEq, Repr

/-- `invalid_context_block`. -/
def invalidContextBlock (message : String) : PulseError :=
  .invalidBlock ("activated-v2 p2p context validation: " ++ message)

/-- `candidate_past_hashes`. -/
def candidatePastHashes (block : Block) (state : ChainState) :
    Except PulseError (TreeSet Hash) := do
  let limits : GhostdagV1Limits := {}
  let result ← traverse state.parentsOf (fun _ => false) limits.maxAncestorVisits
    (invalidContextBlock
      s!"candidate past exceeds bounded ancestor visit limit {limits.maxAncestorVisits}")
    (fun hash => invalidContextBlock ("missing parent " ++ hash))
    (limits.maxAncestorVisits + 1)
    (Std.ExtTreeSet.ofList block.header.parents compare) ∅ 0
  ensure (state.dag.genesisHash ∈ result.2.1) (invalidContextBlock
    "candidate past does not close over the configured genesis")
  pure result.2.1

/-- The check of `candidate_past_projection` that a merge set stays within the past. -/
def checkMergeSetInPast (past : TreeSet Hash) (entry : Hash × List Hash) :
    Except PulseError Unit :=
  match entry.2.find? fun hash => hash ∉ past with
  | some outside => .error (invalidContextBlock
      ("past metadata for anchor " ++ entry.1 ++ " references non-past block " ++ outside))
  | none => .ok ()

/-- The check of `candidate_past_projection` that a selected parent stays within the past. -/
def checkSelectedParentInPast (past : TreeSet Hash) (entry : Hash × Option Hash) :
    Except PulseError Unit :=
  ensure (∀ parent, entry.2 = some parent → parent ∈ past) (invalidContextBlock
    ("past selected-parent metadata for " ++ entry.1 ++ " escapes candidate past"))

/-- Relink one block of the past: its height, its parents' children and the tips. -/
def relinkBlock (past : TreeSet Hash) (dag : DagState) (accepted : Block) :
    Except PulseError DagState :=
  accepted.header.parents.foldlM (fun dag parent => do
      ensure (parent ∈ past) (invalidContextBlock
        s!"candidate past is not parent-closed at block {accepted.hash} parent {parent}")
      pure (linkParent accepted.hash dag parent))
    { dag with bestHeight := max dag.bestHeight accepted.header.height }

/-- The DAG of the past before its blocks are relinked. -/
def retainPast (dag : DagState) (past : TreeSet Hash) : DagState :=
  { dag with
    blocks := retainKeys dag.blocks past
    selectedParents := retainKeys dag.selectedParents past
    blueWork := retainKeys dag.blueWork past
    mergeSetDiagnostics := retainKeys dag.mergeSetDiagnostics past
    mergeSetBlues := retainKeys dag.mergeSetBlues past
    mergeSetReds := retainKeys dag.mergeSetReds past
    children := ∅
    tips := past
    bestHeight := 0 }

/-- `candidate_past_projection`. -/
def candidatePastProjection (block : Block) (state : ChainState) :
    Except PulseError ChainState := do
  let past ← candidatePastHashes block state
  let retained := retainPast state.dag past
  (retained.mergeSetBlues.toList ++ retained.mergeSetReds.toList).forM (checkMergeSetInPast past)
  retained.selectedParents.toList.forM (checkSelectedParentInPast past)
  let relinked ← (retained.blocks.toList.map Prod.snd).foldlM (relinkBlock past) retained
  let projected := { state with dag := relinked }
  let selectedTip ← Except.mapError (fun error => invalidContextBlock
      ("cannot select candidate-past tip: " ++ error.debug)) (calculateSelectedTipV1 projected)
  let selectedChain ← Except.mapError (fun error => invalidContextBlock
      ("cannot rebuild candidate-past selected chain: " ++ error.debug))
    (rebuildSelectedChainV1 projected selectedTip)
  pure { projected with
    dag := { relinked with
      selectedChain := selectedChain
      orderedDag := []
      orderedDagTip := none
      orderedDagStateRoot := none
      orderedDagConflictDiagnostics := [] } }

/-- The newest timestamp of the parents and the height they ask for. -/
def parentBounds (state : ChainState) :
    List Hash → UInt64 → UInt64 → Except PulseError (UInt64 × UInt64)
  | [], expectedHeight, newestParentTimestamp => .ok (expectedHeight, newestParentTimestamp)
  | parent :: rest, expectedHeight, newestParentTimestamp => do
    let parentBlock ← okOr state.dag.blocks[parent]?
      (invalidContextBlock ("missing parent " ++ parent))
    parentBounds state rest
      (max expectedHeight (saturatingAdd parentBlock.header.height 1))
      (max newestParentTimestamp parentBlock.header.timestamp)

section

variable [Crypto]

/-- The loop of `validate_context_envelope` over the transactions of the block. -/
def checkCandidateTransactions (chainId : String) :
    List Transaction → TreeSet Hash → Except PulseError Unit
  | [], _ => .ok ()
  | transaction :: rest, seenTxids => do
    ensure (transaction.txid ∉ seenTxids)
      (invalidContextBlock "block contains a duplicate transaction")
    ensure (transaction.version = transactionVersionV2) (.invalidTransaction
      (s!"network block transaction {transaction.txid} uses version {transaction.version}, " ++
        s!"expected {transactionVersionV2}"))
    let computed ← computeTxidV2 transaction chainId
    ensure (computed = transaction.txid) .invalidTxid
    checkCandidateTransactions chainId rest (seenTxids.insert transaction.txid)

/-- `validate_context_envelope`: the selected parent of the block. -/
def validateContextEnvelope (clock : Clock) (block : Block) (state : ChainState)
    (identity : ProtocolActivationIdentity) : Except PulseError Hash := do
  let path ← resolvePowValidationPath identity state
  ensure (path = .activatedV2)
    (invalidContextBlock "requires the activated_v2 protocol identity")
  ensure (block.hash ∉ state.dag.blocks) .blockAlreadyExists
  ensure (block.header.version = blockHeaderVersionV2) (invalidContextBlock
    s!"requires block header version {blockHeaderVersionV2}, got {block.header.version}")
  validateBlockHeaderV2Shape block.header identity.chainId
  ensure (block.header.parents ≠ [])
    (invalidContextBlock "non-genesis network block must contain at least one parent")
  let computedHash ← computeBlockHashV2 block.header identity.chainId
  ensure (computedHash = block.hash) (invalidContextBlock
    s!"block hash mismatch: supplied {block.hash}, computed {computedHash}")
  let bounds ← parentBounds state block.header.parents 0 0
  ensure (block.header.height = bounds.1) (invalidContextBlock
    s!"height {block.header.height} does not match derived {bounds.1}")
  ensure (block.header.timestamp ≠ 0 ∧ bounds.2 ≤ block.header.timestamp) (invalidContextBlock
    s!"timestamp {block.header.timestamp} is older than newest parent {bounds.2}")
  ensure (block.header.timestamp ≤ saturatingAdd clock.now clock.maxFuture) (invalidContextBlock
    s!"timestamp too far in the future: {block.header.timestamp} > {clock.now} + {clock.maxFuture}")
  let classification ← Except.mapError (fun error => invalidContextBlock
    ("ghostdag_v1 classification failed: " ++ error.debug)) (classifyMergeSetV1 block state)
  ensure (block.header.blueScore = classification.blueScore) (invalidContextBlock
    s!"blue score {block.header.blueScore} does not match derived {classification.blueScore}")
  let selectedParent ← okOr classification.selectedParent
    (invalidContextBlock "ghostdag_v1 classification produced no selected parent")
  let expectedDifficulty ← okOr (expectedDifficultyForParent state selectedParent)
    (invalidContextBlock
      s!"difficulty context unavailable for selected parent {selectedParent}")
  ensure (block.header.difficulty = expectedDifficulty) (invalidContextBlock
    (s!"difficulty {block.header.difficulty} does not match selected-parent derived " ++
      s!"{expectedDifficulty}"))
  let coinbase ← okOr block.transactions.head? .missingCoinbase
  ensure (isCoinbase coinbase = true) .coinbaseNotFirst
  ensure (∀ tx ∈ block.transactions.drop 1, isCoinbase tx = false) .multipleCoinbase
  checkCandidateTransactions identity.chainId block.transactions ∅
  ensure (computeMerkleRoot block.transactions = block.header.merkleRoot)
    (invalidContextBlock "merkle root mismatch")
  validateCoinbaseReward block
  validatePowForProtocol block.header state identity
  pure selectedParent

/-- One transaction of the loop of `replay_pre_candidate_state_v2`. -/
def replayAcceptedTransaction (height : UInt64) (replay : ChainState) (tx : Transaction) :
    Except PulseError ChainState := do
  let applied ← applyAtomic tx replay height
  pure (applied.getD replay)

/-- One block of the loop of `replay_pre_candidate_state_v2`. -/
def replayAcceptedBlock (context : ChainState) (replay : ChainState) (hash : Hash) :
    Except PulseError ChainState :=
  if hash = context.dag.genesisHash then .ok replay
  else do
    let accepted ← okOr context.dag.blocks[hash]? (invalidContextBlock
      ("ordered candidate context references missing block " ++ hash))
    accepted.transactions.foldlM (replayAcceptedTransaction accepted.header.height) replay

/-- The blocks that the loop of `replay_pre_candidate_state_v2` reaches: it breaks off at the
candidate, unless the candidate is the genesis block, which is passed over first. -/
def beforeCandidate (context : ChainState) (candidateHash : Hash) (order : List Hash) : List Hash :=
  order.takeWhile fun hash => hash = context.dag.genesisHash ∨ hash ≠ candidateHash

/-- The mempool without its transactions and their marks. -/
def Mempool.cleared (mempool : Mempool) : Mempool :=
  { mempool with
    transactions := ∅
    spentOutpoints := ∅
    firstSeen := ∅
    admissionHeight := ∅ }

/-- `replay_pre_candidate_state_v2`. The replay starts at the version 1 genesis state whatever
the genesis of the context is. -/
def replayPreCandidateStateV2 (context : ChainState) (candidateHash : Hash) :
    Except PulseError ChainState := do
  let ordered ← Except.mapError (fun error => invalidContextBlock
      ("candidate context has no authoritative ordered DAG: " ++ error.debug))
    (deriveOrderedDagV2 context)
  ensure (ordered.blocks.getLast? = some candidateHash) (invalidContextBlock
    ("candidate " ++ candidateHash ++ " is not the tip of its own past-context order " ++
      debugOption ordered.blocks.getLast?))
  let replay ← (beforeCandidate context candidateHash ordered.blocks).foldlM
    (replayAcceptedBlock context) (withReplaySettings (initChainState context.chainId) context)
  let orderedDag := ordered.blocks.takeWhile fun hash => hash ≠ candidateHash
  let stateRoot ← replay.utxo.computeStateRoot
  pure { replay with
    dag := { replay.dag with
      orderedDag := orderedDag
      orderingVersion := ordered.orderingVersion
      orderedDagTip := orderedDag.getLast?
      orderedDagStateRoot := some stateRoot }
    mempool := replay.mempool.cleared }

/-- One transaction after the coinbase in `validate_candidate_transactions`. -/
def validateCandidateTransaction (height : UInt64) (identity : ProtocolActivationIdentity)
    (context : ChainState) (transaction : Transaction) : Except PulseError ChainState := do
  validateTransactionForProtocol transaction context identity
  applyTransaction transaction context height

/-- `validate_candidate_transactions`. The state after the transactions is discarded by the
callers; it is returned here so that it can be spoken about. -/
def candidateTransactionContext (block : Block) (preCandidateState : ChainState)
    (identity : ProtocolActivationIdentity) : Except PulseError ChainState := do
  let transactionContext :=
    { preCandidateState with mempool := preCandidateState.mempool.cleared }
  validateCreatedUtxoOutpoints block transactionContext
  let coinbase ← okOr block.transactions.head? .missingCoinbase
  let afterCoinbase ← applyTransaction coinbase transactionContext block.header.height
  (block.transactions.drop 1).foldlM
    (validateCandidateTransaction block.header.height identity) afterCoinbase

/-- `validate_candidate_transactions`. -/
def validateCandidateTransactions (block : Block) (preCandidateState : ChainState)
    (identity : ProtocolActivationIdentity) : Except PulseError Unit := do
  let _ ← candidateTransactionContext block preCandidateState identity
  pure ()

/-- `live_disposition_with_materializer`. -/
def liveDispositionWithMaterializer (block : Block) (state : ChainState)
    (identity : ProtocolActivationIdentity)
    (materialize : ChainState → Except PulseError ChainState) :
    Except PulseError ActivatedV2P2pContextDisposition := do
  let (_, live) ← commitGhostdagV1MetadataForActivatedV2 block state identity
  match deriveOrderedDagV2 live with
  | .error (.unclassifiedBlock _) => pure .deferredSideTip
  | .error error => .error (invalidContextBlock
      ("live ordered-DAG derivation failed outside deferred side-tip classification: " ++
        error.debug))
  | .ok ordered =>
    if ordered.blocks.getLast? ≠ some block.hash then pure .deferredSideTip
    else do
      let materialized ← materialize live
      if materialized.dag.orderedDagStateRoot = some block.header.stateRoot ∧
          materialized.dag.orderedDagTip = some block.hash then
        pure .immediatelyFinalizable
      else pure .deferredSideTip

/-- `validate_activated_v2_p2p_block_context_with_materializer`. -/
def validateActivatedV2P2pBlockContextWithMaterializer (clock : Clock) (block : Block)
    (state : ChainState) (identity : ProtocolActivationIdentity)
    (materialize : ChainState → Except PulseError ChainState)
    (materializePreCandidate : ChainState → Hash → Except PulseError ChainState) :
    Except PulseError ActivatedV2P2pContextValidation := do
  ensure (block.hash ∉ state.dag.blocks) .blockAlreadyExists
  let projection ← candidatePastProjection block state
  let selectedParent ← validateContextEnvelope clock block projection identity
  let (_, context) ← commitGhostdagV1MetadataForActivatedV2 block projection identity
  let preCandidateState ← Except.mapError (fun error => invalidContextBlock
      ("candidate pre-state cannot be materialized by the selected replay authority: " ++
        error.display))
    (materializePreCandidate context block.hash)
  validateCandidateTransactions block preCandidateState identity
  let ordered ← Except.mapError (fun error => invalidContextBlock
      ("candidate context ordered-DAG derivation failed: " ++ error.debug))
    (deriveOrderedDagV2 context)
  let materialized ← Except.mapError (fun error => invalidContextBlock
      ("candidate context cannot be materialized by the selected replay authority: " ++
        error.display))
    (materialize context)
  ensure (materialized.dag.orderedDagTip = some block.hash) (invalidContextBlock
    ("candidate " ++ block.hash ++ " is not the authoritative tip of its past context " ++
      debugOption materialized.dag.orderedDagTip))
  let observedRoot ← materialized.utxo.computeStateRoot
  ensure (observedRoot = block.header.stateRoot) (invalidContextBlock
    (s!"state root mismatch for {block.hash} in candidate past: committed " ++
      s!"{block.header.stateRoot}, replay produced {observedRoot}"))
  let disposition ← liveDispositionWithMaterializer block state identity materialize
  pure { blockHash := block.hash, disposition := disposition, selectedParent := selectedParent,
         orderedDagDigest := ordered.digest, stateRoot := observedRoot }

/-- `validate_activated_v2_p2p_block_context`. -/
def validateActivatedV2P2pBlockContext (clock : Clock) (block : Block) (state : ChainState)
    (identity : ProtocolActivationIdentity) :
    Except PulseError ActivatedV2P2pContextValidation :=
  validateActivatedV2P2pBlockContextWithMaterializer clock block state identity
    materializeAuthoritativeStateV2 replayPreCandidateStateV2

end

end PulseDag
