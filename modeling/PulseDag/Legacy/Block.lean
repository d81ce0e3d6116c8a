import PulseDag.Ghostdag.Commit
import PulseDag.Ledger.OrderedRebuild
import PulseDag.Legacy.Selection
import PulseDag.Mempool.Resource
import PulseDag.Network.Context

/-!
# Validating and applying version 1 blocks

`validate_block` of `validation.rs` and `apply_block` of `apply.rs`. A block is checked against
the state of its selected parent: the live state when that parent is the preferred tip, and a
replay of the parent's selected chain otherwise. The legacy mode then replays the new selected
chain from genesis, the development mode the whole DAG in its order.
-/

namespace PulseDag

/-- `validate_coinbase_position`. -/
def validateCoinbasePosition (block : Block) : Except PulseError Unit :=
  match block.transactions.zipIdx.filterMap fun entry =>
    if isCoinbase entry.1 then some entry.2 else none with
  | [] => .error .missingCoinbase
  | [0] => .ok ()
  | [_] => .error .coinbaseNotFirst
  | _ => .error .multipleCoinbase

/-- `selected_parent_for_state_validation`. -/
def selectedParentForStateValidation (block : Block) (state : ChainState) : Option Hash :=
  if state.dag.consensusMode.ghostdagMetadataActive then calculateSelectedParent block state
  else largestKnownParent block state

/-- `accept_block_to_dag_metadata`. -/
def acceptBlockToDagMetadata (block : Block) (state : ChainState) : ChainState :=
  let classification := classifyMergeSet block state
  let committed :=
    { block with header := { block.header with blueScore := classification.blueScore } }
  let linked := committed.header.parents.foldl (linkParent committed.hash) state.dag
  let selectedParent :=
    if state.dag.consensusMode.ghostdagMetadataActive then classification.selectedParent
    else largestKnownParent committed state
  { state with dag := { linked with
      tips := linked.tips.insert committed.hash
      bestHeight := max linked.bestHeight committed.header.height
      selectedParents := linked.selectedParents.insert committed.hash selectedParent
      mergeSetBlues := linked.mergeSetBlues.insert committed.hash classification.blues
      mergeSetReds := linked.mergeSetReds.insert committed.hash classification.reds
      blueWork := linked.blueWork.insert committed.hash classification.blueWork
      mergeSetDiagnostics :=
        linked.mergeSetDiagnostics.insert committed.hash classification.diagnostics
      blocks := linked.blocks.insert committed.hash committed } }

/-- Apply the transactions of a block and record the block. -/
def replayChainBlock (context : ChainState) (block : Block) : Except PulseError ChainState := do
  let applied ← block.transactions.foldlM
    (fun state tx => applyTransaction tx state block.header.height) context
  pure (refreshSelectedChain (acceptBlockToDagMetadata block applied))

/-- The loop of the two chain replays; the genesis block is part of the base state. -/
def replayChain (state : ChainState) (genesisHash : Hash) (missing : Hash → PulseError)
    (chain : List Hash) (base : ChainState) : Except PulseError ChainState :=
  chain.foldlM (fun context hash =>
    if hash = genesisHash then .ok context
    else do
      let ancestor ← okOr state.dag.blocks[hash]? (missing hash)
      replayChainBlock context ancestor) base

/-- A mempool without transactions and spent outpoints. -/
def Mempool.withoutTransactions (mempool : Mempool) : Mempool :=
  { mempool with transactions := ∅, spentOutpoints := ∅ }

section

variable [Crypto]

/-- The replay of `parent_state_context` from genesis. -/
def replayedContext (block : Block) (state : ChainState) (parentHash : Hash) :
    Except PulseError ChainState := do
  let chain := rebuildSelectedChainFromTip state (some parentHash)
  ensure (parentHash ∈ chain) (.parentStateContextUnavailable block.hash parentHash)
  let context := withReplaySettings (initChainState state.chainId) state
  replayChain state context.dag.genesisHash
    (fun hash => .parentStateContextUnavailable block.hash hash) chain context

/-- `parent_state_context`. -/
def parentStateContext (block : Block) (state : ChainState) : Except PulseError ChainState := do
  let parentHash ← okOr (selectedParentForStateValidation block state)
    (.parentStateContextUnavailable block.hash (block.header.parents.head?.getD ""))
  ensure (parentHash ∈ state.dag.blocks) (.parentStateContextUnavailable block.hash parentHash)
  if preferredTipHash state = some parentHash then
    pure { state with mempool := state.mempool.withoutTransactions }
  else replayedContext block state parentHash

/-- `compute_post_state_root`. -/
def computePostStateRoot (block : Block) (state : ChainState) : Except PulseError Hash := do
  let coinbase ← okOr block.transactions.head? (.invalidBlock "empty block")
  let working ← applyTransaction coinbase
    { state with mempool := state.mempool.withoutTransactions } block.header.height
  let applied ← (block.transactions.drop 1).foldlM (fun working tx => do
    validateTransaction tx working
    applyTransaction tx working block.header.height) working
  applied.utxo.computeStateRoot

/-- `invalid_state_root_diagnostics`. -/
def invalidStateRootDiagnostics (block : Block) (state : ChainState) (computedStateRoot : String) :
    InvalidStateRootDiagnostics :=
  let currentTips := sortedTipHashes state
  let selectedTip := currentTips.head?
  let selectedTipHeight :=
    (selectedTip.bind (state.dag.blocks[·]?)).map fun tip => tip.header.height
  let parentHashes := block.header.parents
  let staleTemplate := decide (parentHashes ≠ []) &&
    (parentHashes.any (fun parent => decide (parent ∉ state.dag.tips)) ||
      (selectedTip.map fun tip => decide (tip ∉ parentHashes)).getD false ||
      (selectedTipHeight.map fun tipHeight => decide (block.header.height ≤ tipHeight)).getD false)
  let unknownContext := decide (parentHashes = []) || selectedTip.isNone ||
    parentHashes.any fun parent => decide (parent ∉ state.dag.blocks)
  { blockHash := block.hash
    height := block.header.height
    parentHashes
    suppliedStateRoot := block.header.stateRoot
    computedStateRoot
    txCount := block.transactions.length
    coinbaseMinerAddress :=
      (block.transactions.head?.bind fun tx => tx.outputs.head?).map TxOutput.address
    selectedTip
    selectedTipHeight
    currentTips
    staleTemplate
    unknownContext
    classification :=
      if unknownContext then .unknownContext else if staleTemplate then .staleTemplate
      else .trueInvalid
    stateValidationContextTip := selectedTip
    stateValidationContextHeight := selectedTipHeight
    stateValidationContextSource := some "current_selected_tip_legacy" }

/-- `invalid_state_root_diagnostics_with_context`. -/
def invalidStateRootDiagnosticsWithContext (block : Block) (state context : ChainState)
    (computedStateRoot : String) : InvalidStateRootDiagnostics :=
  let contextTip := selectedParentForStateValidation block state
  { invalidStateRootDiagnostics block state computedStateRoot with
    stateValidationContextHeight :=
      (contextTip.bind (state.dag.blocks[·]?)).map fun tip => tip.header.height
    stateValidationContextTip := contextTip
    stateValidationContextSource := some "canonical_parent_rebuild"
    staleTemplate := false
    classification :=
      if context.dag.blocks.isEmpty then .parentStateContextUnavailable else .trueInvalid }

/-- The loop of `validate_block` over the parents: the height they ask for and the newest of their
timestamps. -/
def legacyParentBounds (state : ChainState) (parents : List Hash) :
    Except PulseError (UInt64 × UInt64) := do
  let bounds ← parents.foldlM (fun (bounds : TreeSet Hash × UInt64 × UInt64) parent => do
    ensure (parent ∉ bounds.1) (.invalidBlock "duplicate parent")
    let parentBlock ← okOr state.dag.blocks[parent]? (.invalidBlock s!"missing parent {parent}")
    pure (bounds.1.insert parent,
      max bounds.2.1 (saturatingAdd parentBlock.header.height 1),
      max bounds.2.2 parentBlock.header.timestamp)) (∅, 0, 0)
  pure bounds.2

/-- `validate_pow_header`. -/
def validatePowHeader (header : BlockHeader) : Except PowRejectReason Unit := do
  validatePowPreimageEncoding header
  ensure ((evaluateMaterialWithNonce (canonicalMiningPreimageBytes header) header.nonce
    header.difficulty).comparison = .meetsTarget) .scoreAboveTarget

/-- The first checks of `validate_block`, on the hash and the time. -/
def validateBlockTime (clock : Clock) (block : Block) (state : ChainState) :
    Except PulseError Unit := do
  ensure (block.hash ∉ state.dag.blocks) .blockAlreadyExists
  ensure (block.header.timestamp ≠ 0) (.invalidBlock "timestamp must be greater than zero")
  ensure (block.header.timestamp ≤ saturatingAdd clock.now clock.maxFuture) (.invalidBlock
    s!"timestamp too far in the future: {block.header.timestamp} > {clock.now} + {clock.maxFuture}")

/-- The checks of `validate_block` from the parents to the reward, before the parent state is
built. -/
def validateBlockStructure (block : Block) (state : ChainState) : Except PulseError Unit := do
  ensure (block.header.parents ≠ []) (.invalidBlock "block has no parents")
  let (expectedHeight, newestParentTimestamp) ← legacyParentBounds state block.header.parents
  ensure (block.header.height = expectedHeight) (.invalidBlock
    s!"invalid height {block.header.height}, expected {expectedHeight}")
  let selectedParent ← okOr (selectedParentForStateValidation block state)
    (.parentStateContextUnavailable block.hash (block.header.parents.head?.getD ""))
  let expectedDifficulty ← okOr (expectedDifficultyForParent state selectedParent)
    (.parentStateContextUnavailable block.hash selectedParent)
  ensure (block.header.difficulty = expectedDifficulty) (.invalidBlock
    s!"invalid consensus difficulty {block.header.difficulty}, expected {expectedDifficulty}")
  Except.mapError (fun reason => .invalidBlock
    s!"invalid proof of work for expected difficulty {expectedDifficulty}: {reason.code}")
    (validatePowHeader block.header)
  ensure (newestParentTimestamp ≤ block.header.timestamp) (.invalidBlock
    s!"timestamp {block.header.timestamp} is older than newest parent {newestParentTimestamp}")
  validateCoinbasePosition block
  let computedHash := computeBlockHash block.header
  ensure (computedHash = block.hash) (.invalidBlock
    s!"block hash mismatch: supplied {block.hash}, computed {computedHash}")
  ensure ((block.transactions.map Transaction.txid).Nodup)
    (.invalidBlock "duplicate transaction in block")
  let computedMerkleRoot := computeMerkleRoot block.transactions
  ensure (computedMerkleRoot = block.header.merkleRoot) (.invalidBlock
    s!"merkle root mismatch: supplied {block.header.merkleRoot}, computed {computedMerkleRoot}")
  ensure (∀ tx ∈ block.transactions, computeTxid tx = tx.txid) .invalidTxid
  validateCoinbaseReward block

/-- `validate_block`. -/
def validateBlock (clock : Clock) (block : Block) (state : ChainState) :
    Except PulseError Unit := do
  validateBlockTime clock block state
  validateBlockStructure block state
  let parentContext ← parentStateContext block state
  validateCreatedUtxoOutpoints block parentContext
  let computedStateRoot ← computePostStateRoot block parentContext
  ensure (computedStateRoot = block.header.stateRoot) (.invalidStateRoot
    (invalidStateRootDiagnosticsWithContext block state parentContext computedStateRoot))

/-! ## Applying a block -/

/-- `commit_rebuilt_state`. -/
def commitRebuiltState (state : ChainState) (rebuilt : OrderedDagRebuild) : ChainState :=
  { state with
    utxo := rebuilt.utxo
    dag := { state.dag with
      orderedDagRebuildTotal := saturatingAdd state.dag.orderedDagRebuildTotal 1
      orderedDagStateRoot := some rebuilt.diagnostics.stateRoot
      orderedDagTip := rebuilt.diagnostics.orderedDagTip
      orderedDagConflictDiagnostics := rebuilt.diagnostics.conflictDiagnostics } }

/-- `selected_chain_extends_with_block`. -/
def selectedChainExtendsWithBlock (previous chain : List Hash) (blockHash : Hash) : Bool :=
  decide (chain = previous ++ [blockHash])

/-- Record the state root of the ledger. -/
def recordStateRoot (state : ChainState) (root : Option Hash) : ChainState :=
  { state with dag := { state.dag with orderedDagStateRoot := root } }

/-- `commit_legacy_compact_snapshot_state`. -/
def commitLegacyCompactSnapshotState (block : Block) (state : ChainState)
    (previousSelectedChain : List Hash) : Except PulseError ChainState :=
  if state.dag.selectedChain = previousSelectedChain then
    .ok (recordStateRoot state state.utxo.computeStateRoot.toOption)
  else do
    let previousTip := previousSelectedChain.getLast?.getD "-"
    let selectedTip := state.dag.selectedChain.getLast?.getD "-"
    ensure (selectedChainExtendsWithBlock previousSelectedChain state.dag.selectedChain
      block.hash = true) (.storageError
        ("compact snapshot selected-chain transition requires unavailable historical state: " ++
          s!"previous_tip={previousTip} candidate={block.hash} selected_tip={selectedTip}"))
    let applied ← block.transactions.foldlM
      (fun state tx => applyTransaction tx state block.header.height) state
    let stateRoot ← applied.utxo.computeStateRoot
    ensure (stateRoot = block.header.stateRoot) (.internal
      (s!"compact snapshot incremental state root mismatch for block {block.hash}: computed " ++
        s!"{stateRoot}, expected {block.header.stateRoot}"))
    pure (recordStateRoot applied (some stateRoot))

/-- The legacy branch of `commit_block_to_state`. -/
def commitLegacyBlock (block : Block) (state : ChainState) : Except PulseError ChainState := do
  let accepted := refreshSelectedChain (acceptBlockToDagMetadata block state)
  let ordered := { accepted with dag := { accepted.dag with
    orderedDag := accepted.dag.selectedChain
    orderingVersion := "legacy"
    orderedDagTip := accepted.dag.selectedChain.getLast? } }
  if state.dag.genesisHash ∈ state.dag.blocks then do
    let rebuilt ← replayChain ordered ordered.dag.genesisHash
      (fun hash => .internal s!"selected chain references missing block {hash}")
      ordered.dag.selectedChain (withReplaySettings (initChainState ordered.chainId) ordered)
    pure (recordStateRoot { ordered with utxo := rebuilt.utxo }
      rebuilt.utxo.computeStateRoot.toOption)
  else commitLegacyCompactSnapshotState block ordered state.dag.selectedChain

/-- The development branch of `commit_block_to_state`. -/
def commitGhostdagDevBlock (block : Block) (state : ChainState) : Except PulseError ChainState := do
  let ordered := refreshOrderedDag (refreshSelectedChain (acceptBlockToDagMetadata block state))
  let rebuilt ← rebuildStateFromOrderedDag ordered
  pure (commitRebuiltState ordered rebuilt)

/-- The two branches of `commit_block_to_state`. -/
def commitBlockByMode (block : Block) (state : ChainState) : Except PulseError ChainState :=
  if state.dag.consensusMode = .ghostdagDev then commitGhostdagDevBlock block state
  else commitLegacyBlock block state

/-- `commit_block_to_state` on a copy of the state, which a failure discards. -/
def commitBlockToState (block : Block) (state : ChainState) : Except PulseError ChainState := do
  let committed ← commitBlockByMode block state
  pure (reconcileMempool committed).1

/-- `apply_block`. -/
def applyBlock (clock : Clock) (block : Block) (state : ChainState) :
    Except PulseError ChainState := do
  validateBlock clock block state
  let working ← commitBlockToState block state
  pure (normalizeProductionMempoolResourcesV1 working)

end

end PulseDag
