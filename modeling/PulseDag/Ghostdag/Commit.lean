import PulseDag.Ghostdag.Classification

/-!
# Committing a block's GHOSTDAG metadata

`acceptance_v2.rs`. A candidate is checked against the protocol identity and the known
blocks, classified in its own past, and then linked into the DAG. The new state is
returned only when every step succeeds, so a failed commit leaves the state unchanged.
-/

namespace PulseDag

/-- `ActivatedV2MetadataCommit`. -/
structure ActivatedV2MetadataCommit where
  classification : GhostdagV1Classification
  selectedTip : Option Hash
  selectedChain : List Hash
  deriving DecidableEq, Repr

/-- `invalid_activation_identity`. -/
def invalidActivationIdentity (message : String) : PulseError :=
  .invalidBlock ("invalid activated-v2 metadata identity: " ++ message)

/-- `verify_activated_v2_metadata_identity`. -/
def verifyActivatedV2MetadataIdentity (state : ChainState)
    (identity : ProtocolActivationIdentity) : Except PulseError Unit := do
  Except.mapError invalidActivationIdentity identity.validate
  ensure (identity.chainId = state.chainId) .chainIdMismatch
  ensure (identity.genesisHash = state.dag.genesisHash)
    (invalidActivationIdentity "genesis hash does not match chain state")
  ensure (identity.transactionProtocolVersion = transactionVersionV2 ∧
      identity.blockHeaderProtocolVersion = blockHeaderVersionV2 ∧
      identity.consensusMode = .ghostdagV1 ∧
      identity.dagOrderingVersion = ghostdagV1OrderingVersion)
    (invalidActivationIdentity
      "identity is not the frozen ghostdag_v1 transaction/header/ordering tuple")

/-- `verify_activated_v2_genesis_metadata`. -/
def verifyActivatedV2GenesisMetadata (state : ChainState) : Except PulseError Unit := do
  ensure (state.dag.mergeSetBlues[state.dag.genesisHash]?.getD [] = [])
    (.invalidBlock "activated-v2 genesis merge-set blue metadata must be empty")
  ensure (state.dag.mergeSetReds[state.dag.genesisHash]?.getD [] = [])
    (.invalidBlock "activated-v2 genesis merge-set red metadata must be empty")

/-- The height a block with these parents must have. -/
def expectedHeight (state : ChainState) : List Hash → UInt64 → Except PulseError UInt64
  | [], height => .ok height
  | parent :: rest, height => do
    let parentBlock ← okOr state.dag.blocks[parent]? (.invalidBlock s!"missing parent {parent}")
    expectedHeight state rest (max height (saturatingAdd parentBlock.header.height 1))

/-- `validate_metadata_candidate`. -/
def validateMetadataCandidate [Crypto] (block : Block) (state : ChainState)
    (identity : ProtocolActivationIdentity) : Except PulseError GhostdagV1Classification := do
  ensure (block.hash ∉ state.dag.blocks) .blockAlreadyExists
  validateBlockHeaderV2Shape block.header identity.chainId
  ensure (block.header.parents ≠ []) (.invalidBlock
    "activated-v2 metadata candidate cannot introduce a parentless root after genesis")
  let computedHash ← computeBlockHashV2 block.header identity.chainId
  ensure (computedHash = block.hash) (.invalidBlock
    s!"activated-v2 block hash mismatch: supplied {block.hash}, computed {computedHash}")
  let expected ← expectedHeight state block.header.parents 0
  ensure (block.header.height = expected) (.invalidBlock
    s!"activated-v2 invalid height {block.header.height}, expected {expected}")
  let classification ← Except.mapError
    (fun error => .invalidBlock ("ghostdag_v1 metadata classification failed: " ++ error.debug))
    (classifyMergeSetV1 block state)
  ensure (block.header.blueScore = classification.blueScore) (.invalidBlock
    (s!"activated-v2 blue score mismatch: header {block.header.blueScore}, derived " ++
      s!"{classification.blueScore}"))
  pure classification

/-- Record the block as a child of one parent, which stops being a tip. -/
def linkParent (hash : Hash) (dag : DagState) (parent : Hash) : DagState :=
  let children := dag.children[parent]?.getD [] ++ [hash]
  { dag with
    tips := dag.tips.erase parent
    children := dag.children.insert parent
      (dedupNeighbours (children.insertionSort (· ≤ ·))) }

/-- The DAG with the block and its metadata, before the selected chain is rebuilt. -/
def insertBlockMetadata (block : Block) (dag : DagState)
    (classification : GhostdagV1Classification) : DagState :=
  let withGenesis : DagState :=
    { dag with
      mergeSetBlues := dag.mergeSetBlues.insertIfNew dag.genesisHash []
      mergeSetReds := dag.mergeSetReds.insertIfNew dag.genesisHash [] }
  let linked := block.header.parents.foldl (linkParent block.hash) withGenesis
  { linked with
    tips := linked.tips.insert block.hash
    bestHeight := max linked.bestHeight block.header.height
    selectedParents := linked.selectedParents.insert block.hash classification.selectedParent
    mergeSetBlues := linked.mergeSetBlues.insert block.hash classification.blues
    mergeSetReds := linked.mergeSetReds.insert block.hash classification.reds
    blueWork := linked.blueWork.insert block.hash classification.blueWork
    mergeSetK := ghostdagV1K
    blocks := linked.blocks.insert block.hash block }

/-- `commit_ghostdag_v1_metadata_for_activated_v2`: the commit record and the new state. -/
def commitGhostdagV1MetadataForActivatedV2 [Crypto] (block : Block) (state : ChainState)
    (identity : ProtocolActivationIdentity) :
    Except PulseError (ActivatedV2MetadataCommit × ChainState) := do
  verifyActivatedV2MetadataIdentity state identity
  verifyActivatedV2GenesisMetadata state
  let classification ← validateMetadataCandidate block state identity
  let working := { state with dag := insertBlockMetadata block state.dag classification }
  let selectedTip ← Except.mapError (fun error => .invalidBlock
      ("ghostdag_v1 selected-tip calculation failed after metadata commit: " ++ error.debug))
    (calculateSelectedTipV1 working)
  let selectedChain ← Except.mapError (fun error => .invalidBlock
      ("ghostdag_v1 selected-chain rebuild failed after metadata commit: " ++ error.debug))
    (rebuildSelectedChainV1 working selectedTip)
  pure (⟨classification, selectedTip, selectedChain⟩,
    { working with dag := { working.dag with selectedChain := selectedChain } })

end PulseDag
