import PulseDag.Ledger.ReplayV3

/-!
# The settlement view

`reward_settlement_v3.rs` and `live_reward_settlement_v3.rs`: the rewards of a materialised
state, read off the state without a replay. Which transfers were skipped is recovered from the
texts that the replay left in the state.
-/

namespace PulseDag

/-- `REWARD_FINALITY_BINDING_SCHEMA_VERSION_V3`. -/
def rewardFinalityBindingSchemaVersionV3 : UInt32 := 1

/-- `RewardFinalityBoundaryV3`. -/
structure RewardFinalityBoundaryV3 where
  schemaVersion : UInt32
  policyVersion : String
  finalizedThroughScore : ℕ
  finalizedBlockHash : Hash
  orderedPrefixDigest : String
  deriving DecidableEq, Repr

/-- `impl From<OrderingV2Error> for RewardSettlementV3Error`. -/
def RewardSettlementV3Error.ofOrdering (error : OrderingV2Error) : RewardSettlementV3Error :=
  .ordering error.debug

/-- `validate_ordered_genesis`. -/
def validateOrderedGenesis (state : ChainState) (ordered : OrderedDagV2) :
    Except RewardSettlementV3Error Unit :=
  ensure (ordered.blocks.head? = some state.dag.genesisHash)
    (.genesisNotFirst state.dag.genesisHash ordered.blocks.head?)

/-- `transaction_was_skipped_by_authoritative_v3_replay`. -/
def transactionWasSkippedByAuthoritativeV3Replay (state : ChainState) (blockHash txid : Hash) :
    Bool :=
  let marker := s!" block={blockHash} tx={txid} skipped_conflict_atomic"
  state.dag.orderedDagConflictDiagnostics.any fun entry => marker.toList <:+: entry.toList

/-- `eligible_block_fees_atoms_v3`. -/
def eligibleBlockFeesAtomsV3 (state : ChainState) (block : Block) :
    Except RewardSettlementV3Error UInt64 :=
  okOr (checkedSum 0 (((block.transactions.drop 1).filter fun tx =>
    !transactionWasSkippedByAuthoritativeV3Replay state block.hash tx.txid).map Transaction.fee))
    .rewardOverflow

section

variable [Crypto]

/-- `ordered_prefix_digest`. -/
def orderedPrefixDigest (blocks : List Hash) (throughScore : ℕ) :
    Except RewardSettlementV3Error String := do
  ensure (throughScore + 1 ≤ blocks.length) (.finalityBeyondTip throughScore (blocks.length - 1))
  pure (sha256Hex (encodeLenPrefixedStr "PulseDAG:reward-finality-prefix:v3" ++
    leBytes 8 throughScore ++ leBytes 8 (throughScore + 1) ++
    (blocks.take (throughScore + 1)).flatMap encodeLenPrefixedStr))

/-- `bind_reward_finality_boundary_v3`. -/
def bindRewardFinalityBoundaryV3 (state : ChainState) (finalizedThroughScore : ℕ)
    (policyVersion : String) : Except RewardSettlementV3Error RewardFinalityBoundaryV3 := do
  ensure (isBlank policyVersion = false) .emptyFinalityPolicyVersion
  let ordered ← Except.mapError RewardSettlementV3Error.ofOrdering (deriveOrderedDagV2 state)
  validateOrderedGenesis state ordered
  let currentScore := ordered.blocks.length - 1
  ensure (finalizedThroughScore ≤ currentScore)
    (.finalityBeyondTip finalizedThroughScore currentScore)
  let finalizedBlockHash ← okOr ordered.blocks[finalizedThroughScore]? .rewardOverflow
  let digest ← orderedPrefixDigest ordered.blocks finalizedThroughScore
  pure
    { schemaVersion := rewardFinalityBindingSchemaVersionV3
      policyVersion := policyVersion
      finalizedThroughScore := finalizedThroughScore
      finalizedBlockHash := finalizedBlockHash
      orderedPrefixDigest := digest }

/-- `validate_reward_finality_boundary_v3`. -/
def validateRewardFinalityBoundaryV3 (state : ChainState) (boundary : RewardFinalityBoundaryV3)
    (expectedPolicyVersion : String) : Except RewardSettlementV3Error Unit := do
  ensure (boundary.schemaVersion = rewardFinalityBindingSchemaVersionV3) (.invalidRewardClaim
    s!"unsupported reward finality binding schema {boundary.schemaVersion}")
  ensure (isBlank boundary.policyVersion = false ∧ isBlank expectedPolicyVersion = false)
    .emptyFinalityPolicyVersion
  ensure (boundary.policyVersion = expectedPolicyVersion)
    (.finalityPolicyMismatch expectedPolicyVersion boundary.policyVersion)
  let ordered ← Except.mapError RewardSettlementV3Error.ofOrdering (deriveOrderedDagV2 state)
  validateOrderedGenesis state ordered
  let currentScore := ordered.blocks.length - 1
  ensure (boundary.finalizedThroughScore ≤ currentScore)
    (.finalityBeyondTip boundary.finalizedThroughScore currentScore)
  let observed ← okOr ordered.blocks[boundary.finalizedThroughScore]? .rewardOverflow
  ensure (observed = boundary.finalizedBlockHash) (.finalityBlockMismatch
    boundary.finalizedThroughScore boundary.finalizedBlockHash observed)
  let digest ← orderedPrefixDigest ordered.blocks boundary.finalizedThroughScore
  ensure (digest = boundary.orderedPrefixDigest) .finalityPrefixDigestMismatch

end

end PulseDag
