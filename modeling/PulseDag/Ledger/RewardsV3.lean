import PulseDag.Ghostdag.Ordering
import PulseDag.Ledger.Apply
import PulseDag.Ledger.Monetary
import PulseDag.Lib.BinarySearch

/-!
# Reward claims and their settlement

The claim checks of `reward_settlement_v3.rs` and the settlement functions at the head of
`state_replay_v3.rs`. The first transaction of a block claims its reward without an amount.
The amount, subsidy plus fees, becomes a coin under a synthetic outpoint once the score of
the block is economically mature.
-/

namespace PulseDag

/-- `RewardSettlementV3Error`. -/
inductive RewardSettlementV3Error
  | ordering (message : String)
  | emptyOrderedDag
  | genesisNotFirst (expected : Hash) (observed : Option Hash)
  | finalityBeyondTip (score currentScore : ℕ)
  | finalityBlockMismatch (score : ℕ) (expected observed : Hash)
  | finalityPrefixDigestMismatch
  | emptyFinalityPolicyVersion
  | finalityPolicyMismatch (expected observed : String)
  | emptyChainId
  | missingRewardClaim (blockHash : Hash)
  | multipleRewardClaims (blockHash : Hash)
  | invalidRewardClaim (message : String)
  | rewardClaimTxidMismatch (expected observed : Hash)
  | rewardOverflow
  | supplyInvariantMismatch (score : ℕ) (expected observed : UInt64)
  | monetary (error : MonetaryV3Error)
  deriving DecidableEq, Repr

/-- The `Display` text of a settlement error. -/
def RewardSettlementV3Error.display : RewardSettlementV3Error → String
  | .ordering message => "ordered DAG derivation failed: " ++ message
  | .emptyOrderedDag => "ordered DAG is empty"
  | .genesisNotFirst expected observed =>
    "ordered DAG must start at genesis " ++ expected ++ ", observed " ++ debugOption observed
  | .finalityBeyondTip score currentScore =>
    s!"finality boundary score {score} exceeds current monetary score {currentScore}"
  | .finalityBlockMismatch score expected observed =>
    s!"finality boundary block mismatch at score {score}: expected {expected}, observed {observed}"
  | .finalityPrefixDigestMismatch => "finality boundary ordered-prefix digest mismatch"
  | .emptyFinalityPolicyVersion => "finality policy version must not be empty"
  | .finalityPolicyMismatch expected observed =>
    s!"finality policy mismatch: expected {expected}, observed {observed}"
  | .emptyChainId => "chain id must not be empty"
  | .missingRewardClaim blockHash => s!"block {blockHash} is missing its v3 reward claim"
  | .multipleRewardClaims blockHash => s!"block {blockHash} contains more than one reward claim"
  | .invalidRewardClaim message => "invalid v3 reward claim: " ++ message
  | .rewardClaimTxidMismatch expected observed =>
    s!"reward claim txid mismatch: expected {expected}, observed {observed}"
  | .rewardOverflow => "reward arithmetic overflow"
  | .supplyInvariantMismatch score expected observed =>
    (s!"authorized subsidy sum {observed} does not match scheduled supply {expected} at " ++
      s!"monetary score {score}")
  | .monetary error => error.display

/-- `char::is_whitespace`. -/
def isWhitespace (c : Char) : Bool :=
  let n := c.toNat
  (9 ≤ n && n ≤ 13) || n == 32 || n == 0x85 || n == 0xA0 || n == 0x1680 ||
    (0x2000 ≤ n && n ≤ 0x200A) || n == 0x2028 || n == 0x2029 || n == 0x202F || n == 0x205F ||
    n == 0x3000

/-- `value.trim().is_empty()`. -/
def isBlank (value : String) : Bool := value.toList.all isWhitespace

/-- `REWARD_CLAIM_WIRE_TRANSACTION_VERSION_V3`. -/
def rewardClaimWireTransactionVersionV3 : UInt32 := transactionVersionV2

/-- `validate_reward_claim_shape_v3`. -/
def validateRewardClaimShapeV3 (tx : Transaction) (chainId : String) :
    Except RewardSettlementV3Error Unit := do
  ensure (chainId ≠ "") .emptyChainId
  ensure (tx.version = rewardClaimWireTransactionVersionV3) (.invalidRewardClaim
    s!"transaction version must be {rewardClaimWireTransactionVersionV3}, got {tx.version}")
  ensure (tx.inputs = []) (.invalidRewardClaim "reward claim must have zero inputs")
  match tx.outputs with
  | [output] =>
    ensure (isBlank output.address = false)
      (.invalidRewardClaim "reward beneficiary must not be empty")
    ensure (output.amount = 0) (.invalidRewardClaim
      ("reward claim output amount must be zero; consensus derives the settled amount after " ++
        "finality"))
  | _ =>
    .error (.invalidRewardClaim "reward claim must have exactly one beneficiary output")
  ensure (tx.fee = 0) (.invalidRewardClaim "reward claim fee must be zero")

/-- `invalid_replay`. -/
def invalidReplay (message : String) : PulseError :=
  .nonDeterministicState ("v3 reward replay: " ++ message)

/-- `mature_reward_prefix_score_v3`: a binary search over the scores. -/
def matureRewardPrefixScoreV3 (currentScore : ℕ) (segments : List MonetaryCadenceSegment) :
    Except PulseError ℕ :=
  let reached := fun rewardScore =>
    Except.mapError (fun error => invalidReplay error.display)
      (economicMaturityReached rewardScore currentScore segments)
  if currentScore = 0 then pure 0
  else do
    if ← reached 1 then searchLast reached currentScore 1 currentScore else pure 0

section

variable [Crypto]

/-- `compute_reward_claim_txid_v3`. -/
def computeRewardClaimTxidV3 (tx : Transaction) (chainId : String) :
    Except RewardSettlementV3Error Hash := do
  validateRewardClaimShapeV3 tx chainId
  Except.mapError (fun error => .invalidRewardClaim error.display) (computeTxidV2 tx chainId)

/-- `validate_reward_claim_transaction_v3`. -/
def validateRewardClaimTransactionV3 (tx : Transaction) (chainId : String) :
    Except RewardSettlementV3Error Unit := do
  let expected ← computeRewardClaimTxidV3 tx chainId
  ensure (tx.txid = expected) (.rewardClaimTxidMismatch expected tx.txid)

/-- `settlement_outpoint_v3`. -/
def settlementOutpointV3 (chainId : String) (blockHash claimTxid : Hash) : OutPoint :=
  ⟨sha256Hex (encodeLenPrefixedStr "PulseDAG:reward-settlement-outpoint:v3" ++
    encodeLenPrefixedStr chainId ++ encodeLenPrefixedStr blockHash ++
    encodeLenPrefixedStr claimTxid), 0⟩

/-- The checks on a reward block that replay makes twice, when it replays the block and when
it settles its reward: the claim is valid and no other transaction is inputless. -/
def checkRewardBlock (block : Block) (chainId : String)
    (missingClaim invalidClaim inputless : String) : Except PulseError Transaction := do
  let claim ← okOr block.transactions.head? (invalidReplay missingClaim)
  Except.mapError (fun error => invalidReplay (invalidClaim ++ error.display))
    (validateRewardClaimTransactionV3 claim chainId)
  ensure (∀ tx ∈ block.transactions.drop 1, tx.inputs ≠ []) (invalidReplay inputless)
  pure claim

/-- `insert_reward_utxo`: the insertion that `apply_transaction` makes for each of its outputs. A
reward whose outpoint is taken changes nothing. -/
abbrev insertRewardUtxo (utxo : UtxoState) (reward : Utxo) : Except PulseError UtxoState :=
  addCoin utxo reward

/-- `materialize_reward_at_score`: the settled outpoint and the new state. -/
def materializeRewardAtScore (rebuilt source : ChainState) (ordered : OrderedDagV2)
    (rewardScore : ℕ) (eligibleFeesAtoms : UInt64) (segments : List MonetaryCadenceSegment) :
    Except PulseError (OutPoint × ChainState) := do
  let blockHash ← okOr ordered.blocks[rewardScore]?
    (invalidReplay s!"missing ordered reward score {rewardScore}")
  ensure (blockHash ≠ source.dag.genesisHash)
    (invalidReplay "genesis cannot materialize a mining reward")
  let block ← okOr source.dag.blocks[blockHash]?
    (invalidReplay s!"ordered reward block {blockHash} missing")
  let claim ← checkRewardBlock block source.chainId
    s!"reward block {blockHash} has no claim" s!"reward block {blockHash}: "
    s!"reward block {blockHash} contains an additional inputless transaction"
  let beneficiary ← okOr claim.outputs.head?
    (invalidReplay s!"reward block {blockHash} has no beneficiary")
  let subsidyAtoms ← Except.mapError (fun error => invalidReplay error.display)
    (subsidyAtomsForScore rewardScore segments)
  let amount ← okOr (checkedAdd subsidyAtoms eligibleFeesAtoms)
    (invalidReplay "reward settlement amount overflow")
  let outpoint := settlementOutpointV3 source.chainId blockHash claim.txid
  let utxo ← insertRewardUtxo rebuilt.utxo
    { outpoint := outpoint, address := beneficiary.address, amount := amount,
      coinbase := true, height := block.header.height }
  pure (outpoint, { rebuilt with utxo := utxo })

end

end PulseDag
