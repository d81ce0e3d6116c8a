import PulseDag.Legacy.Block
import PulseDag.Lib.CoinMap
import PulseDag.Lib.DistinctChecks

/-!
# Compact relay of blocks

`compact_relay_v1.rs`. A sender announces a block by its header and the ids of its transactions. The
receiver looks the transactions up, asks for the ones it does not have and puts the block together,
or falls back to asking for the whole block. Every check reads the clock anew.
-/

namespace PulseDag

/-! ## Messages -/

/-- `COMPACT_DAG_RELAY_VERSION_V1`. -/
def compactDagRelayVersionV1 : UInt16 := 1

/-- `COMPACT_RELAY_MAX_RESPONSE_PAYLOAD_BYTES_V1`. -/
def compactRelayMaxResponsePayloadBytesV1 : ℕ := 24 * 1024

/-- `P2P_WIRE_MAX_INVENTORY_ITEMS_V1`. -/
def p2pWireMaxInventoryItemsV1 : ℕ := 512

/-- `P2P_WIRE_MAX_REQUEST_ITEMS_V1`. -/
def p2pWireMaxRequestItemsV1 : ℕ := 64

/-- `CompactBlockAnnouncementV1`. -/
structure CompactBlockAnnouncementV1 where
  version : UInt16
  blockHash : Hash
  header : BlockHeader
  txids : List Hash

/-- `CompactTransactionRequestV1`. -/
structure CompactTransactionRequestV1 where
  version : UInt16
  blockHash : Hash
  txids : List Hash

/-- `CompactTransactionResponseV1`. -/
structure CompactTransactionResponseV1 where
  version : UInt16
  blockHash : Hash
  transactions : List Transaction

/-- `CompactRelayFallbackReasonV1`. -/
inductive CompactRelayFallbackReasonV1
  | missingTransactionFanoutExceeded
  | merkleRootMismatch
  deriving DecidableEq, Repr

/-- `CompactBlockReconstructionRequestStateV1`. -/
structure CompactBlockReconstructionRequestStateV1 where
  request : CompactTransactionRequestV1
  knownTransactions : TreeMap Hash Transaction

/-- `CompactBlockReconstructionPlanV1`. -/
inductive CompactBlockReconstructionPlanV1
  | complete (block : Block)
  | requestTransactions (state : CompactBlockReconstructionRequestStateV1)
  | fullBlockFallback (blockHash : Hash) (reason : CompactRelayFallbackReasonV1)

/-- `CompactRelayErrorV1`. An error of the core is kept where the source keeps its text. -/
inductive CompactRelayErrorV1
  | unsupportedVersion (version : UInt16)
  | unsupportedHeaderVersion (version : UInt32)
  | headerParentCountTooLarge (observed maximum : ℕ)
  | headerParentSetEmpty
  | emptyHeaderParent
  | duplicateHeaderParent (parent : Hash)
  | chainContextRequiredForHeaderVersion (version : UInt32)
  | invalidHeaderShape (error : PulseError)
  | zeroHeaderTimestamp
  | headerTimestampTooFarInFuture (observed maximum : UInt64)
  | invalidProofOfWork (message : String)
  | blockHashMismatch (expected observed : Hash)
  | emptyTransactionInventory
  | localBlockMerkleRootMismatch
  | transactionInventoryTooLarge (observed maximum : ℕ)
  | duplicateTransactionId (txid : Hash)
  | knownTransactionIdMismatch (requested observed : Hash)
  | responseBlockMismatch (expected observed : Hash)
  | responseCountMismatch (expected observed : ℕ)
  | responseTransactionMismatch (index : ℕ) (expected observed : Hash)

/-! ## Checks of a message -/

/-- `require_version`. -/
def requireVersion (version : UInt16) : Except CompactRelayErrorV1 Unit :=
  ensure (version = compactDagRelayVersionV1) (.unsupportedVersion version)

/-- A list of transaction ids that is not empty, not too long and without repetitions. -/
def checkTxids (txids : List Hash) (maximum : ℕ) : Except CompactRelayErrorV1 Unit := do
  ensure (txids ≠ []) .emptyTransactionInventory
  ensure (txids.length ≤ maximum) (.transactionInventoryTooLarge txids.length maximum)
  checkDistinct (fun _ => .ok ()) id .duplicateTransactionId [] txids

/-- `validate_txids`. -/
def validateTxids (txids : List Hash) : Except CompactRelayErrorV1 Unit :=
  checkTxids txids p2pWireMaxInventoryItemsV1

/-- `validate_compact_transaction_request_v1`. -/
def validateCompactTransactionRequestV1 (request : CompactTransactionRequestV1) :
    Except CompactRelayErrorV1 Unit := do
  requireVersion request.version
  checkTxids request.txids p2pWireMaxRequestItemsV1

/-- `validate_header_parents`. -/
def validateHeaderParents (header : BlockHeader) : Except CompactRelayErrorV1 Unit := do
  ensure (header.parents.length ≤ ghostdagV1MaxParents)
    (.headerParentCountTooLarge header.parents.length ghostdagV1MaxParents)
  ensure (header.parents ≠ []) .headerParentSetEmpty
  checkDistinct (fun parent => ensure (parent ≠ "") .emptyHeaderParent) id .duplicateHeaderParent []
    header.parents

/-- The chain that a version 2 header is read in. -/
def requireChainContext (chainId : Option String) (version : UInt32) :
    Except CompactRelayErrorV1 String :=
  okOr (chainId.filter (· ≠ "")) (.chainContextRequiredForHeaderVersion version)

/-- The name of a reason, as `Debug` prints it. -/
def PowRejectReason.debug : PowRejectReason → String
  | .parentCountTooLarge => "ParentCountTooLarge"
  | .parentHashTooLong => "ParentHashTooLong"
  | .merkleRootTooLong => "MerkleRootTooLong"
  | .stateRootTooLong => "StateRootTooLong"
  | .scoreAboveTarget => "ScoreAboveTarget"

section

variable [Crypto]

/-- `expected_block_hash`. -/
def expectedBlockHash (header : BlockHeader) (chainId : Option String) :
    Except CompactRelayErrorV1 Hash :=
  if header.version = blockHeaderVersionV1 then .ok (computeBlockHash header)
  else if header.version = blockHeaderVersionV2 then do
    let chainId ← requireChainContext chainId header.version
    Except.mapError .invalidHeaderShape (computeBlockHashV2 header chainId)
  else .error (.unsupportedHeaderVersion header.version)

/-- `validate_header_pow`. -/
def validateHeaderPow (header : BlockHeader) (chainId : Option String) :
    Except CompactRelayErrorV1 Unit :=
  if header.version = blockHeaderVersionV1 then
    Except.mapError (fun reason => .invalidProofOfWork reason.debug) (validatePowHeader header)
  else if header.version = blockHeaderVersionV2 then do
    let chainId ← requireChainContext chainId header.version
    let prePowBytes ← Except.mapError .invalidHeaderShape
      (canonicalBlockHeaderMaterialV2 header chainId false)
    ensure ((evaluateMaterialWithNonce prePowBytes header.nonce header.difficulty).comparison =
      .meetsTarget) (.invalidProofOfWork "pow hash is above target")
  else .error (.unsupportedHeaderVersion header.version)

/-- The latest timestamp that a clock admits. -/
def Clock.latest (clock : Clock) : UInt64 := saturatingAdd clock.now clock.maxFuture

/-- `validate_compact_block_announcement_shape_inner_v1`. -/
def validateAnnouncementShape (clock : Clock) (announcement : CompactBlockAnnouncementV1)
    (chainId : Option String) : Except CompactRelayErrorV1 Unit := do
  let header := announcement.header
  requireVersion announcement.version
  ensure (header.version = blockHeaderVersionV1 ∨ header.version = blockHeaderVersionV2)
    (.unsupportedHeaderVersion header.version)
  validateHeaderParents header
  ensure (header.timestamp ≠ 0) .zeroHeaderTimestamp
  ensure (header.timestamp ≤ clock.latest)
    (.headerTimestampTooFarInFuture header.timestamp clock.latest)
  validateTxids announcement.txids
  let expected ← expectedBlockHash header chainId
  ensure (announcement.blockHash = expected) (.blockHashMismatch expected announcement.blockHash)

/-- `validate_compact_block_announcement_inner_v1`. -/
def validateAnnouncement (clock : Clock) (announcement : CompactBlockAnnouncementV1)
    (chainId : Option String) : Except CompactRelayErrorV1 Unit := do
  validateAnnouncementShape clock announcement chainId
  validateHeaderPow announcement.header chainId

/-- `build_compact_block_announcement_inner_v1`. -/
def buildCompactBlockAnnouncement (clock : Clock) (block : Block) (chainId : Option String) :
    Except CompactRelayErrorV1 CompactBlockAnnouncementV1 := do
  let txids := block.transactions.map Transaction.txid
  validateTxids txids
  ensure (computeMerkleRoot block.transactions = block.header.merkleRoot)
    .localBlockMerkleRootMismatch
  let announcement := ⟨compactDagRelayVersionV1, block.hash, block.header, txids⟩
  validateAnnouncement clock announcement chainId
  pure announcement

end

/-! ## Planning -/

/-- `missing_known_transaction_ids`, over the ids that are left. -/
def missingKnownTransactionIds (known : TreeMap Hash Transaction) :
    List Hash → Except CompactRelayErrorV1 (List Hash)
  | [] => .ok []
  | txid :: rest =>
    match known[txid]? with
    | some transaction => do
      ensure (transaction.txid = txid) (.knownTransactionIdMismatch txid transaction.txid)
      missingKnownTransactionIds known rest
    | none => do
      let missing ← missingKnownTransactionIds known rest
      pure (txid :: missing)

/-- The plan once it is known which transactions are missing. -/
def planForMissing (announcement : CompactBlockAnnouncementV1) (known : TreeMap Hash Transaction)
    (missing : List Hash) : CompactBlockReconstructionPlanV1 :=
  if p2pWireMaxRequestItemsV1 < missing.length then
    .fullBlockFallback announcement.blockHash .missingTransactionFanoutExceeded
  else if missing ≠ [] then
    .requestTransactions
      { request := ⟨compactDagRelayVersionV1, announcement.blockHash, missing⟩
        knownTransactions := insertAll ∅
          (announcement.txids.filterMap fun txid => known[txid]?.map fun found => (txid, found)) }
  else
    .complete ⟨announcement.blockHash, announcement.header,
      announcement.txids.filterMap fun txid => known[txid]?⟩

/-- `plan_compact_block_reconstruction_inner_v1`. -/
def planCompactBlockReconstruction [Crypto] (clock : Clock)
    (announcement : CompactBlockAnnouncementV1)
    (known : TreeMap Hash Transaction) (chainId : Option String) :
    Except CompactRelayErrorV1 CompactBlockReconstructionPlanV1 := do
  validateAnnouncementShape clock announcement chainId
  if computeMerkleRootFromTxids announcement.txids ≠ announcement.header.merkleRoot then
    pure (.fullBlockFallback announcement.blockHash .merkleRootMismatch)
  else
    validateHeaderPow announcement.header chainId
    let missing ← missingKnownTransactionIds known announcement.txids
    pure (planForMissing announcement known missing)

/-! ## The answer -/

/-- The transactions for the ids that are left, or nothing if one is not available. -/
def collectTransactions (available : TreeMap Hash Transaction) :
    List Hash → Except CompactRelayErrorV1 (Option (List Transaction))
  | [] => .ok (some [])
  | txid :: rest =>
    match available[txid]? with
    | none => .ok none
    | some transaction => do
      ensure (transaction.txid = txid) (.knownTransactionIdMismatch txid transaction.txid)
      let others ← collectTransactions available rest
      pure (others.map (transaction :: ·))

/-- `build_compact_transaction_response_v1`. `encodedLength` is the length of the JSON text of a
response. -/
def buildCompactTransactionResponseV1 (encodedLength : CompactTransactionResponseV1 → ℕ)
    (request : CompactTransactionRequestV1) (available : TreeMap Hash Transaction) :
    Except CompactRelayErrorV1 (Option CompactTransactionResponseV1) := do
  validateCompactTransactionRequestV1 request
  let transactions ← collectTransactions available request.txids
  let response := transactions.map (⟨compactDagRelayVersionV1, request.blockHash, ·⟩)
  pure (response.filter fun response =>
    encodedLength response ≤ compactRelayMaxResponsePayloadBytesV1)

/-- The loop that compares the transactions of a response with the ids asked for. -/
def checkResponseTxids (index : ℕ) :
    List (Hash × Transaction) → Except CompactRelayErrorV1 Unit
  | [] => .ok ()
  | (expected, transaction) :: rest => do
    ensure (transaction.txid = expected)
      (.responseTransactionMismatch index expected transaction.txid)
    checkResponseTxids (index + 1) rest

/-- `complete_compact_block_reconstruction_inner_v1`. It reads the clock again for the plan. -/
def completeCompactBlockReconstruction [Crypto] (clock again : Clock)
    (announcement : CompactBlockAnnouncementV1) (state : CompactBlockReconstructionRequestStateV1)
    (response : CompactTransactionResponseV1) (chainId : Option String) :
    Except CompactRelayErrorV1 CompactBlockReconstructionPlanV1 := do
  validateAnnouncementShape clock announcement chainId
  validateCompactTransactionRequestV1 state.request
  requireVersion response.version
  ensure (state.request.blockHash = announcement.blockHash)
    (.responseBlockMismatch announcement.blockHash state.request.blockHash)
  ensure (response.blockHash = state.request.blockHash)
    (.responseBlockMismatch state.request.blockHash response.blockHash)
  ensure (response.transactions.length = state.request.txids.length)
    (.responseCountMismatch state.request.txids.length response.transactions.length)
  checkResponseTxids 0 (state.request.txids.zip response.transactions)
  planCompactBlockReconstruction again announcement
    (insertAll state.knownTransactions (state.request.txids.zip response.transactions)) chainId

end PulseDag
