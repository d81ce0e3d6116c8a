import PulseDag.Core.Errors
import PulseDag.Lib.Except

/-!
# Canonical serialisations and identities

Transactions, headers and Merkle trees are hashed through the byte layouts of
`tx.rs`, `types.rs` and `header_v2.rs`. The version 1 layouts carry no chain id; the
version 2 layouts start with it.
-/

namespace PulseDag

/-- `canonical_outpoint_bytes`. -/
def canonicalOutpointBytes (outpoint : OutPoint) : List UInt8 :=
  encodeLenPrefixedStr outpoint.txid ++ u32LeBytes outpoint.index

/-- `canonical_tx_input_bytes`. -/
def canonicalTxInputBytes (input : TxInput) : List UInt8 :=
  canonicalOutpointBytes input.previousOutput ++ encodeLenPrefixedStr input.publicKey ++
    encodeLenPrefixedStr input.signature

/-- `canonical_tx_output_bytes`. -/
def canonicalTxOutputBytes (output : TxOutput) : List UInt8 :=
  encodeLenPrefixedStr output.address ++ u64LeBytes output.amount

/-- The part of a transaction after its domain: version, inputs as `encodeInput` writes
them, outputs, fee and nonce. The four layouts of `tx.rs` differ only in the rest. -/
def transactionBodyBytes (encodeInput : TxInput → List UInt8) (tx : Transaction) : List UInt8 :=
  u32LeBytes tx.version ++
    lenPrefix tx.inputs.length ++ tx.inputs.flatMap encodeInput ++
    lenPrefix tx.outputs.length ++ tx.outputs.flatMap canonicalTxOutputBytes ++
    u64LeBytes tx.fee ++ u64LeBytes tx.nonce

/-- An input as it is signed: without its signature. -/
def unsignedTxInputBytes (input : TxInput) : List UInt8 :=
  canonicalOutpointBytes input.previousOutput ++ encodeLenPrefixedStr input.publicKey

/-- `canonical_unsigned_transaction_bytes`. -/
def canonicalUnsignedTransactionBytes (tx : Transaction) : List UInt8 :=
  encodeLenPrefixedStr "PulseDAG:unsigned-tx:v1" ++ transactionBodyBytes unsignedTxInputBytes tx

/-- `canonical_transaction_bytes`. -/
def canonicalTransactionBytes (tx : Transaction) : List UInt8 :=
  encodeLenPrefixedStr "PulseDAG:tx:v1" ++ transactionBodyBytes canonicalTxInputBytes tx

/-- `validate_v2_domain`. -/
def validateV2Domain (tx : Transaction) (chainId : String) : Except PulseError Unit := do
  ensure (tx.version = transactionVersionV2) (.invalidTransaction
    s!"transaction/signing v2 requires version {transactionVersionV2}, got {tx.version}")
  ensure (chainId ≠ "") .chainIdMismatch

/-- `canonical_unsigned_transaction_bytes_v2`, the message a version 2 input signs. -/
def canonicalUnsignedTransactionBytesV2 (tx : Transaction) (chainId : String) :
    Except PulseError (List UInt8) := do
  validateV2Domain tx chainId
  pure (encodeLenPrefixedStr "PulseDAG:unsigned-tx:v2" ++ encodeLenPrefixedStr chainId ++
    transactionBodyBytes unsignedTxInputBytes tx)

/-- `canonical_transaction_bytes_v2`. -/
def canonicalTransactionBytesV2 (tx : Transaction) (chainId : String) :
    Except PulseError (List UInt8) := do
  validateV2Domain tx chainId
  pure (encodeLenPrefixedStr "PulseDAG:tx:v2" ++ encodeLenPrefixedStr chainId ++
    transactionBodyBytes canonicalTxInputBytes tx)

/-- `canonicalize_block_parents_v2`: bounded, non-empty, sorted and unique parents. -/
def canonicalizeBlockParentsV2 (parents : List Hash) : Except PulseError (List Hash) := do
  ensure (parents.length ≤ ghostdagV1MaxParents) (.invalidBlock
    s!"header v2 parent count {parents.length} exceeds maximum {ghostdagV1MaxParents}")
  ensure (∀ parent ∈ parents, parent ≠ "") (.invalidBlock "header v2 parent hash must not be empty")
  let canonical := parents.insertionSort (· ≤ ·)
  ensure (canonical.IsChain (· ≠ ·)) (.invalidBlock "header v2 parent hashes must be unique")
  pure canonical

/-- `validate_block_header_v2_shape`. -/
def validateBlockHeaderV2Shape (header : BlockHeader) (chainId : String) :
    Except PulseError Unit := do
  ensure (header.version = blockHeaderVersionV2) (.invalidBlock
    s!"block header v2 serialization requires version {blockHeaderVersionV2}, got {header.version}")
  ensure (chainId ≠ "") .chainIdMismatch
  let canonicalParents ← canonicalizeBlockParentsV2 header.parents
  ensure (header.height = 0 ∨ canonicalParents ≠ [])
    (.invalidBlock "non-genesis header v2 requires at least one parent")
  ensure (canonicalParents = header.parents)
    (.invalidBlock "header v2 parent vector is not in canonical ascending order")

/-- `canonical_block_header_bytes`, the version 1 header layout. -/
def canonicalBlockHeaderBytes (header : BlockHeader) : List UInt8 :=
  encodeLenPrefixedStr "PulseDAG:block-header:v1" ++ u32LeBytes header.version ++
    lenPrefix header.parents.length ++ header.parents.flatMap encodeLenPrefixedStr ++
    u64LeBytes header.timestamp ++ u32LeBytes header.difficulty ++ u64LeBytes header.nonce ++
    encodeLenPrefixedStr header.merkleRoot ++ encodeLenPrefixedStr header.stateRoot ++
    u64LeBytes header.blueScore ++ u64LeBytes header.height

/-- `canonical_block_header_material_v2`: the mining preimage leaves the nonce out. -/
def canonicalBlockHeaderMaterialV2 (header : BlockHeader) (chainId : String)
    (includeNonce : Bool) : Except PulseError (List UInt8) := do
  validateBlockHeaderV2Shape header chainId
  pure (encodeLenPrefixedStr "PulseDAG:block-header:v2" ++ encodeLenPrefixedStr chainId ++
    u32LeBytes header.version ++
    lenPrefix header.parents.length ++ header.parents.flatMap encodeLenPrefixedStr ++
    u64LeBytes header.timestamp ++ u32LeBytes header.difficulty ++
    (if includeNonce then u64LeBytes header.nonce else []) ++
    encodeLenPrefixedStr header.merkleRoot ++ encodeLenPrefixedStr header.stateRoot ++
    u64LeBytes header.blueScore ++ u64LeBytes header.height)

section

variable [Crypto]

/-- `compute_txid`. -/
def computeTxid (tx : Transaction) : Hash := sha256Hex (canonicalTransactionBytes tx)

/-- `compute_txid_v2`. -/
def computeTxidV2 (tx : Transaction) (chainId : String) : Except PulseError Hash := do
  let bytes ← canonicalTransactionBytesV2 tx chainId
  pure (sha256Hex bytes)

/-- `compute_block_hash`. -/
def computeBlockHash (header : BlockHeader) : Hash :=
  sha256Hex (canonicalBlockHeaderBytes header)

/-- `compute_block_hash_v2`. -/
def computeBlockHashV2 (header : BlockHeader) (chainId : String) : Except PulseError Hash := do
  let bytes ← canonicalBlockHeaderMaterialV2 header chainId true
  pure (sha256Hex bytes)

/-- `address_from_public_key`. -/
def addressFromPublicKey (publicKeyHex : String) : Address :=
  "pulse1" ++ hexEncode ((Crypto.sha256 (asBytes publicKeyHex)).take 20)

/-- `merkle_leaf`: a 32-byte hexadecimal id is hashed as bytes, any other id as text. -/
def merkleLeaf (txid : Hash) : List UInt8 :=
  Crypto.sha256 (asBytes "PulseDAG:merkle-leaf:v1" ++
    match hexDecode txid with
    | some bytes => if bytes.length = 32 then bytes else asBytes txid
    | none => asBytes txid)

/-- `merkle_parent`. -/
def merkleParent (left right : List UInt8) : List UInt8 :=
  Crypto.sha256 (asBytes "PulseDAG:merkle-node:v1" ++ left ++ right)

/-- One level of the tree; an odd last node is paired with itself. -/
def merkleNextLevel : List (List UInt8) → List (List UInt8)
  | [] => []
  | [last] => [merkleParent last last]
  | left :: right :: rest => merkleParent left right :: merkleNextLevel rest

/-- Halve the level until one node is left. The fuel is the number of nodes, and a level
of two or more nodes shrinks at every step. -/
def merkleReduce : ℕ → List (List UInt8) → List UInt8
  | 0, level => level.headD []
  | fuel + 1, level =>
    if level.length > 1 then merkleReduce fuel (merkleNextLevel level) else level.headD []

/-- `compute_merkle_root_from_txids`. -/
def computeMerkleRootFromTxids (txids : List Hash) : Hash :=
  if txids.isEmpty then sha256Hex (asBytes "PulseDAG:merkle-empty:v1")
  else hexEncode (merkleReduce txids.length (txids.map merkleLeaf))

/-- `compute_merkle_root`. -/
def computeMerkleRoot (transactions : List Transaction) : Hash :=
  computeMerkleRootFromTxids (transactions.map Transaction.txid)

end

end PulseDag
