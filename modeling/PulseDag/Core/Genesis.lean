import PulseDag.Core.State

/-!
# Genesis states

The three genesis kinds of `genesis.rs`, `genesis_v2.rs` and `genesis_v3.rs`, and the
protocol identity of `protocol.rs`. The version 1 and 2 kinds allocate the treasury;
the version 3 kind allocates nothing and freezes a timestamp.
-/

namespace PulseDag

/-- `retarget::CONSENSUS_POW_LIMIT_BITS`. -/
def consensusPowLimitBits : UInt32 := 0x207fffff

/-- `GENESIS_TREASURY`. -/
def genesisTreasury : Address := "genesis-treasury"

/-- `GENESIS_SUPPLY`. -/
def genesisSupply : UInt64 := 1000000000

/-- `ghostdag::DEFAULT_MERGE_SET_K`. -/
def defaultMergeSetK : ℕ := 2

/-- `ordering::DAG_ORDERING_VERSION`. -/
def dagOrderingVersion : String := "selected-chain-merge-set-v1"

/-- `ordering_v2::GHOSTDAG_V1_ORDERING_VERSION`. -/
def ghostdagV1OrderingVersion : String := "ghostdag-v1-topological-v1"

/-- The transaction that allocates the treasury, before it has an id. -/
def unidentifiedGenesisTransaction (version : UInt32) : Transaction where
  txid := ""
  version := version
  inputs := []
  outputs := [⟨genesisTreasury, genesisSupply⟩]
  fee := 0
  nonce := 0

/-- The ledger that holds the treasury output alone, as all constructors of version 1
and 2 build it (`genesis_utxo_state_v2` in `genesis_v2.rs`). -/
def genesisUtxoState (tx : Transaction) : UtxoState where
  utxos := (∅ : TreeMap OutPoint Utxo).insert ⟨tx.txid, 0⟩
    { outpoint := ⟨tx.txid, 0⟩, address := genesisTreasury, amount := genesisSupply,
      coinbase := false, height := 0 }
  addressIndex := (∅ : TreeMap Address (List OutPoint)).insert genesisTreasury [⟨tx.txid, 0⟩]

/-- The header of a genesis block. -/
def genesisHeader (version : UInt32) (timestamp : UInt64) (merkleRoot stateRoot : Hash) :
    BlockHeader where
  version := version
  parents := []
  timestamp := timestamp
  difficulty := consensusPowLimitBits
  nonce := 0
  merkleRoot := merkleRoot
  stateRoot := stateRoot
  blueScore := 0
  height := 0

section

variable [Crypto]

/-- `genesis_transaction`. -/
def genesisTransaction : Transaction :=
  let tx := unidentifiedGenesisTransaction transactionVersionV1
  { tx with txid := computeTxid tx }

/-- `genesis_block`. The state root of the treasury ledger always exists
(`genesisUtxoState_computeStateRoot`), so the default text is never used. -/
def genesisBlock : Block :=
  let txs := [genesisTransaction]
  let stateRoot := (genesisUtxoState genesisTransaction).computeStateRoot.toOption.getD ""
  let header := genesisHeader 1 0 (computeMerkleRoot txs) stateRoot
  { hash := computeBlockHash header, header := header, transactions := txs }

/-- `init_chain_state`. -/
def initChainState (chainId : String) : ChainState where
  chainId := chainId
  dag :=
    { blocks := (∅ : TreeMap Hash Block).insert genesisBlock.hash genesisBlock
      tips := (∅ : TreeSet Hash).insert genesisBlock.hash
      children := ∅
      genesisHash := genesisBlock.hash
      bestHeight := 0
      consensusMode := .legacy
      selectedParents := (∅ : TreeMap Hash (Option Hash)).insert genesisBlock.hash none
      selectedChain := [genesisBlock.hash]
      selectedParentPolicy := .legacyTip
      mergeSetK := defaultMergeSetK
      mergeSetBlues := ∅
      mergeSetReds := ∅
      blueWork := (∅ : TreeMap Hash ℕ).insert genesisBlock.hash 0
      mergeSetDiagnostics := ∅
      orderedDag := [genesisBlock.hash]
      orderingVersion := dagOrderingVersion
      orderedDagRebuildTotal := 0
      orderedDagRebuildFailedTotal := 0
      orderedDagStateRoot := none
      orderedDagTip := some genesisBlock.hash
      orderedDagConflictDiagnostics := [] }
  utxo := genesisUtxoState genesisTransaction

/-- The field replacements that `init_chain_state_v2` and `init_chain_state_v3` both
make on the state of `init_chain_state`. -/
def cleanChainState (chainId : String) (genesis : Block) (utxo : UtxoState) (stateRoot : Hash) :
    ChainState :=
  { initChainState chainId with
    dag :=
      { blocks := (∅ : TreeMap Hash Block).insert genesis.hash genesis
        tips := (∅ : TreeSet Hash).insert genesis.hash
        children := ∅
        genesisHash := genesis.hash
        bestHeight := 0
        consensusMode := .legacy
        selectedParents := (∅ : TreeMap Hash (Option Hash)).insert genesis.hash none
        selectedChain := [genesis.hash]
        selectedParentPolicy := .ghostdagInspired
        mergeSetK := defaultMergeSetK
        mergeSetBlues := (∅ : TreeMap Hash (List Hash)).insert genesis.hash []
        mergeSetReds := (∅ : TreeMap Hash (List Hash)).insert genesis.hash []
        blueWork := (∅ : TreeMap Hash ℕ).insert genesis.hash 0
        mergeSetDiagnostics := ∅
        orderedDag := [genesis.hash]
        orderingVersion := ghostdagV1OrderingVersion
        orderedDagRebuildTotal := 0
        orderedDagRebuildFailedTotal := 0
        orderedDagStateRoot := some stateRoot
        orderedDagTip := some genesis.hash
        orderedDagConflictDiagnostics := [] }
    utxo := utxo
    mempool := {} }

/-- `genesis_transaction_v2`. -/
def genesisTransactionV2 (chainId : String) : Except PulseError Transaction := do
  ensure (chainId ≠ "") .chainIdMismatch
  let tx := unidentifiedGenesisTransaction transactionVersionV2
  let txid ← computeTxidV2 tx chainId
  pure { tx with txid := txid }

/-- `genesis_block_v2`. -/
def genesisBlockV2 (chainId : String) : Except PulseError Block := do
  let tx ← genesisTransactionV2 chainId
  let stateRoot ← (genesisUtxoState tx).computeStateRoot
  let header := genesisHeader blockHeaderVersionV2 0 (computeMerkleRoot [tx]) stateRoot
  let hash ← computeBlockHashV2 header chainId
  pure { hash := hash, header := header, transactions := [tx] }

/-- `init_chain_state_v2`. The first transaction of the genesis block is the genesis
transaction. -/
def initChainStateV2 (chainId : String) : Except PulseError ChainState := do
  let genesis ← genesisBlockV2 chainId
  let tx ← genesisTransactionV2 chainId
  let utxo := genesisUtxoState tx
  let stateRoot ← utxo.computeStateRoot
  pure (cleanChainState chainId genesis utxo stateRoot)

/-- `genesis_block_v3`. -/
def genesisBlockV3 (chainId : String) (frozenTimestamp : UInt64) : Except PulseError Block := do
  ensure (chainId ≠ "") .chainIdMismatch
  ensure (frozenTimestamp ≠ 0)
    (.invalidBlock "v3 genesis timestamp must be explicitly frozen and non-zero")
  let stateRoot ← UtxoState.empty.computeStateRoot
  let header := genesisHeader blockHeaderVersionV2 frozenTimestamp (computeMerkleRoot []) stateRoot
  let hash ← computeBlockHashV2 header chainId
  pure { hash := hash, header := header, transactions := [] }

/-- `init_chain_state_v3`. -/
def initChainStateV3 (chainId : String) (frozenTimestamp : UInt64) :
    Except PulseError ChainState := do
  let genesis ← genesisBlockV3 chainId frozenTimestamp
  let stateRoot ← UtxoState.empty.computeStateRoot
  pure (cleanChainState chainId genesis UtxoState.empty stateRoot)

end

/-- `ProtocolConsensusMode`. -/
inductive ProtocolConsensusMode
  | legacy
  | ghostdagDev
  | ghostdagV1
  deriving DecidableEq, Repr

/-- `ProtocolActivationIdentity`. -/
structure ProtocolActivationIdentity where
  chainId : String
  genesisHash : String
  transactionProtocolVersion : UInt32
  blockHeaderProtocolVersion : UInt32
  consensusMode : ProtocolConsensusMode
  dagOrderingVersion : String
  deriving DecidableEq, Repr

/-- `ProtocolActivationIdentity::activated_v2`. -/
def ProtocolActivationIdentity.activatedV2 (chainId genesisHash dagOrderingVersion : String) :
    ProtocolActivationIdentity where
  chainId := chainId
  genesisHash := genesisHash
  transactionProtocolVersion := transactionVersionV2
  blockHeaderProtocolVersion := blockHeaderVersionV2
  consensusMode := .ghostdagV1
  dagOrderingVersion := dagOrderingVersion

/-- `ProtocolActivationIdentity::validate`. -/
def ProtocolActivationIdentity.validate (identity : ProtocolActivationIdentity) :
    Except String Unit := do
  ensure (identity.chainId ≠ "") "protocol identity chain_id must not be empty"
  ensure (identity.genesisHash ≠ "") "protocol identity genesis_hash must not be empty"
  ensure (identity.transactionProtocolVersion ≠ 0) "transaction protocol version must be non-zero"
  ensure (identity.blockHeaderProtocolVersion ≠ 0)
    "block-header protocol version must be non-zero"
  ensure (identity.dagOrderingVersion ≠ "") "DAG ordering version must not be empty"

/-- A ledger with one output under its own address passes the index checks. -/
theorem genesisUtxoState_validateDeterministicIndexes (tx : Transaction) :
    (genesisUtxoState tx).validateDeterministicIndexes = .ok () := by
  have hindex : indexAddressOutpoints genesisTreasury [⟨tx.txid, 0⟩] ∅ ∅ =
      .ok ((∅ : TreeMap OutPoint Address).insert ⟨tx.txid, 0⟩ genesisTreasury) := by
    simp [indexAddressOutpoints, ensure]
  simp [UtxoState.validateDeterministicIndexes, genesisUtxoState, hindex, checkIndexedUtxo, ensure]

end PulseDag
