import PulseDag.Core.Encoding
import PulseDag.Lib.Collections
import PulseDag.Lib.Words

/-!
# The chain state

The records of `state.rs`. Hash maps and hash sets are extensional tree maps and
sets, so two maps with the same entries are equal and an iteration runs in key
order; no function below depends on the iteration order of a hash map except for the
choice of which of several errors is reported. The contract runtime state is left
out: nothing modelled here reads it.
-/

namespace PulseDag

/-- The largest `u128`. -/
def u128Max : ℕ := 2 ^ 128 - 1

/-- `ConsensusMode`. -/
inductive ConsensusMode
  | legacy
  | ghostdagDev
  deriving DecidableEq, Repr

/-- `SelectedParentPolicy`. -/
inductive SelectedParentPolicy
  | ghostdagInspired
  | legacyTip
  deriving DecidableEq, Repr

/-- `ghostdag::MergeSetDiagnostics`. -/
structure MergeSetDiagnostics where
  selectedParent : Option Hash
  blueScore : UInt64
  mergeSetSize : ℕ
  mergeSetBluesCount : ℕ
  mergeSetRedsCount : ℕ
  deriving DecidableEq, Repr

/-- The block DAG with its GHOSTDAG metadata and the last recorded canonical order.
Blue work is a `u128`. -/
structure DagState where
  blocks : TreeMap Hash Block
  tips : TreeSet Hash
  children : TreeMap Hash (List Hash)
  genesisHash : Hash
  bestHeight : UInt64
  consensusMode : ConsensusMode
  selectedParents : TreeMap Hash (Option Hash)
  selectedChain : List Hash
  selectedParentPolicy : SelectedParentPolicy
  mergeSetK : ℕ
  mergeSetBlues : TreeMap Hash (List Hash)
  mergeSetReds : TreeMap Hash (List Hash)
  blueWork : TreeMap Hash ℕ
  mergeSetDiagnostics : TreeMap Hash MergeSetDiagnostics
  orderedDag : List Hash
  orderingVersion : String
  orderedDagRebuildTotal : UInt64
  orderedDagRebuildFailedTotal : UInt64
  orderedDagStateRoot : Option Hash
  orderedDagTip : Option Hash
  orderedDagConflictDiagnostics : List String

/-- The unspent outputs and the index from addresses to their outpoints. -/
structure UtxoState where
  utxos : TreeMap OutPoint Utxo
  addressIndex : TreeMap Address (List OutPoint)

/-- `UtxoState::default`. -/
def UtxoState.empty : UtxoState := ⟨∅, ∅⟩

/-- `MempoolCounters`. -/
structure MempoolCounters where
  acceptedTotal : UInt64 := 0
  rejectedTotal : UInt64 := 0
  rejectedLowPriorityTotal : UInt64 := 0
  evictedTotal : UInt64 := 0
  pressureEventsTotal : UInt64 := 0
  reconcileRunsTotal : UInt64 := 0
  reconcileRemovedTotal : UInt64 := 0
  confirmedRemovedTotal : UInt64 := 0
  orphanedTotal : UInt64 := 0
  orphanPromotedTotal : UInt64 := 0
  orphanDroppedTotal : UInt64 := 0
  orphanPrunedTotal : UInt64 := 0
  deriving DecidableEq, Repr

/-- The transactions waiting for a block; the defaults are those of `Mempool::default`. -/
structure Mempool where
  transactions : TreeMap Hash Transaction := ∅
  spentOutpoints : TreeSet OutPoint := ∅
  firstSeen : TreeMap Hash UInt64 := ∅
  nextFirstSeen : UInt64 := 0
  admissionHeight : TreeMap Hash UInt64 := ∅
  orphanAdmissionHeight : TreeMap Hash UInt64 := ∅
  orphanTransactions : TreeMap Hash Transaction := ∅
  orphanMissingOutpoints : TreeMap Hash (List OutPoint) := ∅
  orphanReceivedOrder : TreeMap Hash UInt64 := ∅
  nextOrphanOrder : UInt64 := 0
  counters : MempoolCounters := {}
  maxTransactions : ℕ := 4096
  maxSpentOutpoints : ℕ := 8192
  maxOrphans : ℕ := 512

/-- The state of a node. The last block of fields counts accepted commits and names
their sources; the defaults are those of a new chain. -/
structure ChainState where
  chainId : String
  dag : DagState
  utxo : UtxoState
  mempool : Mempool := {}
  orphanBlocks : TreeMap Hash Block := ∅
  orphanMissingParents : TreeMap Hash (List Hash) := ∅
  orphanParentIndex : TreeMap Hash (TreeSet Hash) := ∅
  orphanReceivedAtMs : TreeMap Hash UInt64 := ∅
  chainStateGeneration : UInt64 := 0
  acceptedCommitGenerationConflictTotal : UInt64 := 0
  acceptedCommitReprepareTotal : UInt64 := 0
  acceptedCommitSerializedTotal : UInt64 := 0
  acceptedCommitPublishMismatchTotal : UInt64 := 0
  acceptedCommitLastHash : Option Hash := none
  acceptedCommitLastSource : Option String := none
  chainStateMutationGeneration : UInt64 := 0
  chainStateMutationSource : Option String := none
  chainStateMutationConflictTotal : UInt64 := 0
  chainStateReprepareTotal : UInt64 := 0
  acceptedHashLostFromMemoryTotal : UInt64 := 0

/-- `outpoint_label`. -/
def outpointLabel (outpoint : OutPoint) : String := s!"{outpoint.txid}:{outpoint.index}"

/-- The first loop of `validate_deterministic_indexes` for one address: every outpoint
is listed once under the address and under no other address. -/
def indexAddressOutpoints (address : Address) :
    List OutPoint → TreeSet OutPoint → TreeMap OutPoint Address →
      Except PulseError (TreeMap OutPoint Address)
  | [], _, indexed => .ok indexed
  | outpoint :: rest, seenForAddress, indexed => do
    ensure (outpoint ∉ seenForAddress) (.nonDeterministicState
      s!"duplicate address index entry {outpointLabel outpoint} for address {address}")
    ensure (outpoint ∉ indexed) (.nonDeterministicState
      s!"outpoint {outpointLabel outpoint} appears under multiple addresses")
    indexAddressOutpoints address rest (seenForAddress.insert outpoint)
      (indexed.insert outpoint address)

/-- The second loop of `validate_deterministic_indexes` for one entry. -/
def checkIndexedUtxo (indexed : TreeMap OutPoint Address) (entry : OutPoint × Utxo) :
    Except PulseError Unit := do
  ensure (entry.2.outpoint = entry.1) (.nonDeterministicState
    (s!"utxo key {outpointLabel entry.1} does not match embedded outpoint " ++
      s!"{outpointLabel entry.2.outpoint}"))
  match indexed[entry.1]? with
  | some address =>
    ensure (address = entry.2.address) (.nonDeterministicState
      s!"address index maps {outpointLabel entry.1} to {address}, expected {entry.2.address}")
  | none =>
    .error (.nonDeterministicState s!"missing address index entry for {outpointLabel entry.1}")

/-- `UtxoState::validate_deterministic_indexes`. -/
def UtxoState.validateDeterministicIndexes (state : UtxoState) : Except PulseError Unit := do
  let indexed ← state.addressIndex.toList.foldlM
    (fun indexed entry => indexAddressOutpoints entry.1 entry.2 ∅ indexed)
    (∅ : TreeMap OutPoint Address)
  state.utxos.toList.forM (checkIndexedUtxo indexed)
  indexed.keys.forM fun outpoint =>
    ensure (outpoint ∈ state.utxos) (.nonDeterministicState
      s!"address index references missing outpoint {outpointLabel outpoint}")

/-- The bytes of one unspent output in the state root. -/
def utxoRootBytes (entry : OutPoint × Utxo) : List UInt8 :=
  encodeLenPrefixedStr entry.1.txid ++ u32LeBytes entry.1.index ++
    encodeLenPrefixedStr entry.2.address ++ u64LeBytes entry.2.amount ++
    [if entry.2.coinbase then 1 else 0] ++ u64LeBytes entry.2.height

/-- `UtxoState::compute_state_root`. -/
def UtxoState.computeStateRoot [Crypto] (state : UtxoState) : Except PulseError Hash := do
  state.validateDeterministicIndexes
  pure (sha256Hex (encodeLenPrefixedStr "PulseDAG:utxo-state-root:v1" ++
    leBytes 8 state.utxos.size ++ state.utxos.toList.flatMap utxoRootBytes))

end PulseDag
