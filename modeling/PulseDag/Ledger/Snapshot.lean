import PulseDag.Ledger.ReplayV2
import PulseDag.Ledger.ReplayV3
import PulseDag.Ledger.Supply

/-!
# Materialized snapshots

`materialize_authoritative_state_v2` and `_v3` fill the ledger and the ordering fields of a state
from a replay, and `verify_authoritative_state_snapshot_v2` and `_v3` replay again and compare. The
order and the replay read the stored blocks, the classification and the settings of a state, and
none of the fields that are filled. So a materialized state replays as its source did: it verifies,
and materializing it again changes nothing.
-/

namespace PulseDag

/-! ## Verification -/

/-- `compact_pruned_checkpoint_floor`. -/
def compactPrunedCheckpointFloor (state : ChainState) : Option UInt64 :=
  if state.dag.blocks.isEmpty = true ∨ state.dag.genesisHash ∈ state.dag.blocks then none
  else if retainedFloor state > 0 then some (retainedFloor state) else none

/-- `str::strip_prefix`. -/
def stripPrefix? (start : String) (text : List Char) : Option String :=
  if start.toList.isPrefixOf text then some (String.ofList (text.drop start.toList.length)) else
    none

/-- `conflict_diagnostic_block_hash`. -/
def conflictDiagnosticBlockHash (entry : String) : Option String :=
  ((entry.toList.splitOnP isWhitespace).filter (· ≠ [])).findSome? (stripPrefix? "block=")

/-- The parents of the blocks above the floor must be stored. -/
def checkRetainedParents (state : ChainState) (floor : UInt64) : Except PulseError Unit :=
  state.dag.blocks.toList.forM fun entry => entry.2.header.parents.forM fun parent =>
    ensure (parent ∈ state.dag.blocks ∨ entry.2.header.height = floor) (.nonDeterministicState
      (s!"v2.4 compact checkpoint block {entry.2.hash} at height {entry.2.header.height} " ++
        s!"references missing parent {parent} above retained floor {floor}"))

/-- Every recorded conflict must name a stored block. -/
def checkConflictDiagnostics (state : ChainState) : Except PulseError Unit :=
  state.dag.orderedDagConflictDiagnostics.forM fun entry => do
    let blockHash ← okOr (conflictDiagnosticBlockHash entry) (.nonDeterministicState
      "v2.4 compact checkpoint conflict diagnostic is missing block identity")
    ensure (blockHash ∈ state.dag.blocks) (.nonDeterministicState
      ("v2.4 compact checkpoint conflict diagnostic references pruned or unknown block " ++
        s!"{blockHash}"))

section

variable [Crypto]

/-- `verify_compact_pruned_authoritative_checkpoint_v2`. -/
def verifyCompactPrunedAuthoritativeCheckpointV2 (state : ChainState) (floor : UInt64) :
    Except PulseError StateReplayV2Diagnostics := do
  ensure (state.dag.orderingVersion = ghostdagV1OrderingVersion) (.nonDeterministicState
    (s!"v2.4 compact checkpoint ordering version {state.dag.orderingVersion} does not match " ++
      s!"{ghostdagV1OrderingVersion}"))
  checkRetainedParents state floor
  let orderedDag ← Except.mapError (fun error => .nonDeterministicState
      ("v2.4 compact checkpoint authoritative ordering unavailable: " ++ error.debug))
    (deriveOrderedDagV2 state)
  ensure (state.dag.orderedDag = orderedDag.blocks) (.nonDeterministicState
    "v2.4 compact checkpoint ordered DAG does not match retained authoritative recomputation")
  ensure (state.dag.orderedDagTip = orderedDag.blocks.getLast?) (.nonDeterministicState
    "v2.4 compact checkpoint ordered DAG tip does not match retained authoritative recomputation")
  let observedStateRoot ← state.utxo.computeStateRoot
  ensure (state.dag.orderedDagStateRoot = some observedStateRoot) (.nonDeterministicState
    "v2.4 compact checkpoint recorded state root does not match persisted UTXO checkpoint")
  checkConflictDiagnostics state
  pure
    { appliedTransactions := 0
      skippedConflictingTransactions := state.dag.orderedDagConflictDiagnostics.length
      conflictDiagnostics := state.dag.orderedDagConflictDiagnostics
      stateRoot := observedStateRoot
      orderedDagTip := orderedDag.blocks.getLast?
      orderedDagDigest := orderedDag.digest }

/-- `verify_authoritative_state_snapshot_v2`. -/
def verifyAuthoritativeStateSnapshotV2 (state : ChainState) :
    Except PulseError StateReplayV2Diagnostics :=
  match compactPrunedCheckpointFloor state with
  | some floor => verifyCompactPrunedAuthoritativeCheckpointV2 state floor
  | none => do
    let replay ← rebuildAuthoritativeStateV2 state
    let observedStateRoot ← state.utxo.computeStateRoot
    ensure (state.dag.orderingVersion = ghostdagV1OrderingVersion) (.nonDeterministicState
      (s!"v2.4 snapshot ordering version {state.dag.orderingVersion} does not match " ++
        s!"{ghostdagV1OrderingVersion}"))
    ensure (state.dag.orderedDag = replay.orderedDag.blocks) (.nonDeterministicState
      "v2.4 snapshot ordered DAG does not match authoritative recomputation")
    ensure (state.dag.orderedDagTip = replay.diagnostics.orderedDagTip) (.nonDeterministicState
      "v2.4 snapshot ordered DAG tip does not match authoritative recomputation")
    ensure (state.dag.orderedDagStateRoot = some replay.diagnostics.stateRoot)
      (.nonDeterministicState
      "v2.4 snapshot recorded state root does not match authoritative recomputation")
    ensure (observedStateRoot = replay.diagnostics.stateRoot) (.nonDeterministicState
      "v2.4 snapshot UTXO state root does not match authoritative recomputation")
    ensure (state.dag.orderedDagConflictDiagnostics = replay.diagnostics.conflictDiagnostics)
      (.nonDeterministicState
        "v2.4 snapshot conflict diagnostics do not match authoritative recomputation")
    pure replay.diagnostics

/-- `verify_authoritative_state_snapshot_v3`. -/
def verifyAuthoritativeStateSnapshotV3 (state : ChainState)
    (segments : List MonetaryCadenceSegment) : Except PulseError StateReplayV3Diagnostics := do
  let replay ← rebuildAuthoritativeStateV3 state segments
  let observedStateRoot ← state.utxo.computeStateRoot
  ensure (state.dag.orderingVersion = replay.orderedDag.orderingVersion) (.nonDeterministicState
    "v3 snapshot ordering version does not match authoritative monetary replay")
  ensure (state.dag.orderedDag = replay.orderedDag.blocks) (.nonDeterministicState
    "v3 snapshot ordered DAG does not match authoritative monetary replay")
  ensure (state.dag.orderedDagTip = replay.diagnostics.orderedDagTip) (.nonDeterministicState
    "v3 snapshot ordered DAG tip does not match authoritative monetary replay")
  ensure (state.dag.orderedDagStateRoot = some replay.diagnostics.stateRoot) (.nonDeterministicState
    "v3 snapshot recorded state root does not match authoritative monetary replay")
  ensure (observedStateRoot = replay.diagnostics.stateRoot) (.nonDeterministicState
    "v3 snapshot UTXO root does not match authoritative monetary replay")
  ensure (state.dag.orderedDagConflictDiagnostics = replay.diagnostics.conflictDiagnostics)
    (.nonDeterministicState
      "v3 snapshot conflict diagnostics do not match authoritative monetary replay")
  pure replay.diagnostics

/-! ## What the replays read -/

omit [Crypto] in
/-- Two states with the same data for the replays. -/
structure SameReplayData (s t : ChainState) : Prop extends SameOrderData s t where
  chainId : s.chainId = t.chainId
  consensusMode : s.dag.consensusMode = t.dag.consensusMode
  selectedParentPolicy : s.dag.selectedParentPolicy = t.dag.selectedParentPolicy

namespace SameReplayData

variable {s t : ChainState}

/-- The same version 2 replay. -/
theorem rebuildAuthoritativeStateV2 (h : SameReplayData s t) :
    rebuildAuthoritativeStateV2 s = PulseDag.rebuildAuthoritativeStateV2 t := by
  have hbase : replayBaseStateForGenesis s = replayBaseStateForGenesis t :=
    replayBaseStateForGenesis_congr h.chainId h.genesisHash (by rw [h.blocks])
  have hblock : replayBlockV2 s = replayBlockV2 t := by
    funext loop entry
    simp only [replayBlockV2, h.genesisHash, h.blocks]
  simp only [PulseDag.rebuildAuthoritativeStateV2, h.toSameOrderData.deriveOrderedDagV2, hbase,
    hblock, withReplaySettings, h.consensusMode, h.selectedParentPolicy]

omit [Crypto] in
/-- The same inputs. -/
theorem prefixInputs (h : SameReplayData s t) (missing : Hash → String) (hashes : List Hash) :
    prefixInputs s missing hashes = PulseDag.prefixInputs t missing hashes := by
  induction hashes with
  | nil => rfl
  | cons hash rest ih => simp only [PulseDag.prefixInputs, h.genesisHash, h.blocks, ih]

/-- The same step for a block. -/
theorem replayBlock (h : SameReplayData s t) (segments : List MonetaryCadenceSegment)
    (orderedDag : OrderedDagV2) (referencedInputs : TreeSet OutPoint) :
    replayBlock s segments orderedDag referencedInputs =
      PulseDag.replayBlock t segments orderedDag referencedInputs := by
  have hsettle : settleReward s segments orderedDag = settleReward t segments orderedDag := by
    funext loop score
    simp only [settleReward, materializeRewardAtScore, h.genesisHash, h.blocks, h.chainId]
  funext loop entry
  simp only [PulseDag.replayBlock, registerClaim, settleMatureRewards, hsettle, h.genesisHash,
    h.blocks, h.chainId]

/-- The same version 3 replay. -/
theorem rebuildAuthoritativeStateV3 (h : SameReplayData s t)
    (segments : List MonetaryCadenceSegment) :
    rebuildAuthoritativeStateV3 s segments = PulseDag.rebuildAuthoritativeStateV3 t segments := by
  simp only [PulseDag.rebuildAuthoritativeStateV3, validateV3ReplaySource,
    replayAuthoritativePrefixV3,
    repeatedReplayInputCountsV3, referencedReplayInputs, h.genesisHash, h.blocks, h.chainId,
    h.consensusMode, h.selectedParentPolicy, h.prefixInputs, h.replayBlock,
    h.toSameOrderData.deriveOrderedDagV2]

end SameReplayData

/-! ## The round trip -/

variable {replay : StateReplayV2} {state materialized : ChainState}
  {segments : List MonetaryCadenceSegment}

/-- A state that is replayed stores its genesis block. -/
theorem rebuildAuthoritativeStateV2_genesis (h : rebuildAuthoritativeStateV2 state = .ok replay) :
    state.dag.genesisHash ∈ state.dag.blocks := by
  simp only [rebuildAuthoritativeStateV2, replayBaseStateForGenesis, ok_iff] at h
  obtain ⟨-, -, -, ⟨genesis, hgenesis, -⟩, -⟩ := h
  exact (TreeMap.mem_iff _ _).mpr ⟨genesis, hgenesis⟩

/-- The reported root is that of the ledger. -/
theorem rebuildAuthoritativeStateV2_stateRoot (h : rebuildAuthoritativeStateV2 state = .ok replay) :
    replay.utxo.computeStateRoot = .ok replay.diagnostics.stateRoot := by
  simp only [rebuildAuthoritativeStateV2, ok_iff] at h
  obtain ⟨-, -, -, -, loop, -, root, hroot, rfl⟩ := h
  exact hroot

/-- The reported root is that of the ledger. -/
theorem rebuildAuthoritativeStateV3_stateRoot {replay : StateReplayV3}
    (h : rebuildAuthoritativeStateV3 state segments = .ok replay) :
    replay.utxo.computeStateRoot = .ok replay.diagnostics.stateRoot := by
  simp only [rebuildAuthoritativeStateV3, ok_iff] at h
  obtain ⟨-, -, loop, -, root, hroot, rfl⟩ := h
  exact hroot

omit [Crypto] in
/-- Writing a replay back keeps the data of the replay. -/
theorem sameReplayData_withReplay (state : ChainState) (replay : StateReplayV2) :
    SameReplayData (withReplay state replay) state := by
  constructor <;> first | rfl | (constructor <;> rfl)

/-- A materialized version 2 state verifies and stays. -/
theorem materializeAuthoritativeStateV2_roundTrip
    (h : materializeAuthoritativeStateV2 state = .ok materialized) :
    (∃ diagnostics, verifyAuthoritativeStateSnapshotV2 materialized = .ok diagnostics) ∧
      materializeAuthoritativeStateV2 materialized = .ok materialized := by
  simp only [materializeAuthoritativeStateV2, ok_iff] at h
  obtain ⟨replay, hreplay, rfl⟩ := h
  have hagain : rebuildAuthoritativeStateV2 (withReplay state replay) = .ok replay :=
    (sameReplayData_withReplay state replay).rebuildAuthoritativeStateV2.trans hreplay
  have hroot : (withReplay state replay).utxo.computeStateRoot = .ok replay.diagnostics.stateRoot :=
    rebuildAuthoritativeStateV2_stateRoot hreplay
  have hfull : compactPrunedCheckpointFloor (withReplay state replay) = none :=
    if_pos (.inr (rebuildAuthoritativeStateV2_genesis hagain))
  refine ⟨⟨replay.diagnostics, ?_⟩, ?_⟩
  · simp only [verifyAuthoritativeStateSnapshotV2, hfull, hagain, hroot, ok_bind]
    simp [withReplay, ensure]
  · simp only [materializeAuthoritativeStateV2, hagain, ok_bind, pure_eq_ok]
    rfl

/-- A materialized version 3 state verifies and stays. -/
theorem materializeAuthoritativeStateV3_roundTrip
    (h : materializeAuthoritativeStateV3 state segments = .ok materialized) :
    (∃ diagnostics, verifyAuthoritativeStateSnapshotV3 materialized segments = .ok diagnostics) ∧
      materializeAuthoritativeStateV3 materialized segments = .ok materialized := by
  simp only [materializeAuthoritativeStateV3, ok_iff] at h
  obtain ⟨replay, hreplay, hmaterialized⟩ := h
  have hsame : SameReplayData materialized state := by
    subst hmaterialized
    constructor <;> first | rfl | (constructor <;> rfl)
  have hagain : rebuildAuthoritativeStateV3 materialized segments = .ok replay :=
    (hsame.rebuildAuthoritativeStateV3 segments).trans hreplay
  have hroot : materialized.utxo.computeStateRoot = .ok replay.diagnostics.stateRoot := by
    subst hmaterialized
    exact rebuildAuthoritativeStateV3_stateRoot hreplay
  refine ⟨⟨replay.diagnostics, ?_⟩, ?_⟩
  · simp only [verifyAuthoritativeStateSnapshotV3, hagain, hroot, ok_bind]
    subst hmaterialized
    simp [ensure]
  · simp only [materializeAuthoritativeStateV3, hagain, ok_bind, pure_eq_ok]
    subst hmaterialized
    rfl

/-- A materialized state verifies and materializes to itself, under both replays. -/
theorem materializeAuthoritativeState_roundTrip :
    (∀ state materialized, materializeAuthoritativeStateV2 state = .ok materialized →
      (∃ diagnostics, verifyAuthoritativeStateSnapshotV2 materialized = .ok diagnostics) ∧
        materializeAuthoritativeStateV2 materialized = .ok materialized) ∧
    (∀ state materialized segments,
      materializeAuthoritativeStateV3 state segments = .ok materialized →
      (∃ diagnostics, verifyAuthoritativeStateSnapshotV3 materialized segments = .ok diagnostics) ∧
        materializeAuthoritativeStateV3 materialized segments = .ok materialized) :=
  ⟨fun _ _ h => materializeAuthoritativeStateV2_roundTrip h,
    fun _ _ _ h => materializeAuthoritativeStateV3_roundTrip h⟩

end

/-- Both replays of a DAG with a conflict change its ledger, and the results verify. -/
theorem materializeAuthoritativeState_roundTrip_rewardConflict : letI := checksumCrypto
    ∃ state v2 v3 d2 d3, v2.utxo ≠ state.utxo ∧ v3.utxo ≠ v2.utxo ∧
      materializeAuthoritativeStateV2 state = .ok v2 ∧
      verifyAuthoritativeStateSnapshotV2 v2 = .ok d2 ∧ materializeAuthoritativeStateV2 v2 = .ok v2 ∧
      materializeAuthoritativeStateV3 state hourlyCadence = .ok v3 ∧
      verifyAuthoritativeStateSnapshotV3 v3 hourlyCadence = .ok d3 ∧
      materializeAuthoritativeStateV3 v3 hourlyCadence = .ok v3 := by
  let := checksumCrypto
  have hrun : ((sampleRun rewardConflict).toOption.bind fun run =>
      (materializeAuthoritativeStateV2 run.2).toOption.bind fun v2 =>
      (materializeAuthoritativeStateV3 run.2 hourlyCadence).toOption.map fun v3 =>
        (decide (v2.utxo.utxos.size ≠ run.2.utxo.utxos.size),
          decide (v3.utxo.utxos.size ≠ v2.utxo.utxos.size))) =
            some (true, true) := by decide +kernel
  simp only [Option.bind_eq_some_iff, Option.map_eq_some_iff, Prod.mk.injEq,
    decide_eq_true_eq] at hrun
  obtain ⟨⟨s0, state⟩, -, v2, hv2, v3, hv3, hne2, hne3⟩ := hrun
  have hv2 := eq_ok_of_toOption hv2
  have hv3 := eq_ok_of_toOption hv3
  obtain ⟨⟨d2, hd2⟩, hagain2⟩ := materializeAuthoritativeState_roundTrip.1 _ _ hv2
  obtain ⟨⟨d3, hd3⟩, hagain3⟩ := materializeAuthoritativeState_roundTrip.2 _ _ _ hv3
  exact ⟨state, v2, v3, d2, d3, fun h => hne2 (by rw [h]), fun h => hne3 (by rw [h]), hv2, hd2,
    hagain2, hv3, hd3, hagain3⟩

end PulseDag
