import PulseDag.Ghostdag.CanonicalOrder
import PulseDag.Ledger.Index

/-!
# The version 2 replay

`state_replay_v2.rs`. The blocks are replayed in the canonical order from the ledger of the
genesis kind. Each transaction is applied to a copy of the state; one that conflicts with an
earlier transaction is skipped as a whole.
-/

namespace PulseDag

open List

/-- `StateReplayV2Diagnostics`. -/
structure StateReplayV2Diagnostics where
  appliedTransactions : ℕ
  skippedConflictingTransactions : ℕ
  conflictDiagnostics : List String
  stateRoot : String
  orderedDagTip : Option Hash
  orderedDagDigest : String
  deriving DecidableEq, Repr

/-- `StateReplayV2`. -/
structure StateReplayV2 where
  utxo : UtxoState
  orderedDag : OrderedDagV2
  diagnostics : StateReplayV2Diagnostics

/-- The variables of the loop of `rebuild_authoritative_state_v2`. -/
structure ReplayLoopV2 where
  rebuilt : ChainState
  appliedTransactions : ℕ := 0
  skippedConflictingTransactions : ℕ := 0
  conflictDiagnostics : List String := []

/-- Replay one transaction of a block at a position of the order. -/
def replayTransactionV2 (orderedPos : ℕ) (block : Block) (loop : ReplayLoopV2) (tx : Transaction) :
    Except PulseError ReplayLoopV2 := do
  let applied ← applyAtomic tx loop.rebuilt block.header.height
  match applied with
  | some candidate =>
    pure { loop with
      rebuilt := candidate
      appliedTransactions := loop.appliedTransactions + 1 }
  | none =>
    pure { loop with
      skippedConflictingTransactions := loop.skippedConflictingTransactions + 1
      conflictDiagnostics := loop.conflictDiagnostics ++
        [s!"ordered_pos={orderedPos} block={block.hash} tx={tx.txid} skipped_conflict_atomic"] }

/-- Replay one block of the order. The genesis block is part of the base state. -/
def replayBlockV2 (state : ChainState) (loop : ReplayLoopV2) (entry : Hash × ℕ) :
    Except PulseError ReplayLoopV2 :=
  if entry.1 = state.dag.genesisHash then .ok loop
  else do
    let block ← okOr state.dag.blocks[entry.1]?
      (.internal ("v2.4 authoritative order references missing block " ++ entry.1))
    block.transactions.foldlM (replayTransactionV2 entry.2 block) loop

/-- The base state with the consensus settings of the replayed state. -/
def withReplaySettings (base state : ChainState) : ChainState :=
  { base with
    dag := { base.dag with
      consensusMode := state.dag.consensusMode
      selectedParentPolicy := state.dag.selectedParentPolicy } }

/-- What the replay returns after the loop. -/
def ReplayLoopV2.result (loop : ReplayLoopV2) (orderedDag : OrderedDagV2) (stateRoot : Hash) :
    StateReplayV2 where
  utxo := loop.rebuilt.utxo
  orderedDag := orderedDag
  diagnostics :=
    { appliedTransactions := loop.appliedTransactions
      skippedConflictingTransactions := loop.skippedConflictingTransactions
      conflictDiagnostics := loop.conflictDiagnostics
      stateRoot := stateRoot
      orderedDagTip := orderedDag.blocks.getLast?
      orderedDagDigest := orderedDag.digest }

/-- The snapshot fields that `materialize_authoritative_state_v2` fills from a replay. -/
def withReplay (state : ChainState) (replay : StateReplayV2) : ChainState :=
  { state with
    utxo := replay.utxo
    dag := { state.dag with
      orderedDag := replay.orderedDag.blocks
      orderingVersion := ghostdagV1OrderingVersion
      orderedDagTip := replay.diagnostics.orderedDagTip
      orderedDagStateRoot := some replay.diagnostics.stateRoot
      orderedDagConflictDiagnostics := replay.diagnostics.conflictDiagnostics } }

section

variable [Crypto]

/-- `replay_base_state_for_genesis`. -/
def replayBaseStateForGenesis (state : ChainState) : Except PulseError ChainState := do
  let genesis ← okOr state.dag.blocks[state.dag.genesisHash]?
    (.nonDeterministicState "v2 replay genesis block missing")
  match genesis.transactions with
  | [] => do
    ensure (genesis.header.version = blockHeaderVersionV2) (.nonDeterministicState
      (s!"transactionless genesis requires block header version {blockHeaderVersionV2}, got " ++
        s!"{genesis.header.version}"))
    let rebuilt ← initChainStateV3 state.chainId genesis.header.timestamp
    ensure (rebuilt.dag.genesisHash = state.dag.genesisHash) (.nonDeterministicState
      (s!"chain-bound v3 zero-allocation genesis mismatch: expected {state.dag.genesisHash}, " ++
        s!"rebuilt {rebuilt.dag.genesisHash}"))
    pure rebuilt
  | firstTx :: rest => do
    ensure (∀ tx ∈ firstTx :: rest, tx.version = firstTx.version) (.nonDeterministicState
      "mixed transaction versions inside genesis are not supported")
    if genesis.header.version = blockHeaderVersionV1 ∧ firstTx.version = transactionVersionV1 then
      pure (initChainState state.chainId)
    else if genesis.header.version = blockHeaderVersionV2 ∧
        firstTx.version = transactionVersionV2 then do
      let rebuilt ← initChainStateV2 state.chainId
      ensure (rebuilt.dag.genesisHash = state.dag.genesisHash) (.nonDeterministicState
        (s!"chain-bound v2 genesis mismatch: expected {state.dag.genesisHash}, rebuilt " ++
          s!"{rebuilt.dag.genesisHash}"))
      pure rebuilt
    else .error (.nonDeterministicState
      (s!"unsupported mixed genesis protocol versions: header={genesis.header.version} " ++
        s!"transaction={firstTx.version}"))

/-- The base depends on the chain and the genesis block. -/
theorem replayBaseStateForGenesis_congr {u v : ChainState} (hchain : u.chainId = v.chainId)
    (hgenesis : u.dag.genesisHash = v.dag.genesisHash)
    (hblock : u.dag.blocks[v.dag.genesisHash]? = v.dag.blocks[v.dag.genesisHash]?) :
    replayBaseStateForGenesis u = replayBaseStateForGenesis v := by
  simp only [replayBaseStateForGenesis, hchain, hgenesis, hblock]

/-- `rebuild_authoritative_state_v2`. -/
def rebuildAuthoritativeStateV2 (state : ChainState) : Except PulseError StateReplayV2 := do
  let orderedDag ← Except.mapError (fun error => .internal
      ("v2.4 authoritative ordering unavailable for state replay: " ++ error.debug))
    (deriveOrderedDagV2 state)
  let base ← replayBaseStateForGenesis state
  let replay ← orderedDag.blocks.zipIdx.foldlM (replayBlockV2 state)
    { rebuilt := withReplaySettings base state }
  let stateRoot ← replay.rebuilt.utxo.computeStateRoot
  pure (replay.result orderedDag stateRoot)

/-- `materialize_authoritative_state_v2`. -/
def materializeAuthoritativeStateV2 (state : ChainState) : Except PulseError ChainState := do
  let replay ← rebuildAuthoritativeStateV2 state
  pure (withReplay state replay)

end

/-! ## What the replay computes -/

/-- The transactions that the replay takes from a block, with the height they are applied at. -/
def replayedTransactions (state : ChainState) (hash : Hash) : List (Transaction × UInt64) :=
  if hash = state.dag.genesisHash then []
  else match state.dag.blocks[hash]? with
    | some block => block.transactions.map fun tx => (tx, block.header.height)
    | none => []

/-- The ledger after a list of transactions under the atomic rule. -/
def replayLedger (utxo : UtxoState) (entries : List (Transaction × UInt64)) : UtxoState :=
  entries.foldl (fun utxo entry => applyOrSkip utxo entry.1 entry.2) utxo

/-- Two lists are replayed one after the other. -/
theorem replayLedger_append (utxo : UtxoState) (entries others : List (Transaction × UInt64)) :
    replayLedger utxo (entries ++ others) = replayLedger (replayLedger utxo entries) others :=
  foldl_append

/-- A replay keeps the index exact. -/
theorem replayLedger_indexed {utxo : UtxoState} (hutxo : utxo.Indexed)
    (entries : List (Transaction × UInt64)) : (replayLedger utxo entries).Indexed := by
  induction entries generalizing utxo with
  | nil => exact hutxo
  | cons entry rest ih => exact ih (applyOrSkip_indexed hutxo entry.1 entry.2)

/-- One transaction changes the ledger by the atomic rule and is counted. -/
theorem replayTransactionV2_ok (orderedPos : ℕ) (block : Block) (loop : ReplayLoopV2)
    (tx : Transaction) :
    ∃ next, replayTransactionV2 orderedPos block loop tx = .ok next ∧
      next.rebuilt.utxo = applyOrSkip loop.rebuilt.utxo tx block.header.height ∧
      next.appliedTransactions + next.skippedConflictingTransactions =
        loop.appliedTransactions + loop.skippedConflictingTransactions + 1 := by
  have hutxo := applyAtomic_utxo tx loop.rebuilt block.header.height
  rw [replayTransactionV2, applyAtomic_eq, ok_bind]
  cases happly : applyTransaction tx loop.rebuilt block.header.height with
  | ok candidate =>
    rw [happly] at hutxo
    refine ⟨_, rfl, hutxo, ?_⟩
    show loop.appliedTransactions + 1 + loop.skippedConflictingTransactions = _
    omega
  | error error =>
    rw [happly] at hutxo
    exact ⟨_, rfl, hutxo, rfl⟩

/-- The loop over a block is a replay of its transactions. -/
theorem replayTransactionsV2_ok (orderedPos : ℕ) (block : Block) (txs : List Transaction)
    (loop : ReplayLoopV2) :
    ∃ next, txs.foldlM (replayTransactionV2 orderedPos block) loop = .ok next ∧
      next.rebuilt.utxo = replayLedger loop.rebuilt.utxo
        (txs.map fun tx => (tx, block.header.height)) ∧
      next.appliedTransactions + next.skippedConflictingTransactions =
        loop.appliedTransactions + loop.skippedConflictingTransactions + txs.length := by
  induction txs generalizing loop with
  | nil => exact ⟨loop, rfl, rfl, rfl⟩
  | cons tx rest ih =>
    obtain ⟨middle, hmiddle, hutxo, hcount⟩ := replayTransactionV2_ok orderedPos block loop tx
    obtain ⟨next, hnext, hnextUtxo, hnextCount⟩ := ih middle
    refine ⟨next, by rw [foldlM_cons, hmiddle, ok_bind, hnext], ?_, ?_⟩
    · rw [hnextUtxo, hutxo]
      rfl
    · rw [hnextCount, hcount, length_cons]
      omega

/-- The loop over stored blocks never fails. It applies their transactions one after the
other under the atomic rule, and counts every one of them. -/
theorem replayBlocksV2_ok {state : ChainState} {hashes : List Hash}
    (hstored : ∀ hash ∈ hashes, hash ∈ state.dag.blocks) (start : ℕ) (loop : ReplayLoopV2) :
    ∃ next, (hashes.zipIdx start).foldlM (replayBlockV2 state) loop = .ok next ∧
      next.rebuilt.utxo =
        replayLedger loop.rebuilt.utxo (hashes.flatMap (replayedTransactions state)) ∧
      next.appliedTransactions + next.skippedConflictingTransactions =
        loop.appliedTransactions + loop.skippedConflictingTransactions +
          (hashes.flatMap (replayedTransactions state)).length := by
  induction hashes generalizing start loop with
  | nil => exact ⟨loop, rfl, rfl, rfl⟩
  | cons hash rest ih =>
    obtain ⟨hhash, hrest⟩ := forall_mem_cons.mp hstored
    have hstep : ∃ middle, replayBlockV2 state loop (hash, start) = .ok middle ∧
        middle.rebuilt.utxo = replayLedger loop.rebuilt.utxo (replayedTransactions state hash) ∧
        middle.appliedTransactions + middle.skippedConflictingTransactions =
          loop.appliedTransactions + loop.skippedConflictingTransactions +
            (replayedTransactions state hash).length := by
      by_cases hgenesis : hash = state.dag.genesisHash
      · exact ⟨loop, by rw [replayBlockV2, if_pos hgenesis],
          by simp [replayedTransactions, hgenesis, replayLedger],
          by simp [replayedTransactions, hgenesis]⟩
      · obtain ⟨block, hblock⟩ := (TreeMap.mem_iff _ _).mp hhash
        obtain ⟨middle, hmiddle, hutxo, hcount⟩ :=
          replayTransactionsV2_ok start block block.transactions loop
        refine ⟨middle, ?_, ?_, ?_⟩
        · rw [replayBlockV2, if_neg hgenesis, hblock, okOr_some, ok_bind]
          exact hmiddle
        · rw [replayedTransactions, if_neg hgenesis, hblock]
          exact hutxo
        · rw [replayedTransactions, if_neg hgenesis, hblock, length_map]
          exact hcount
    obtain ⟨middle, hmiddle, hutxo, hcount⟩ := hstep
    obtain ⟨next, hnext, hnextUtxo, hnextCount⟩ := ih hrest (start + 1) middle
    refine ⟨next, ?_, ?_, ?_⟩
    · rw [zipIdx_cons, foldlM_cons, hmiddle, ok_bind, hnext]
    · rw [hnextUtxo, hutxo, flatMap_cons, replayLedger_append]
    · rw [hnextCount, hcount, flatMap_cons, length_append]
      omega

section

variable [Crypto]

/-- The ledger of every genesis kind is indexed. -/
theorem replayBaseStateForGenesis_indexed {state base : ChainState}
    (h : replayBaseStateForGenesis state = .ok base) : base.utxo.Indexed := by
  rw [replayBaseStateForGenesis, bind_eq_ok] at h
  obtain ⟨genesis, -, h⟩ := h
  cases htxs : genesis.transactions with
  | nil =>
    simp only [htxs, initChainStateV3, ok_iff] at h
    obtain ⟨-, -, _, ⟨_, -, _, -, rfl⟩, -, -, rfl⟩ := h
    exact UtxoState.empty_indexed
  | cons firstTx rest =>
    simp only [htxs, ok_iff] at h
    obtain ⟨-, -, h⟩ := h
    split at h
    · obtain rfl := Except.ok.inj h
      exact genesisUtxoState_indexed _
    · split at h
      · simp only [initChainStateV2, ok_iff] at h
        obtain ⟨_, ⟨_, -, _, -, _, -, rfl⟩, -, -, rfl⟩ := h
        exact genesisUtxoState_indexed _
      · cases h

/-- What a version 2 replay returns: the ledger of the ordered transactions, with its root. -/
structure Replayed (state : ChainState) (ordered : OrderedDagV2) (base : ChainState)
    (replay : StateReplayV2) : Prop where
  orderedDag : replay.orderedDag = ordered
  utxo : replay.utxo =
    replayLedger base.utxo (ordered.blocks.flatMap (replayedTransactions state))
  stateRoot : replay.diagnostics.stateRoot = coinsRoot replay.utxo.utxos
  indexed : replay.utxo.Indexed
  orderedDagTip : replay.diagnostics.orderedDagTip = ordered.blocks.getLast?
  orderedDagDigest : replay.diagnostics.orderedDagDigest = ordered.digest
  counted : replay.diagnostics.appliedTransactions +
      replay.diagnostics.skippedConflictingTransactions =
    (ordered.blocks.flatMap (replayedTransactions state)).length

/-- A state with an order and a supported genesis can always be replayed. -/
theorem rebuildAuthoritativeStateV2_ok {state base : ChainState} {ordered : OrderedDagV2}
    (horder : deriveOrderedDagV2 state = .ok ordered)
    (hbase : replayBaseStateForGenesis state = .ok base) :
    ∃ replay, rebuildAuthoritativeStateV2 state = .ok replay ∧
      Replayed state ordered base replay := by
  obtain ⟨loop, hloop, hutxo, hcount⟩ := replayBlocksV2_ok
    (fun hash hmem => (mem_of_deriveOrderedDagV2 horder).mp hmem) 0
    { rebuilt := withReplaySettings base state }
  have hindexed : loop.rebuilt.utxo.Indexed := by
    rw [hutxo]
    exact replayLedger_indexed (replayBaseStateForGenesis_indexed hbase) _
  refine ⟨loop.result ordered (coinsRoot loop.rebuilt.utxo.utxos), ?_,
    ⟨rfl, hutxo, rfl, hindexed, rfl, rfl, hcount.trans (Nat.zero_add _)⟩⟩
  rw [rebuildAuthoritativeStateV2, horder, hbase]
  simp only [Except.mapError, ok_bind, hloop, hindexed.computeStateRoot_eq, pure_eq_ok]

/-- What a rebuilt state has been replayed from. -/
theorem rebuildAuthoritativeStateV2_eq_ok {state : ChainState} {replay : StateReplayV2}
    (h : rebuildAuthoritativeStateV2 state = .ok replay) :
    ∃ ordered base, deriveOrderedDagV2 state = .ok ordered ∧
      replayBaseStateForGenesis state = .ok base ∧ Replayed state ordered base replay := by
  have hsteps := h
  simp only [rebuildAuthoritativeStateV2, ok_iff] at hsteps
  obtain ⟨ordered, horder, base, hbase, -⟩ := hsteps
  obtain ⟨found, hfound, hreplayed⟩ := rebuildAuthoritativeStateV2_ok horder hbase
  rw [h, Except.ok.injEq] at hfound
  exact ⟨ordered, base, horder, hbase, hfound ▸ hreplayed⟩

end

end PulseDag
