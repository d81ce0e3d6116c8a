import PulseDag.Ghostdag.Reachable
import PulseDag.Legacy.Block
import PulseDag.Storage.Retention

/-!
# Snapshot and delta replay

`replay.rs` rebuilds a state from all blocks, or from a snapshot and the blocks above its height.
The second way leaves out blocks that the snapshot does not have when their height is not above
the best height of the snapshot, so it equals the first only when there are none.
-/

namespace PulseDag

open List

/-- `sort_blocks_for_deterministic_replay`. -/
def sortBlocksForDeterministicReplay (blocks : List Block) : List Block :=
  blocks.insertionSort fun a b => (compareReplayBlocks a b).isLE

section

variable [Crypto]

/-- One block of `rebuild_state_from_blocks`. -/
def replayStoredBlock (clock : Clock) (state : ChainState) (block : Block) :
    Except PulseError ChainState :=
  if block.hash = state.dag.genesisHash then .ok state
  else do
    validateBlock clock block state
    applyBlock clock block state

/-- `rebuild_state_from_blocks`, at one reading of the clock. -/
def rebuildStateFromBlocks (clock : Clock) (chainId : String) (blocks : List Block) :
    Except PulseError ChainState :=
  if blocks = [] then .ok (initChainState chainId)
  else (sortBlocksForDeterministicReplay blocks).foldlM (replayStoredBlock clock)
    (initChainState chainId)

/-- One block of `rebuild_state_from_snapshot_and_blocks`. -/
def replayDeltaBlock (clock : Clock) (snapshotHeight : UInt64) (state : ChainState)
    (block : Block) : Except PulseError ChainState :=
  if block.hash = state.dag.genesisHash then .ok state
  else if block.header.height ≤ snapshotHeight then .ok state
  else if block.hash ∈ state.dag.blocks then .ok state
  else do
    validateBlock clock block state
    applyBlock clock block state

/-- `rebuild_state_from_snapshot_and_blocks`, at one reading of the clock. -/
def rebuildStateFromSnapshotAndBlocks (clock : Clock) (snapshot : ChainState)
    (blocks : List Block) : Except PulseError ChainState :=
  if blocks = [] then .ok snapshot
  else (sortBlocksForDeterministicReplay blocks).foldlM
    (replayDeltaBlock clock snapshot.dag.bestHeight) snapshot

/-! ## One block -/

/-- A clock at which every block is accepted that the first one accepts. -/
def Clock.NotBefore (clock later : Clock) : Prop :=
  saturatingAdd clock.now clock.maxFuture ≤ saturatingAdd later.now later.maxFuture

variable {block : Block} {clock later : Clock} {state next final snapshot : ChainState}
  {blocks : List Block}

/-- A valid block stays valid. -/
theorem validateBlock_later (hlater : clock.NotBefore later)
    (h : validateBlock clock block state = .ok ()) : validateBlock later block state = .ok () := by
  rw [validateBlock, bind_eq_ok] at h ⊢
  obtain ⟨u, htime, hrest⟩ := h
  refine ⟨u, ?_, hrest⟩
  simp only [validateBlockTime, bind_eq_ok, ensure_eq_ok] at htime ⊢
  obtain ⟨u, hnew, v, hzero, hfuture⟩ := htime
  exact ⟨u, hnew, v, hzero, UInt64.le_trans hfuture hlater⟩

/-- A valid block is new. -/
theorem not_mem_of_validateBlock {u : Unit} (h : validateBlock clock block state = .ok u) :
    block.hash ∉ state.dag.blocks := by
  simp only [validateBlock, validateBlockTime, bind_eq_ok, ensure_eq_ok] at h
  obtain ⟨-, ⟨-, hnew, -⟩, -⟩ := h
  exact hnew

/-- What an applied block has passed. -/
theorem applyBlock_eq_ok :
    applyBlock clock block state = .ok next ↔ validateBlock clock block state = .ok () ∧
      ∃ working, commitBlockToState block state = .ok working ∧
        next = normalizeProductionMempoolResourcesV1 working := by
  simp only [applyBlock, ok_iff]
  constructor
  · rintro ⟨u, hvalid, working, hworking, rfl⟩
    exact ⟨hvalid, working, hworking, rfl⟩
  · rintro ⟨hvalid, working, hworking, rfl⟩
    exact ⟨(), hvalid, working, hworking, rfl⟩

/-- The state after a block does not depend on the clock. -/
theorem applyBlock_unique {clock' : Clock} {next' : ChainState}
    (h : applyBlock clock block state = .ok next) (h' : applyBlock clock' block state = .ok next') :
    next = next' := by
  obtain ⟨-, working, hworking, rfl⟩ := applyBlock_eq_ok.mp h
  obtain ⟨-, working', hworking', rfl⟩ := applyBlock_eq_ok.mp h'
  rw [Except.ok.inj (hworking.symm.trans hworking')]

/-- An applied block can be applied later. -/
theorem applyBlock_later (hlater : clock.NotBefore later)
    (h : applyBlock clock block state = .ok next) : applyBlock later block state = .ok next := by
  obtain ⟨hvalid, hcommit⟩ := applyBlock_eq_ok.mp h
  exact applyBlock_eq_ok.mpr ⟨validateBlock_later hlater hvalid, hcommit⟩

/-- A state with the ledger, the mempool and the recorded order of another. -/
def withLedgerOf (state ledger : ChainState) : ChainState :=
  { state with
    utxo := ledger.utxo
    mempool := ledger.mempool
    dag := { state.dag with
      orderedDag := ledger.dag.orderedDag
      orderingVersion := ledger.dag.orderingVersion
      orderedDagRebuildTotal := ledger.dag.orderedDagRebuildTotal
      orderedDagStateRoot := ledger.dag.orderedDagStateRoot
      orderedDagTip := ledger.dag.orderedDagTip
      orderedDagConflictDiagnostics := ledger.dag.orderedDagConflictDiagnostics } }

omit [Crypto] in
/-- Transactions change the ledger and the pool only. -/
theorem applyTransactions_withLedgerOf {txs : List Transaction} {height : UInt64}
    (h : txs.foldlM (fun state tx => applyTransaction tx state height) state = .ok next) :
    next = withLedgerOf state next := by
  refine foldlM_induction (P := fun current => current = withLedgerOf state current)
    (fun current tx after _ hcurrent happlied => ?_) rfl h
  rw [(applyTransaction_eq_ok happlied).2.2, hcurrent]
  rfl

/-- So does a commit after its metadata. -/
theorem commitBlockByMode_withLedgerOf (h : commitBlockByMode block state = .ok next) :
    next = withLedgerOf (refreshSelectedChain (acceptBlockToDagMetadata block state)) next := by
  rw [commitBlockByMode] at h
  split at h
  · simp only [commitGhostdagDevBlock, ok_iff] at h
    obtain ⟨rebuilt, -, rfl⟩ := h
    rfl
  · simp only [commitLegacyBlock] at h
    split at h
    · simp only [ok_iff] at h
      obtain ⟨rebuilt, -, rfl⟩ := h
      rfl
    · simp only [commitLegacyCompactSnapshotState] at h
      split at h
      · rw [← Except.ok.inj h]
        rfl
      · simp only [ok_iff] at h
        obtain ⟨-, -, applied, happlied, root, -, -, -, rfl⟩ := h
        rw [applyTransactions_withLedgerOf happlied]
        rfl

omit [Crypto] in
/-- So does a reconciliation. -/
theorem reconcileMempoolWith_withLedgerOf
    (validate : Transaction → ChainState → Except PulseError Unit) (state : ChainState) :
    (reconcileMempoolWith validate state).1 =
      withLedgerOf state (reconcileMempoolWith validate state).1 := by
  rw [reconcileMempoolWith, reconcileIterated]
  split
  · rfl
  · rfl

omit [Crypto] in
/-- So does the normalization. -/
theorem normalizeProductionMempoolResourcesV1_withLedgerOf (state : ChainState) :
    normalizeProductionMempoolResourcesV1 state =
      withLedgerOf state (normalizeProductionMempoolResourcesV1 state) := by
  rw [normalizeProductionMempoolResourcesV1]
  rfl

omit [Crypto] in
/-- Two such changes one after the other. -/
theorem withLedgerOf_trans {last : ChainState} (h : next = withLedgerOf state next)
    (h' : last = withLedgerOf next last) : last = withLedgerOf state last := by
  rw [h] at h'
  exact h'

/-- Applying a block stores it and refreshes the selected chain; beyond that only the ledger, the
mempool and the recorded order change. -/
theorem applyBlock_withLedgerOf (h : applyBlock clock block state = .ok next) :
    next = withLedgerOf (refreshSelectedChain (acceptBlockToDagMetadata block state)) next := by
  obtain ⟨-, working, hworking, rfl⟩ := applyBlock_eq_ok.mp h
  simp only [commitBlockToState, ok_iff] at hworking
  obtain ⟨committed, hcommitted, rfl⟩ := hworking
  refine withLedgerOf_trans ?_ (normalizeProductionMempoolResourcesV1_withLedgerOf _)
  exact withLedgerOf_trans (commitBlockByMode_withLedgerOf hcommitted)
    (reconcileMempoolWith_withLedgerOf _ _)

/-- What the replays read of a state after a block: the block is stored, the best height has
reached it and the genesis hash is the old one. -/
structure StoresBlock (block : Block) (dag next : DagState) : Prop where
  mem_blocks : ∀ hash, hash ∈ next.blocks ↔ hash = block.hash ∨ hash ∈ dag.blocks
  bestHeight : next.bestHeight = max dag.bestHeight block.header.height
  genesisHash : next.genesisHash = dag.genesisHash

omit [Crypto] in
/-- Linking parents changes the tips and the children only. -/
theorem foldl_linkParent_frame (hash : Hash) (parents : List Hash) (dag : DagState) :
    parents.foldl (linkParent hash) dag = { dag with
      tips := (parents.foldl (linkParent hash) dag).tips
      children := (parents.foldl (linkParent hash) dag).children } := by
  induction parents generalizing dag with
  | nil => rfl
  | cons parent rest ih =>
    rw [foldl_cons, ih (linkParent hash dag parent)]
    rfl

omit [Crypto] in
/-- The metadata stores the block. -/
theorem acceptBlockToDagMetadata_stores (block : Block) (state : ChainState) :
    StoresBlock block state.dag (acceptBlockToDagMetadata block state).dag := by
  have hlinked := foldl_linkParent_frame block.hash block.header.parents state.dag
  refine ⟨fun hash => ?_, ?_, ?_⟩
  · show hash ∈ (block.header.parents.foldl (linkParent block.hash) state.dag).blocks.insert _ _ ↔ _
    rw [TreeMap.mem_insert, hlinked]
  · show max (block.header.parents.foldl (linkParent block.hash) state.dag).bestHeight _ = _
    rw [hlinked]
  · show (block.header.parents.foldl (linkParent block.hash) state.dag).genesisHash = _
    rw [hlinked]

/-- An applied block is stored. -/
theorem applyBlock_stores (h : applyBlock clock block state = .ok next) :
    StoresBlock block state.dag next.dag := by
  have haccepted := acceptBlockToDagMetadata_stores block state
  rw [applyBlock_withLedgerOf h]
  exact ⟨haccepted.1, haccepted.2, haccepted.3⟩

/-! ## A run of blocks -/

/-- Apply blocks one after another. -/
def applyBlocks (clock : Clock) (blocks : List Block) (state : ChainState) :
    Except PulseError ChainState :=
  blocks.foldlM (fun state block => applyBlock clock block state) state

/-- Blocks are applied one by one. -/
theorem applyBlocks_cons_eq_ok : applyBlocks clock (block :: blocks) state = .ok final ↔
      ∃ next, applyBlock clock block state = .ok next ∧
        applyBlocks clock blocks next = .ok final := by
  rw [applyBlocks, foldlM_cons, bind_eq_ok]
  rfl

/-- Two lists are applied one after the other. -/
theorem applyBlocks_append_eq_ok {more : List Block} :
    applyBlocks clock (blocks ++ more) state = .ok final ↔
      ∃ next, applyBlocks clock blocks state = .ok next ∧
      applyBlocks clock more next = .ok final := by
  rw [applyBlocks, foldlM_append, bind_eq_ok]
  rfl

/-- The clock does not change the result. -/
theorem applyBlocks_unique {clock' : Clock} {final' : ChainState}
    (h : applyBlocks clock blocks state = .ok final)
    (h' : applyBlocks clock' blocks state = .ok final') : final = final' := by
  induction blocks generalizing state with
  | nil => exact (Except.ok.inj h).symm.trans (Except.ok.inj h')
  | cons block rest ih =>
    obtain ⟨next, hnext, hrest⟩ := applyBlocks_cons_eq_ok.mp h
    obtain ⟨next', hnext', hrest'⟩ := applyBlocks_cons_eq_ok.mp h'
    obtain rfl := applyBlock_unique hnext hnext'
    exact ih hrest hrest'

/-- Blocks can be applied later. -/
theorem applyBlocks_later (hlater : clock.NotBefore later)
    (h : applyBlocks clock blocks state = .ok final) :
    applyBlocks later blocks state = .ok final := by
  induction blocks generalizing state with
  | nil => exact h
  | cons block rest ih =>
    obtain ⟨next, hnext, hrest⟩ := applyBlocks_cons_eq_ok.mp h
    exact applyBlocks_cons_eq_ok.mpr ⟨next, applyBlock_later hlater hnext, ih hrest⟩

/-- The genesis hash stays. -/
theorem applyBlocks_genesisHash (h : applyBlocks clock blocks state = .ok final) :
    final.dag.genesisHash = state.dag.genesisHash :=
  foldlM_induction
    (P := fun current : ChainState => current.dag.genesisHash = state.dag.genesisHash)
    (fun _ _ _ _ hcurrent happlied => (applyBlock_stores happlied).genesisHash.trans hcurrent) rfl h

/-- The best height after a run is at least the height of each of its blocks. -/
theorem applyBlocks_bestHeight (h : applyBlocks clock blocks state = .ok final) :
    state.dag.bestHeight ≤ final.dag.bestHeight ∧
      ∀ block ∈ blocks, block.header.height ≤ final.dag.bestHeight := by
  induction blocks generalizing state with
  | nil =>
    rw [← Except.ok.inj h]
    exact ⟨UInt64.le_refl _, fun block hblock => absurd hblock not_mem_nil⟩
  | cons block rest ih =>
    obtain ⟨next, hnext, hrest⟩ := applyBlocks_cons_eq_ok.mp h
    obtain ⟨hnextHeight, hrestHeight⟩ := ih hrest
    rw [(applyBlock_stores hnext).bestHeight, UInt64.le_iff_toNat_le, toNat_max, max_le_iff]
      at hnextHeight
    refine ⟨UInt64.le_iff_toNat_le.mpr hnextHeight.1, fun other hother => ?_⟩
    rcases mem_cons.mp hother with rfl | hother
    · exact UInt64.le_iff_toNat_le.mpr hnextHeight.2
    · exact hrestHeight other hother

/-- A run stores its blocks and no other. -/
theorem applyBlocks_mem_blocks (h : applyBlocks clock blocks state = .ok final) (hash : Hash) :
    hash ∈ final.dag.blocks ↔ hash ∈ state.dag.blocks ∨ hash ∈ blocks.map Block.hash := by
  induction blocks generalizing state with
  | nil =>
    rw [← Except.ok.inj h, map_nil]
    simp
  | cons block rest ih =>
    obtain ⟨next, hnext, hrest⟩ := applyBlocks_cons_eq_ok.mp h
    rw [ih hrest, (applyBlock_stores hnext).mem_blocks, map_cons, mem_cons, or_left_comm,
      or_assoc]

/-- A run that succeeds has no block twice, since a stored hash is refused. -/
theorem applyBlocks_nodup (h : applyBlocks clock blocks state = .ok final) :
    (blocks.map Block.hash).Nodup ∧ ∀ block ∈ blocks, block.hash ∉ state.dag.blocks := by
  induction blocks generalizing state with
  | nil => exact ⟨nodup_nil, fun block hblock => absurd hblock not_mem_nil⟩
  | cons block rest ih =>
    obtain ⟨next, hnext, hrest⟩ := applyBlocks_cons_eq_ok.mp h
    obtain ⟨hnodup, hfresh⟩ := ih hrest
    have hstores := (applyBlock_stores hnext).mem_blocks
    refine ⟨nodup_cons.mpr ⟨fun hmem => ?_, hnodup⟩, fun other hother => ?_⟩
    · obtain ⟨other, hother, hhash⟩ := mem_map.mp hmem
      exact hfresh other hother ((hstores _).mpr (.inl hhash))
    · rcases mem_cons.mp hother with rfl | hother
      · exact not_mem_of_validateBlock (applyBlock_eq_ok.mp hnext).1
      · exact fun hmem => hfresh other hother ((hstores _).mpr (.inr hmem))

/-! ## The two replays as runs -/

/-- The blocks of a replay other than the genesis block. -/
def withoutGenesis (genesisHash : Hash) (blocks : List Block) : List Block :=
  blocks.filter fun block => block.hash ≠ genesisHash

/-- A replay applies the blocks other than genesis. -/
theorem applyBlocks_of_replayStoredBlocks
    (h : blocks.foldlM (replayStoredBlock clock) state = .ok final) :
    applyBlocks clock (withoutGenesis state.dag.genesisHash blocks) state = .ok final := by
  induction blocks generalizing state with
  | nil => exact h
  | cons block rest ih =>
    rw [foldlM_cons, bind_eq_ok] at h
    obtain ⟨next, hnext, hrest⟩ := h
    rw [replayStoredBlock] at hnext
    split at hnext
    · next hgenesis =>
      rw [← Except.ok.inj hnext] at hrest
      rw [withoutGenesis, filter_cons_of_neg (by simpa using hgenesis)]
      exact ih hrest
    · next hgenesis =>
      obtain ⟨-, -, hnext⟩ := bind_eq_ok.mp hnext
      rw [withoutGenesis, filter_cons_of_pos (by simpa using hgenesis)]
      refine applyBlocks_cons_eq_ok.mpr ⟨next, hnext, ?_⟩
      rw [← (applyBlock_stores hnext).genesisHash]
      exact ih hrest

/-- Applying the higher blocks is the delta replay. -/
theorem replayDeltaBlocks_of_applyBlocks {height : UInt64}
    (h : applyBlocks clock ((withoutGenesis state.dag.genesisHash blocks).filter fun block =>
      height < block.header.height) state = .ok final) :
    blocks.foldlM (replayDeltaBlock clock height) state = .ok final := by
  induction blocks generalizing state with
  | nil => exact h
  | cons block rest ih =>
    rw [foldlM_cons, replayDeltaBlock]
    by_cases hgenesis : block.hash = state.dag.genesisHash
    · rw [withoutGenesis, filter_cons_of_neg (by simpa using hgenesis)] at h
      rw [if_pos hgenesis, ok_bind]
      exact ih h
    · rw [withoutGenesis, filter_cons_of_pos (by simpa using hgenesis)] at h
      rw [if_neg hgenesis]
      by_cases hheight : block.header.height ≤ height
      · rw [filter_cons_of_neg (by simpa using hheight)] at h
        rw [if_pos hheight, ok_bind]
        exact ih h
      · rw [filter_cons_of_pos (by simpa using hheight)] at h
        obtain ⟨next, hnext, hrest⟩ := applyBlocks_cons_eq_ok.mp h
        have hvalid := (applyBlock_eq_ok.mp hnext).1
        rw [if_neg hheight, if_neg (not_mem_of_validateBlock hvalid), hvalid, ok_bind, hnext,
          ok_bind]
        rw [← (applyBlock_stores hnext).genesisHash] at hrest
        exact ih hrest

/-- A replay from a snapshot stores only blocks above the height of the snapshot. -/
theorem replayDeltaBlocks_mem_blocks {height : UInt64}
    (h : blocks.foldlM (replayDeltaBlock clock height) state = .ok final) :
    ∀ hash ∈ final.dag.blocks, hash ∈ state.dag.blocks ∨
      ∃ block ∈ blocks, block.hash = hash ∧ height < block.header.height := by
  refine foldlM_induction (P := fun current : ChainState => ∀ hash ∈ current.dag.blocks,
    hash ∈ state.dag.blocks ∨ ∃ block ∈ blocks, block.hash = hash ∧ height < block.header.height)
    (fun current block after hblock hcurrent hstep => ?_) (fun hash hmem => .inl hmem) h
  simp only [replayDeltaBlock] at hstep
  split_ifs at hstep with hgenesis hheight hstored
  · exact Except.ok.inj hstep ▸ hcurrent
  · exact Except.ok.inj hstep ▸ hcurrent
  · exact Except.ok.inj hstep ▸ hcurrent
  · obtain ⟨-, -, happlied⟩ := bind_eq_ok.mp hstep
    intro hash hmem
    rcases ((applyBlock_stores happlied).mem_blocks hash).mp hmem with rfl | hmem
    · exact .inr ⟨block, hblock, rfl, UInt64.not_le.mp hheight⟩
    · exact hcurrent hash hmem

/-! ## Snapshot and delta -/

instance : Std.TransCmp compareReplayBlocks :=
  inferInstanceAs (Std.TransCmp (compareLex (compareOn fun block : Block => block.header.height)
    (compareLex (compareOn fun block : Block => block.header.timestamp) (compareOn Block.hash))))

omit [Crypto] in
/-- The blocks are sorted. -/
theorem pairwise_sortBlocksForDeterministicReplay (blocks : List Block) :
    (sortBlocksForDeterministicReplay blocks).Pairwise fun a b => (compareReplayBlocks a b).isLE :=
  pairwise_insertionSort_isLE compareReplayBlocks blocks

omit [Crypto] in
/-- Only blocks with one hash tie. -/
theorem hash_eq_of_compareReplayBlocks {a b : Block} (hab : (compareReplayBlocks a b).isLE)
    (hba : (compareReplayBlocks b a).isLE) : a.hash = b.hash := by
  have heq := Std.OrientedCmp.isLE_antisymm hab hba
  simp only [compareReplayBlocks, Ordering.then_eq_eq, Std.compare_eq_iff_eq] at heq
  exact heq.2.2

omit [Crypto] in
/-- Lower blocks come first. -/
theorem compareReplayBlocks_of_height_lt {a b : Block} (h : a.header.height < b.header.height) :
    (compareReplayBlocks a b).isLE := by
  have hlt : compare a.header.height b.header.height = .lt := Std.compare_eq_lt.mpr h
  simp [compareReplayBlocks, hlt]

/-- The rebuild as a loop over the sorted blocks. -/
theorem rebuildStateFromBlocks_eq_foldlM (clock : Clock) (chainId : String) (blocks : List Block) :
    rebuildStateFromBlocks clock chainId blocks = (sortBlocksForDeterministicReplay blocks).foldlM
      (replayStoredBlock clock) (initChainState chainId) := by
  rw [rebuildStateFromBlocks]
  split
  · next hnil => rw [hnil]; rfl
  · rfl

omit [Crypto] in
/-- The blocks of a full rebuild other than the genesis block. -/
theorem mem_withoutGenesis_sort {genesisHash : Hash} :
    block ∈ withoutGenesis genesisHash (sortBlocksForDeterministicReplay blocks) ↔
      block ∈ blocks ∧ block.hash ≠ genesisHash := by
  rw [withoutGenesis, mem_filter, sortBlocksForDeterministicReplay, mem_insertionSort,
    decide_eq_true_eq]

/-- The sorted blocks are those of the snapshot followed by the others when the others are above
the best height of the snapshot. -/
theorem sorted_eq_snapshot_append_delta {clock earlier : Clock} {genesisHash : Hash}
    {blocks sub : List Block} {state full snapshot : ChainState} (hsub : sub ⊆ blocks)
    (hfull : applyBlocks clock (withoutGenesis genesisHash
      (sortBlocksForDeterministicReplay blocks)) state = .ok full)
    (hsnapshot : applyBlocks earlier
      (withoutGenesis genesisHash (sortBlocksForDeterministicReplay sub)) state = .ok snapshot)
    (habove : ∀ block ∈ blocks, block.hash ≠ genesisHash →
      block ∈ sub ∨ snapshot.dag.bestHeight < block.header.height) :
    withoutGenesis genesisHash (sortBlocksForDeterministicReplay blocks) =
      withoutGenesis genesisHash (sortBlocksForDeterministicReplay sub) ++
        (withoutGenesis genesisHash (sortBlocksForDeterministicReplay blocks)).filter fun block =>
          snapshot.dag.bestHeight < block.header.height := by
  have hnodup := (applyBlocks_nodup hfull).1
  have hsubNodup := (applyBlocks_nodup hsnapshot).1
  have hlow := (applyBlocks_bestHeight hsnapshot).2
  have hsorted := (pairwise_sortBlocksForDeterministicReplay blocks).filter
    fun block => block.hash ≠ genesisHash
  have hsubSorted := (pairwise_sortBlocksForDeterministicReplay sub).filter
    fun block => block.hash ≠ genesisHash
  have happart : ∀ block ∈ withoutGenesis genesisHash (sortBlocksForDeterministicReplay sub),
      ¬snapshot.dag.bestHeight < block.header.height :=
    fun block hblock => UInt64.not_lt.mpr (hlow block hblock)
  refine List.Perm.eq_of_pairwise (fun a b ha hb hab hba => ?_) hsorted
    (pairwise_append.mpr ⟨hsubSorted, hsorted.filter _, fun a ha b hb => ?_⟩) ?_
  · refine inj_on_of_nodup_map hnodup ha ?_ (hash_eq_of_compareReplayBlocks hab hba)
    rcases mem_append.mp hb with hb | hb
    · obtain ⟨hb, hgenesis⟩ := mem_withoutGenesis_sort.mp hb
      exact mem_withoutGenesis_sort.mpr ⟨hsub hb, hgenesis⟩
    · exact mem_of_mem_filter hb
  · refine compareReplayBlocks_of_height_lt (UInt64.lt_of_le_of_lt (hlow a ha) ?_)
    exact of_decide_eq_true (mem_filter.mp hb).2
  · -- Both sides have no block twice, so the same members make them a permutation.
    refine (perm_ext_iff_of_nodup (List.Nodup.of_map _ hnodup) ?_).mpr fun block => ?_
    · refine nodup_append.mpr ⟨List.Nodup.of_map _ hsubNodup,
        (List.Nodup.of_map _ hnodup).filter _, fun a ha b hb heq => ?_⟩
      rw [heq] at ha
      exact happart b ha (of_decide_eq_true (mem_filter.mp hb).2)
    · rw [mem_append, mem_filter, mem_withoutGenesis_sort, mem_withoutGenesis_sort,
        decide_eq_true_eq]
      constructor
      · rintro ⟨hblock, hgenesis⟩
        rcases habove block hblock hgenesis with hin | hhigh
        · exact .inl ⟨hin, hgenesis⟩
        · exact .inr ⟨⟨hblock, hgenesis⟩, hhigh⟩
      · rintro (⟨hblock, hgenesis⟩ | ⟨hblock, -⟩)
        · exact ⟨hsub hblock, hgenesis⟩
        · exact hblock

/-- Every block that the snapshot lacks is above its best height. -/
def AboveSnapshot (snapshot : ChainState) (sub blocks : List Block) : Prop :=
  ∀ block ∈ blocks, block.hash ≠ snapshot.dag.genesisHash →
    block ∈ sub ∨ snapshot.dag.bestHeight < block.header.height

instance (snapshot : ChainState) (sub blocks : List Block) :
    Decidable (AboveSnapshot snapshot sub blocks) := by
  unfold AboveSnapshot
  infer_instance

/-- The replay from a snapshot is a fold over the sorted blocks also when there are none. -/
theorem rebuildStateFromSnapshotAndBlocks_eq_foldlM (clock : Clock) (snapshot : ChainState)
    (blocks : List Block) : rebuildStateFromSnapshotAndBlocks clock snapshot blocks =
      (sortBlocksForDeterministicReplay blocks).foldlM
        (replayDeltaBlock clock snapshot.dag.bestHeight) snapshot := by
  rw [rebuildStateFromSnapshotAndBlocks]
  split
  · next hnil => rw [hnil]; rfl
  · rfl

/-- A block that the snapshot lacks and that is not above its best height is not replayed. -/
theorem aboveSnapshot_of_stores {clock earlier later : Clock} {chainId : String} {sub : List Block}
    {full replayed : ChainState} (hsub : sub ⊆ blocks)
    (hfull : applyBlocks clock (withoutGenesis (initChainState chainId).dag.genesisHash
      (sortBlocksForDeterministicReplay blocks)) (initChainState chainId) = .ok full)
    (hsnapshot : applyBlocks earlier (withoutGenesis (initChainState chainId).dag.genesisHash
      (sortBlocksForDeterministicReplay sub)) (initChainState chainId) = .ok snapshot)
    (hreplayed : rebuildStateFromSnapshotAndBlocks later snapshot blocks = .ok replayed)
    (hstores : ∀ hash ∈ full.dag.blocks, hash ∈ replayed.dag.blocks) :
    AboveSnapshot snapshot sub blocks := by
  intro block hblock hgenesis
  rw [applyBlocks_genesisHash hsnapshot] at hgenesis
  have hlisted := mem_withoutGenesis_sort.mpr ⟨hblock, hgenesis⟩
  obtain ⟨hnodup, hfresh⟩ := applyBlocks_nodup hfull
  -- The full rebuild has one block of each hash, so a stored hash tells which block it came from.
  have hunique : ∀ other ∈ blocks, other.hash = block.hash → other = block :=
    fun other hother heq => inj_on_of_nodup_map hnodup
      (mem_withoutGenesis_sort.mpr ⟨hother, heq ▸ hgenesis⟩) hlisted heq
  have hstored := hstores block.hash
    ((applyBlocks_mem_blocks hfull _).mpr (.inr (mem_map_of_mem hlisted)))
  rw [rebuildStateFromSnapshotAndBlocks_eq_foldlM] at hreplayed
  rcases replayDeltaBlocks_mem_blocks hreplayed _ hstored with hold | ⟨other, hother, heq, hheight⟩
  · rcases (applyBlocks_mem_blocks hsnapshot _).mp hold with hinit | hold
    · exact absurd hinit (hfresh block hlisted)
    · obtain ⟨other, hother, heq⟩ := mem_map.mp hold
      have hother := (mem_withoutGenesis_sort.mp hother).1
      exact .inl (hunique other (hsub hother) heq ▸ hother)
  · rw [sortBlocksForDeterministicReplay, mem_insertionSort] at hother
    exact .inr (hunique other hother heq ▸ hheight)

/-- A snapshot and the blocks give the state of a full rebuild exactly when every block that the
snapshot lacks is above its best height; otherwise a block of the full rebuild is lost. -/
theorem rebuildStateFromSnapshotAndBlocks_eq_rebuild {clock earlier later : Clock}
    {chainId : String} {blocks sub : List Block} {full snapshot : ChainState} (hsub : sub ⊆ blocks)
    (hfull : rebuildStateFromBlocks clock chainId blocks = .ok full)
    (hsnapshot : rebuildStateFromBlocks earlier chainId sub = .ok snapshot)
    (hlater : clock.NotBefore later) :
    (rebuildStateFromSnapshotAndBlocks later snapshot blocks = .ok full ↔
      AboveSnapshot snapshot sub blocks) ∧
    ∀ replayed, rebuildStateFromSnapshotAndBlocks later snapshot blocks = .ok replayed →
      (∀ hash ∈ full.dag.blocks, hash ∈ replayed.dag.blocks) →
        AboveSnapshot snapshot sub blocks := by
  rw [rebuildStateFromBlocks_eq_foldlM] at hfull hsnapshot
  have hfullRun := applyBlocks_of_replayStoredBlocks hfull
  have hsnapshotRun := applyBlocks_of_replayStoredBlocks hsnapshot
  have hstores : ∀ replayed,
      rebuildStateFromSnapshotAndBlocks later snapshot blocks = .ok replayed →
      (∀ hash ∈ full.dag.blocks, hash ∈ replayed.dag.blocks) → AboveSnapshot snapshot sub blocks :=
    fun replayed => aboveSnapshot_of_stores hsub hfullRun hsnapshotRun
  refine ⟨⟨fun heq => hstores full heq fun hash hmem => hmem, fun habove => ?_⟩, hstores⟩
  have hgenesis := applyBlocks_genesisHash hsnapshotRun
  rw [AboveSnapshot, hgenesis] at habove
  rw [sorted_eq_snapshot_append_delta hsub hfullRun hsnapshotRun habove,
    applyBlocks_append_eq_ok] at hfullRun
  obtain ⟨middle, hmiddle, hdelta⟩ := hfullRun
  obtain rfl := applyBlocks_unique hmiddle hsnapshotRun
  rw [← hgenesis] at hdelta
  rw [rebuildStateFromSnapshotAndBlocks_eq_foldlM]
  exact replayDeltaBlocks_of_applyBlocks (applyBlocks_later hlater hdelta)

/-! ## Two concrete replays -/

/-- A version 1 coinbase. -/
def legacyCoinbase (nonce : UInt64) : Transaction :=
  let tx : Transaction :=
    { txid := "", version := transactionVersionV1, inputs := [], outputs := [⟨"m", 0⟩], fee := 0,
      nonce := nonce }
  { tx with txid := computeTxid tx }

/-- A block on stored parents with the header that `validate_block` asks for. -/
def mineLegacyBlock (state : ChainState) (parents : List Hash) (nonce : UInt64)
    (transactions : List Transaction) : Except PulseError Block := do
  let (height, timestamp) ← legacyParentBounds state parents
  let header : BlockHeader :=
    { version := 1, parents := parents, timestamp := timestamp + 1, difficulty := 0, nonce := nonce,
      merkleRoot := computeMerkleRoot transactions, stateRoot := "", blueScore := 0,
      height := height }
  let draft : Block := ⟨"", header, transactions⟩
  let difficulty :=
    (selectedParentForStateValidation draft state).bind (expectedDifficultyForParent state)
  let context ← parentStateContext draft state
  let header := { header with
    difficulty := difficulty.getD 0
    stateRoot := ← computePostStateRoot draft context }
  pure ⟨computeBlockHash header, header, transactions⟩

/-- A time at which the blocks are not in the future. -/
def legacyClock : Clock := ⟨1000, 0⟩

/-- Every parent of a block in the list is the hash of a block in the list. -/
def ParentsListed (blocks : List Block) : Prop :=
  ∀ block ∈ blocks, ∀ parent ∈ block.header.parents, parent ∈ blocks.map Block.hash

instance (blocks : List Block) : Decidable (ParentsListed blocks) := by
  unfold ParentsListed
  infer_instance

/-- The genesis block, a block on it, and a block on the parent that the two determine. -/
def threeBlocks (parent : Block → Hash) : Except PulseError (List Block) := do
  let state := initChainState "c"
  let first ← mineLegacyBlock state [genesisBlock.hash] 1 [legacyCoinbase 1]
  let next ← applyBlock legacyClock first state
  let second ← mineLegacyBlock next [parent first] 2 [legacyCoinbase 2]
  pure [genesisBlock, first, second]

/-- The states of three blocks, of the first two, and of the first two followed by a replay. -/
def snapshotRun (parent : Block → Hash) :
    Except PulseError (List Block × ChainState × ChainState × ChainState) := do
  let blocks ← threeBlocks parent
  let full ← rebuildStateFromBlocks legacyClock "c" blocks
  let snapshot ← rebuildStateFromBlocks legacyClock "c" (blocks.take 2)
  let replayed ← rebuildStateFromSnapshotAndBlocks legacyClock snapshot blocks
  pure (blocks, full, snapshot, replayed)

/-- What the sample run has computed. -/
theorem snapshotRun_eq_some {parent : Block → Hash} {full replayed : ChainState}
    (h : (snapshotRun parent).toOption = some (blocks, full, snapshot, replayed)) :
    rebuildStateFromBlocks legacyClock "c" blocks = .ok full ∧
      rebuildStateFromBlocks legacyClock "c" (blocks.take 2) = .ok snapshot ∧
      rebuildStateFromSnapshotAndBlocks legacyClock snapshot blocks = .ok replayed := by
  have hok := eq_ok_of_toOption h
  simp only [snapshotRun, ok_iff, Prod.mk.injEq] at hok
  obtain ⟨_, -, _, hfull, _, hsnapshot, _, hreplayed, rfl, rfl, rfl, rfl⟩ := hok
  exact ⟨hfull, hsnapshot, hreplayed⟩

end

/-- The second block is on the first one, above the snapshot. -/
theorem rebuildStateFromSnapshotAndBlocks_eq_rebuild_chain : letI := checksumCrypto
    ∃ blocks full snapshot,
      rebuildStateFromBlocks legacyClock "c" blocks = .ok full ∧
      rebuildStateFromBlocks legacyClock "c" (blocks.take 2) = .ok snapshot ∧
      full.dag.blocks.size = 3 ∧ snapshot.dag.blocks.size = 2 ∧
      rebuildStateFromSnapshotAndBlocks legacyClock snapshot blocks = .ok full := by
  let := checksumCrypto
  have hrun : (snapshotRun Block.hash).toOption.map (fun run =>
      decide (AboveSnapshot run.2.2.1 (run.1.take 2) run.1 ∧
        run.2.1.dag.blocks.size = 3 ∧ run.2.2.1.dag.blocks.size = 2)) = some true := by
    decide +kernel
  simp only [Option.map_eq_some_iff, Prod.exists, decide_eq_true_eq] at hrun
  obtain ⟨blocks, full, snapshot, replayed, hsome, habove, hfullSize, hsnapshotSize⟩ := hrun
  obtain ⟨hfull, hsnapshot, -⟩ := snapshotRun_eq_some hsome
  exact ⟨blocks, full, snapshot, hfull, hsnapshot, hfullSize, hsnapshotSize,
    (rebuildStateFromSnapshotAndBlocks_eq_rebuild (take_subset 2 blocks) hfull hsnapshot
      (UInt64.le_refl _)).1.mpr habove⟩

/-- The second block is a sibling of the first one, at the best height of the snapshot: the replay
from the snapshot loses it. -/
theorem rebuildStateFromSnapshotAndBlocks_loses_sibling : letI := checksumCrypto
    ∃ blocks full snapshot replayed, ParentsListed blocks ∧ ParentsListed (blocks.take 2) ∧
      rebuildStateFromBlocks legacyClock "c" blocks = .ok full ∧
      rebuildStateFromBlocks legacyClock "c" (blocks.take 2) = .ok snapshot ∧
      rebuildStateFromSnapshotAndBlocks legacyClock snapshot blocks = .ok replayed ∧
      ∃ lost ∈ blocks, lost.hash ∈ full.dag.blocks ∧ lost.hash ∉ replayed.dag.blocks ∧
        lost.hash ∈ full.dag.tips ∧ lost.hash ∉ replayed.dag.tips := by
  let := checksumCrypto
  have hrun : (snapshotRun fun _ => genesisBlock.hash).toOption.map (fun run =>
      decide (ParentsListed run.1 ∧ ParentsListed (run.1.take 2) ∧
        ∃ lost ∈ run.1, lost.hash ∈ run.2.1.dag.blocks ∧ lost.hash ∉ run.2.2.2.dag.blocks ∧
          lost.hash ∈ run.2.1.dag.tips ∧ lost.hash ∉ run.2.2.2.dag.tips)) = some true := by
    decide +kernel
  simp only [Option.map_eq_some_iff, Prod.exists, decide_eq_true_eq] at hrun
  obtain ⟨blocks, full, snapshot, replayed, hsome, hlisted, hlistedSub, hlost⟩ := hrun
  obtain ⟨hfull, hsnapshot, hreplayed⟩ := snapshotRun_eq_some hsome
  exact ⟨blocks, full, snapshot, replayed, hlisted, hlistedSub, hfull, hsnapshot, hreplayed, hlost⟩

end PulseDag
