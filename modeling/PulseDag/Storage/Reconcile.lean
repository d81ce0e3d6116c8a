import PulseDag.Lib.CoinMap
import PulseDag.Storage.Retention

/-!
# Reopening a pruned storage

`reconcile_accepted_storage_at_startup` compares the accepted blocks with the persisted
chain state. It accepts missing blocks only below the lowest block that is left, while
pruning deletes one block at a time, in any order, and keeps low parents of window blocks.
-/

namespace PulseDag

open List

/-- `StartupStorageReconciliationReport`. -/
structure StartupStorageReconciliationReport where
  repaired : Bool
  quarantinedAcceptedRecords : List Hash
  missingAcceptedRecords : List Hash
  deriving DecidableEq, Repr

/-- Move an accepted block to the quarantine. -/
def Storage.quarantine (storage : Storage) (block : Block) : Storage :=
  { storage with
    accepted := storage.accepted.erase block.hash
    terminalMissingParent := storage.terminalMissingParent.insert block.hash block }

/-- The hashes of the accepted blocks. -/
def Storage.acceptedHashes (storage : Storage) : TreeSet Hash :=
  markAll ∅ (storage.listBlocks.map Block.hash)

/-- The hashes of the chain state without an accepted block. -/
def Storage.missingHashes (storage : Storage) (snapshot : ChainState) : List Hash :=
  snapshot.dag.blocks.keys.filter (· ∉ storage.acceptedHashes)

/-- The accepted blocks that the chain state does not know. -/
def Storage.strayBlocks (storage : Storage) (snapshot : ChainState) : List Block :=
  storage.listBlocks.filter fun block => block.hash ∉ snapshot.dag.blocks

/-- The heights of the blocks of the chain state that are accepted. -/
def Storage.acceptedHeights (storage : Storage) (snapshot : ChainState) : List UInt64 :=
  storage.acceptedHashes.toList.filterMap fun hash =>
    snapshot.dag.blocks[hash]?.map fun block => block.header.height

/-- Whether all missing blocks are below the lowest accepted one. -/
def Storage.missingOnlyBelowRetainedFloor (storage : Storage) (snapshot : ChainState) : Bool :=
  match (storage.acceptedHeights snapshot).min? with
  | some floor => (storage.missingHashes snapshot).all fun hash =>
      match snapshot.dag.blocks[hash]? with
      | some block => block.header.height < floor
      | none => false
  | none => false

/-- `reconcile_accepted_storage_at_startup`, which `open` runs. -/
def Storage.reconcileAcceptedStorageAtStartup (storage : Storage) :
    Except PulseError (Storage × StartupStorageReconciliationReport) :=
  match storage.chainState with
  | none => .ok (storage, ⟨false, [], []⟩)
  | some snapshot => do
    let missing := storage.missingHashes snapshot
    let stray := storage.strayBlocks snapshot
    ensure (missing = [] ∨ storage.missingOnlyBelowRetainedFloor snapshot) (.storageError
      (("startup accepted storage reconciliation failed: snapshot references missing accepted " ++
        "block records: ")
        ++ String.intercalate "," missing))
    pure (stray.foldl Storage.quarantine storage,
      { repaired := stray ≠ []
        quarantinedAcceptedRecords := stray.map Block.hash
        missingAcceptedRecords := missing })

/-! ## A storage that holds a state -/

/-- The state is the persisted chain state, and every block of it is accepted under its own
hash. -/
structure Storage.Holds (storage : Storage) (state : ChainState) : Prop where
  chainState : storage.chainState = some state
  stored : ∀ (hash : Hash) (block : Block), state.dag.blocks[hash]? = some block →
    storage.accepted[hash]? = some block
  keyed : ∀ (hash : Hash) (block : Block), storage.accepted[hash]? = some block → block.hash = hash

/-- Deleting blocks one after the other. -/
theorem Storage.deleteBlocks_eq (storage : Storage) (hashes : List Hash) :
    (storage.deleteBlocks hashes).1 =
      { storage with accepted := eraseAll storage.accepted hashes } := by
  have hrun : ∀ (hashes : List Hash) (pruning : Storage × ℕ),
      (hashes.foldl Storage.deleteBlock pruning).1 =
        { pruning.1 with accepted := eraseAll pruning.1.accepted hashes } := by
    intro hashes
    induction hashes with
    | nil => exact fun _ => rfl
    | cons hash rest ih =>
      intro pruning
      rw [foldl_cons, ih, Storage.deleteBlock, eraseAll_cons]
      split
      · rfl
      · rename_i habsent
        have hnotMem : hash ∉ pruning.1.accepted := by
          rw [TreeMap.mem_iff, ← Option.isSome_iff_exists]
          exact habsent
        rw [TreeMap.erase_of_notMem hnotMem]
  exact hrun hashes (storage, 0)

section

variable {state : ChainState} {boundary : UInt64} {hash : Hash}
  (hkeyed : ∀ (hash : Hash) (block : Block), state.dag.blocks[hash]? = some block →
    block.hash = hash)

include hkeyed

/-- The blocks that are to be deleted are those below the boundary that are not kept. -/
theorem mem_eligible : hash ∈ historicalBlocksEligibleForDeletion state boundary ↔
    ∃ block, state.dag.blocks[hash]? = some block ∧ block.header.height < boundary ∧
      hash ∉ retainedMemoryHashes state boundary := by
  simp only [historicalBlocksEligibleForDeletion, mem_map, mem_filter, Prod.exists,
    TreeMap.mem_toList, decide_eq_true_eq]
  constructor
  · rintro ⟨block, ⟨⟨key, _, hblock, rfl⟩, hlow, hnot⟩, rfl⟩
    rw [hkeyed key _ hblock] at hnot ⊢
    exact ⟨_, hblock, hlow, hnot⟩
  · rintro ⟨block, hblock, hlow, hnot⟩
    have hhash := hkeyed hash block hblock
    exact ⟨block, ⟨⟨hash, block, hblock, rfl⟩, hlow, by rwa [hhash]⟩, hhash⟩

/-- Of the blocks of the state, those that are not to be deleted are kept. -/
theorem notMem_eligible (hmem : hash ∈ state.dag.blocks) :
    hash ∉ historicalBlocksEligibleForDeletion state boundary ↔
      hash ∈ retainedMemoryHashes state boundary := by
  obtain ⟨block, hblock⟩ := (TreeMap.mem_iff _ _).mp hmem
  rw [mem_eligible hkeyed]
  constructor
  · intro hnot
    by_contra hdropped
    refine hnot ⟨block, hblock, UInt64.not_le.mp fun hhigh => hdropped ?_, hdropped⟩
    exact mem_retainedMemoryHashes.mpr (.inl (mem_finalityWindow.mpr
      ⟨hash, block, hblock, hhigh, hkeyed hash block hblock⟩))
  · rintro hkept ⟨-, -, -, hdropped⟩
    exact hdropped hkept

end

/-- The stored blocks. -/
theorem Storage.mem_listBlocks {storage : Storage} {block : Block} :
    block ∈ storage.listBlocks ↔ ∃ hash : Hash, storage.accepted[hash]? = some block := by
  rw [Storage.listBlocks, mem_insertionSort, mem_map]
  simp only [Prod.exists, TreeMap.mem_toList]
  constructor
  · rintro ⟨hash, stored, hstored, rfl⟩
    exact ⟨hash, hstored⟩
  · rintro ⟨hash, hblock⟩
    exact ⟨hash, block, hblock, rfl⟩

section

variable {storage : Storage} {state : ChainState} {deleted : List Hash}

/-- The storage after deletions. -/
def Storage.without (storage : Storage) (deleted : List Hash) : Storage :=
  { storage with accepted := eraseAll storage.accepted deleted }

/-- What is stored after a deletion. -/
theorem Storage.getElem?_without (hash : Hash) :
    (storage.without deleted).accepted[hash]? =
      if hash ∈ deleted then none else storage.accepted[hash]? :=
  getElem?_eraseAll storage.accepted deleted hash

/-- The hashes that are left after a deletion. -/
theorem Storage.Holds.mem_acceptedHashes_without (h : storage.Holds state) {hash : Hash} :
    hash ∈ (storage.without deleted).acceptedHashes ↔ hash ∈ storage.accepted ∧ hash ∉ deleted := by
  rw [Storage.acceptedHashes, mem_markAll, or_iff_right Std.ExtTreeSet.not_mem_empty, mem_map]
  simp only [Storage.mem_listBlocks, Storage.getElem?_without]
  constructor
  · rintro ⟨block, ⟨key, hblock⟩, rfl⟩
    by_cases hdeleted : key ∈ deleted
    · rw [if_pos hdeleted] at hblock
      cases hblock
    · rw [if_neg hdeleted] at hblock
      rw [h.keyed key block hblock]
      exact ⟨(TreeMap.mem_iff _ _).mpr ⟨block, hblock⟩, hdeleted⟩
  · rintro ⟨hmem, hdeleted⟩
    obtain ⟨block, hblock⟩ := (TreeMap.mem_iff _ _).mp hmem
    exact ⟨block, ⟨hash, by rw [if_neg hdeleted, hblock]⟩, h.keyed hash block hblock⟩

/-- The missing blocks are those that have been deleted. -/
theorem Storage.Holds.mem_missingHashes_without (h : storage.Holds state) {hash : Hash} :
    hash ∈ (storage.without deleted).missingHashes state ↔
      hash ∈ state.dag.blocks ∧ hash ∈ deleted := by
  rw [Storage.missingHashes, mem_filter, Std.ExtTreeMap.mem_keys, decide_eq_true_eq,
    h.mem_acceptedHashes_without]
  refine and_congr_right fun hmem => ?_
  obtain ⟨block, hblock⟩ := (TreeMap.mem_iff _ _).mp hmem
  have haccepted : hash ∈ storage.accepted :=
    (TreeMap.mem_iff _ _).mpr ⟨block, h.stored hash block hblock⟩
  tauto

/-- The heights that are left after a deletion. -/
theorem Storage.Holds.mem_acceptedHeights_without (h : storage.Holds state) {height : UInt64} :
    height ∈ (storage.without deleted).acceptedHeights state ↔
      ∃ (hash : Hash) (block : Block), state.dag.blocks[hash]? = some block ∧ hash ∉ deleted ∧
        block.header.height = height := by
  simp only [Storage.acceptedHeights, mem_filterMap, Std.ExtTreeSet.mem_toList,
    h.mem_acceptedHashes_without, Option.map_eq_some_iff]
  constructor
  · rintro ⟨hash, ⟨-, hdeleted⟩, block, hblock, rfl⟩
    exact ⟨hash, block, hblock, hdeleted, rfl⟩
  · rintro ⟨hash, block, hblock, hdeleted, rfl⟩
    exact ⟨hash, ⟨(TreeMap.mem_iff _ _).mpr ⟨block, h.stored hash block hblock⟩, hdeleted⟩, block,
      hblock, rfl⟩

/-- Every deleted block is lower than every block that is left, of which there is one. -/
def DeletedBelow (state : ChainState) (deleted : List Hash) : Prop :=
  (∃ hash ∈ state.dag.blocks, hash ∉ deleted) ∧
    ∀ (gone left : Hash) (goneBlock leftBlock : Block), gone ∈ deleted → left ∉ deleted →
      state.dag.blocks[gone]? = some goneBlock → state.dag.blocks[left]? = some leftBlock →
      goneBlock.header.height < leftBlock.header.height

/-- The floor test asks for exactly that. -/
theorem Storage.Holds.missingOnlyBelow_iff (h : storage.Holds state) :
    (storage.without deleted).missingOnlyBelowRetainedFloor state = true ↔
      DeletedBelow state deleted := by
  rw [Storage.missingOnlyBelowRetainedFloor]
  cases hmin : ((storage.without deleted).acceptedHeights state).min? with
  | none =>
    refine iff_of_false (by simp) ?_
    rintro ⟨⟨hash, hmem, hleft⟩, -⟩
    obtain ⟨block, hblock⟩ := (TreeMap.mem_iff _ _).mp hmem
    have hheight := h.mem_acceptedHeights_without.mpr ⟨hash, block, hblock, hleft, rfl⟩
    rw [min?_eq_none_iff.mp hmin] at hheight
    cases hheight
  | some floor =>
    obtain ⟨hfloor, hleast⟩ := min?_eq_some_iff.mp hmin
    obtain ⟨lowest, lowestBlock, hlowest, hleft, hheight⟩ := h.mem_acceptedHeights_without.mp hfloor
    simp only [all_eq_true, h.mem_missingHashes_without]
    constructor
    · intro hall
      refine ⟨⟨lowest, (TreeMap.mem_iff _ _).mpr ⟨_, hlowest⟩, hleft⟩, ?_⟩
      intro gone left goneBlock leftBlock hgone hnotDeleted hgoneBlock hleftBlock
      have hbelow := hall gone ⟨(TreeMap.mem_iff _ _).mpr ⟨_, hgoneBlock⟩, hgone⟩
      simp only [hgoneBlock, decide_eq_true_eq] at hbelow
      exact UInt64.lt_of_lt_of_le hbelow (hleast _ (h.mem_acceptedHeights_without.mpr
        ⟨left, leftBlock, hleftBlock, hnotDeleted, rfl⟩))
    · rintro ⟨-, hbelow⟩ gone ⟨hmem, hgone⟩
      obtain ⟨goneBlock, hgoneBlock⟩ := (TreeMap.mem_iff _ _).mp hmem
      have hlt := hbelow gone lowest goneBlock lowestBlock hgone hleft hgoneBlock hlowest
      rw [hheight] at hlt
      simp only [hgoneBlock, decide_eq_true_eq]
      exact hlt

/-- When there are no stray blocks. -/
theorem Storage.Holds.strayBlocks_eq_nil (h : storage.Holds state)
    (hdeleted : ∀ hash ∈ deleted, hash ∈ state.dag.blocks) :
    (storage.without deleted).strayBlocks state = [] ↔
      ∀ hash ∈ storage.accepted, hash ∈ state.dag.blocks := by
  rw [Storage.strayBlocks, filter_eq_nil_iff]
  simp only [Storage.mem_listBlocks, Storage.getElem?_without, decide_eq_true_eq, not_not]
  constructor
  · intro hall hash hmem
    by_cases hgone : hash ∈ deleted
    · exact hdeleted hash hgone
    · obtain ⟨block, hblock⟩ := (TreeMap.mem_iff _ _).mp hmem
      have hknown := hall block ⟨hash, by rw [if_neg hgone, hblock]⟩
      rwa [h.keyed hash block hblock] at hknown
  · rintro hall block ⟨key, hblock⟩
    by_cases hgone : key ∈ deleted
    · rw [if_pos hgone] at hblock
      cases hblock
    · rw [if_neg hgone] at hblock
      rw [h.keyed key block hblock]
      exact hall key ((TreeMap.mem_iff _ _).mpr ⟨block, hblock⟩)

/-- The startup check succeeds and quarantines nothing. -/
def Storage.ReopensClean (storage : Storage) : Prop :=
  ∃ reopened report, storage.reconcileAcceptedStorageAtStartup = .ok (reopened, report) ∧
    report.quarantinedAcceptedRecords = []

/-- After deletions the storage reopens without a quarantine exactly when it held no stray block,
and either nothing has been deleted or every deleted block is lower than every block that is
left. -/
theorem Storage.Holds.reopensClean_iff (hholds : storage.Holds state)
    (hdeleted : ∀ hash ∈ deleted, hash ∈ state.dag.blocks) :
    (storage.deleteBlocks deleted).1.ReopensClean ↔
      (∀ hash ∈ storage.accepted, hash ∈ state.dag.blocks) ∧
        (deleted = [] ∨ DeletedBelow state deleted) := by
  have hmissing : (storage.without deleted).missingHashes state = [] ↔ deleted = [] := by
    rw [eq_nil_iff_forall_not_mem, eq_nil_iff_forall_not_mem]
    refine forall_congr' fun hash => ?_
    rw [hholds.mem_missingHashes_without, and_iff_right_of_imp (hdeleted hash)]
  have hstate : (storage.without deleted).chainState = some state := hholds.chainState
  rw [Storage.deleteBlocks_eq]
  change (storage.without deleted).ReopensClean ↔ _
  rw [← hholds.strayBlocks_eq_nil hdeleted, ← hmissing, ← hholds.missingOnlyBelow_iff,
    Storage.ReopensClean]
  simp only [Storage.reconcileAcceptedStorageAtStartup, hstate, bind_eq_ok, ensure_eq_ok,
    pure_eq_ok, Except.ok.injEq, Prod.mk.injEq]
  constructor
  · rintro ⟨_, _, ⟨-, hfloor, rfl, rfl⟩, hquarantined⟩
    exact ⟨map_eq_nil_iff.mp hquarantined, hfloor⟩
  · rintro ⟨hstray, hfloor⟩
    refine ⟨_, _, ⟨(), hfloor, rfl, rfl⟩, ?_⟩
    rw [hstray]
    rfl

/-- Some block is kept, and every kept block below the boundary is higher than every block that is
to be deleted. -/
def KeptAbove (state : ChainState) (boundary : UInt64) : Prop :=
  (∃ hash ∈ state.dag.blocks, hash ∈ retainedMemoryHashes state boundary) ∧
    ∀ (gone kept : Hash) (goneBlock keptBlock : Block),
      gone ∈ historicalBlocksEligibleForDeletion state boundary →
      kept ∈ retainedMemoryHashes state boundary →
      state.dag.blocks[gone]? = some goneBlock → state.dag.blocks[kept]? = some keptBlock →
      keptBlock.header.height < boundary → goneBlock.header.height < keptBlock.header.height

/-- When all blocks are deleted that are to be, the window does not matter for the order of
heights. -/
theorem deletedBelow_eligible {boundary : UInt64}
    (hkeyed : ∀ (hash : Hash) (block : Block), state.dag.blocks[hash]? = some block →
      block.hash = hash) :
    DeletedBelow state (historicalBlocksEligibleForDeletion state boundary) ↔
      KeptAbove state boundary := by
  have hmem : ∀ {hash : Hash} {block : Block}, state.dag.blocks[hash]? = some block →
      hash ∈ state.dag.blocks := fun hblock => (TreeMap.mem_iff _ _).mpr ⟨_, hblock⟩
  refine and_congr (exists_congr fun hash => and_congr_right fun hstored =>
    notMem_eligible hkeyed hstored) ⟨fun hbelow => ?_, fun habove => ?_⟩
  · intro gone kept goneBlock keptBlock hgone hkept hgoneBlock hkeptBlock _
    exact hbelow gone kept goneBlock keptBlock hgone
      ((notMem_eligible hkeyed (hmem hkeptBlock)).mpr hkept) hgoneBlock hkeptBlock
  · intro gone left goneBlock leftBlock hgone hleft hgoneBlock hleftBlock
    by_cases hlow : leftBlock.header.height < boundary
    · exact habove gone left goneBlock leftBlock hgone
        ((notMem_eligible hkeyed (hmem hleftBlock)).mp hleft) hgoneBlock hleftBlock hlow
    · obtain ⟨_, hblock, hgoneLow, -⟩ := (mem_eligible hkeyed).mp hgone
      obtain rfl := Option.some.inj (hblock.symm.trans hgoneBlock)
      exact UInt64.lt_of_lt_of_le hgoneLow (UInt64.not_lt.mp hlow)

/-- After the first deletions of a pruning, in whatever order the hash map lists them, the
storage reopens without a quarantine exactly when it held no stray block, and either nothing
has been deleted or every deleted block is lower than every block that is left. After the finished
pruning the latter says that no parent kept below the boundary is as low as a deleted block. -/
theorem Storage.reopensClean_after_prune {boundary : UInt64} {order : List Hash}
    (hholds : storage.Holds state)
    (horder : order.Perm (historicalBlocksEligibleForDeletion state boundary)) :
    (∀ n, (storage.deleteBlocks (order.take n)).1.ReopensClean ↔
      (∀ hash ∈ storage.accepted, hash ∈ state.dag.blocks) ∧
        (order.take n = [] ∨ DeletedBelow state (order.take n))) ∧
    ((storage.pruneBlocksWithRetainedSet state boundary order).1.ReopensClean ↔
      (∀ hash ∈ storage.accepted, hash ∈ state.dag.blocks) ∧
        (historicalBlocksEligibleForDeletion state boundary = [] ∨ KeptAbove state boundary)) := by
  have hkeyed : ∀ (hash : Hash) (block : Block), state.dag.blocks[hash]? = some block →
      block.hash = hash := fun hash block hblock =>
    hholds.keyed hash block (hholds.stored hash block hblock)
  have hdeleted : ∀ hash ∈ order, hash ∈ state.dag.blocks := fun hash hmem => by
    obtain ⟨block, hblock, -⟩ := (mem_eligible hkeyed).mp (horder.mem_iff.mp hmem)
    exact (TreeMap.mem_iff _ _).mpr ⟨block, hblock⟩
  have hsame : DeletedBelow state order ↔
      DeletedBelow state (historicalBlocksEligibleForDeletion state boundary) := by
    simp only [DeletedBelow, horder.mem_iff]
  refine ⟨fun n => hholds.reopensClean_iff fun hash hmem =>
    hdeleted hash (mem_of_mem_take hmem), (hholds.reopensClean_iff hdeleted).trans ?_⟩
  rw [hsame, deletedBelow_eligible hkeyed, ← length_eq_zero_iff, horder.length_eq,
    length_eq_zero_iff]

end

/-- The storage that holds exactly the blocks of a state. -/
def storageOf (state : ChainState) : Storage :=
  { accepted := state.dag.blocks, chainState := some state }

/-- The storage of a state holds it. -/
theorem storageOf_holds {state : ChainState}
    (h : (state.dag.blocks.toList.all fun entry => entry.2.hash == entry.1) = true) :
    (storageOf state).Holds state := by
  refine ⟨rfl, fun _ _ hblock => hblock, fun hash block hblock => ?_⟩
  have hkeyed := all_eq_true.mp h (hash, block) ((TreeMap.mem_toList _ _ _).mpr hblock)
  exact beq_iff_eq.mp hkeyed

/-- A failed start is not clean. -/
theorem not_reopensClean {storage : Storage}
    (h : storage.reconcileAcceptedStorageAtStartup.toOption.isNone = true) :
    ¬storage.ReopensClean := by
  rintro ⟨reopened, report, hok, -⟩
  rw [hok] at h
  cases h

/-- When the genesis block is deleted first, a crash after that deletion does no harm. -/
theorem reopensClean_after_prune_shortChain : letI := checksumCrypto
    ∃ (state : ChainState) (order : List Hash), (storageOf state).Holds state ∧
      order.Perm (historicalBlocksEligibleForDeletion state 2) ∧
      ((storageOf state).deleteBlocks (order.take 1)).1.ReopensClean ∧
      DeletedBelow state (order.take 1) := by
  let := checksumCrypto
  have hrun : ((sampleRun shortChain).toOption.map fun run =>
      let order := (historicalBlocksEligibleForDeletion run.2 2).reverse
      (run.2.dag.blocks.toList.all fun entry => entry.2.hash == entry.1) &&
        order.take 1 != [] &&
        (((storageOf run.2).deleteBlocks
          (order.take 1)).1.reconcileAcceptedStorageAtStartup.toOption.map
          fun reopened => reopened.2.quarantinedAcceptedRecords) == some []) = some true := by
    decide +kernel
  simp only [Option.map_eq_some_iff, Bool.and_eq_true, beq_iff_eq, bne_iff_ne] at hrun
  obtain ⟨⟨s0, state⟩, -, ⟨hkeyed, hdeleted⟩, ⟨reopened, report⟩, hok, hquarantined⟩ := hrun
  have hholds := storageOf_holds hkeyed
  have horder := reverse_perm (historicalBlocksEligibleForDeletion state 2)
  have hclean : ((storageOf state).deleteBlocks
      ((historicalBlocksEligibleForDeletion state 2).reverse.take 1)).1.ReopensClean :=
    ⟨reopened, report, eq_ok_of_toOption hok, hquarantined⟩
  refine ⟨state, _, hholds, horder, hclean, ?_⟩
  have hpruned := (Storage.reopensClean_after_prune hholds horder).1 1
  exact (hpruned.mp hclean).2.resolve_left hdeleted

/-- Three blocks, one on top of the other, of which the last one also has the genesis block as
a parent. -/
def lowParent [Crypto] (genesis : Hash) : List Block :=
  let first := bareBlock [genesis] 1 1 0
  let second := bareBlock [first.hash] 2 2 0
  [first, second, bareBlock [second.hash, genesis] 3 3 0]

/-- Two failures. On the short chain, with the boundary at the third block, the first block may
be deleted before the genesis block; after a crash in between it is missing above the lowest
block. With the low parent, the genesis block is kept, so the finished pruning already leaves
the first block missing above the lowest one. -/
theorem reopensClean_fails_after_prune : letI := checksumCrypto
    (∃ (s0 state : ChainState) (order : List Hash), initChainStateV3 "c" 1 = .ok s0 ∧
      CommitRun s0 (shortChain s0.dag.genesisHash) state ∧ (storageOf state).Holds state ∧
      order.Perm (historicalBlocksEligibleForDeletion state 3) ∧
      ¬((storageOf state).deleteBlocks (order.take 1)).1.ReopensClean) ∧
    ∃ (s0 state : ChainState) (order : List Hash), initChainStateV3 "c" 1 = .ok s0 ∧
      CommitRun s0 (lowParent s0.dag.genesisHash) state ∧ (storageOf state).Holds state ∧
      order.Perm (historicalBlocksEligibleForDeletion state 3) ∧
      ¬((storageOf state).pruneBlocksWithRetainedSet state 3 order).1.ReopensClean := by
  let := checksumCrypto
  have hcrash : ((sampleRun shortChain).toOption.map fun run =>
      let order := historicalBlocksEligibleForDeletion run.2 3
      (run.2.dag.blocks.toList.all fun entry => entry.2.hash == entry.1) &&
        ((storageOf run.2).deleteBlocks
          (order.take 1)).1.reconcileAcceptedStorageAtStartup.toOption.isNone) =
      some true := by
    decide +kernel
  have hpruned : ((sampleRun lowParent).toOption.map fun run =>
      let order := historicalBlocksEligibleForDeletion run.2 3
      (run.2.dag.blocks.toList.all fun entry => entry.2.hash == entry.1) &&
        ((storageOf run.2).pruneBlocksWithRetainedSet run.2 3
          order).1.reconcileAcceptedStorageAtStartup.toOption.isNone) = some true := by
    decide +kernel
  simp only [Option.map_eq_some_iff, Bool.and_eq_true] at hcrash hpruned
  obtain ⟨⟨s0, state⟩, hsample, hkeyed, hfails⟩ := hcrash
  obtain ⟨⟨s0', state'⟩, hsample', hkeyed', hfails'⟩ := hpruned
  obtain ⟨h0, hcommits⟩ := sampleRun_eq_some hsample
  obtain ⟨h0', hcommits'⟩ := sampleRun_eq_some hsample'
  exact ⟨⟨s0, state, _, h0, hcommits, storageOf_holds hkeyed, .rfl, not_reopensClean hfails⟩,
    s0', state', _, h0', hcommits', storageOf_holds hkeyed', .rfl, not_reopensClean hfails'⟩

end PulseDag
