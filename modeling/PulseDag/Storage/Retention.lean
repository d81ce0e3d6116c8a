import PulseDag.Ghostdag.Reachable
import PulseDag.Lib.Worklist

/-!
# What pruning keeps

`retained_set_report` of the storage crate. It keeps the finality window, the blocks at or
above a boundary height, and the parents that its search finds. The search marks a parent
when it finds it and skips marked blocks when it pops them, so a window block found as a
parent before its turn is never asked for its own parents.
-/

namespace PulseDag

/-- The column families that pruning and the startup check read and write: the accepted
blocks, the quarantined blocks and the persisted chain state. -/
structure Storage where
  accepted : TreeMap Hash Block
  terminalMissingParent : TreeMap Hash Block := ∅
  chainState : Option ChainState := none

/-- The order of `sort_blocks_for_deterministic_replay`. -/
def compareReplayBlocks (a b : Block) : Ordering :=
  (compare a.header.height b.header.height).then
    ((compare a.header.timestamp b.header.timestamp).then (compare a.hash b.hash))

/-- `list_blocks`. -/
def Storage.listBlocks (storage : Storage) : List Block :=
  (storage.accepted.toList.map Prod.snd).insertionSort fun a b => (compareReplayBlocks a b).isLE

/-- `get_block`. -/
def Storage.getBlock (storage : Storage) (hash : Hash) : Option Block := storage.accepted[hash]?

/-- The hashes of the blocks at or above the boundary. -/
def finalityWindow (state : ChainState) (pruneBoundaryHeight : UInt64) : TreeSet Hash :=
  markAll ∅ (((state.dag.blocks.toList.map Prod.snd).filter fun block =>
    pruneBoundaryHeight ≤ block.header.height).map Block.hash)

/-- The parents of a block that are present in the state. -/
def presentParents (state : ChainState) (hash : Hash) : List Hash :=
  match state.dag.blocks[hash]? with
  | some block => block.header.parents.filter (· ∈ state.dag.blocks)
  | none => []

/-- Whether a hash names a block at or above the boundary. -/
def atOrAbove (state : ChainState) (pruneBoundaryHeight : UInt64) (hash : Hash) : Bool :=
  match state.dag.blocks[hash]? with
  | some block => pruneBoundaryHeight ≤ block.header.height
  | none => false

/-- The stack that the search starts with; its last block is popped first. -/
def windowStack (state : ChainState) (pruneBoundaryHeight : UInt64) : List Hash :=
  (finalityWindow state pruneBoundaryHeight).toList.reverse

/-- The search for parents. -/
def parentClosure (state : ChainState) (pruneBoundaryHeight : UInt64) : Option (TreeSet Hash) :=
  let stack := windowStack state pruneBoundaryHeight
  explore (presentParents state) (atOrAbove state pruneBoundaryHeight)
    (exploreCost (presentParents state) ∅ stack) stack ∅

/-- The hashes that are kept: the window and what the search found. -/
def retainedMemoryHashes (state : ChainState) (pruneBoundaryHeight : UInt64) : TreeSet Hash :=
  markAll (finalityWindow state pruneBoundaryHeight)
    ((parentClosure state pruneBoundaryHeight).getD ∅).toList

/-- The blocks to be deleted, in the order of their hashes; the hash map of the source lists
them in any order. -/
def historicalBlocksEligibleForDeletion (state : ChainState) (pruneBoundaryHeight : UInt64) :
    List Hash :=
  ((state.dag.blocks.toList.map Prod.snd).filter fun block =>
    block.header.height < pruneBoundaryHeight ∧
      block.hash ∉ retainedMemoryHashes state pruneBoundaryHeight).map Block.hash

/-- `RetainedSetReport`, without the digests of the two retained sets. -/
structure RetainedSetReport where
  pruneBoundaryHeight : UInt64
  blocksConsideredTotal : ℕ
  blocksPrunedTotal : ℕ
  selectedBlocksRetained : ℕ
  sideDagBlocksRetained : ℕ
  parentClosureBlocksRetained : ℕ
  finalityWindowBlocksRetained : ℕ
  storageOnlyRetainedHashes : List Hash
  memoryOnlyRetainedHashes : List Hash
  historicalBlocksEligibleForDeletion : List Hash
  deriving DecidableEq, Repr

/-- `retained_set_report`. -/
def Storage.retainedSetReport (storage : Storage) (state : ChainState)
    (pruneBoundaryHeight : UInt64) : RetainedSetReport :=
  let storageBlocks := storage.listBlocks
  let storageHashes := markAll ∅ (storageBlocks.map Block.hash)
  let window := finalityWindow state pruneBoundaryHeight
  let selected := markAll ∅ (state.dag.selectedChain.filter (· ∈ window))
  let closure := (parentClosure state pruneBoundaryHeight).getD ∅
  let retainedMemory := retainedMemoryHashes state pruneBoundaryHeight
  let retainedStorage := storageHashes.toList.filter (· ∈ retainedMemory)
  let eligible := historicalBlocksEligibleForDeletion state pruneBoundaryHeight
  { pruneBoundaryHeight := pruneBoundaryHeight
    blocksConsideredTotal := storageBlocks.length
    blocksPrunedTotal := (eligible.filter (· ∉ storageHashes)).length
    selectedBlocksRetained := selected.size
    sideDagBlocksRetained := (window.toList.filter (· ∉ selected)).length
    parentClosureBlocksRetained := (closure.toList.filter (· ∉ window)).length
    finalityWindowBlocksRetained := window.size
    storageOnlyRetainedHashes := retainedStorage.filter (· ∉ retainedMemory)
    memoryOnlyRetainedHashes := retainedMemory.toList.filter (· ∉ retainedStorage)
    historicalBlocksEligibleForDeletion := eligible }

/-- Delete an accepted block if it is there; count the deletions. -/
def Storage.deleteBlock (pruning : Storage × ℕ) (hash : Hash) : Storage × ℕ :=
  if (pruning.1.getBlock hash).isSome then
    ({ pruning.1 with accepted := pruning.1.accepted.erase hash }, pruning.2 + 1)
  else pruning

/-- The deletions of `prune_blocks_with_retained_set`, one write after the other. -/
def Storage.deleteBlocks (storage : Storage) (hashes : List Hash) : Storage × ℕ :=
  hashes.foldl Storage.deleteBlock (storage, 0)

/-- `prune_blocks_with_retained_set` where the hash map lists the eligible blocks in the given
order. -/
def Storage.pruneBlocksWithRetainedSet (storage : Storage) (state : ChainState)
    (pruneBoundaryHeight : UInt64) (order : List Hash) : Storage × RetainedSetReport :=
  let pruned := storage.deleteBlocks order
  (pruned.1, { pruned.1.retainedSetReport state pruneBoundaryHeight with
    blocksPrunedTotal := pruned.2 })

/-! ## The retained set -/

variable {boundary : UInt64} {hash : Hash} {state : ChainState}

/-- The hashes of the window. -/
theorem mem_finalityWindow :
    hash ∈ finalityWindow state boundary ↔
      ∃ (key : Hash) (block : Block), state.dag.blocks[key]? = some block ∧
      boundary ≤ block.header.height ∧
        block.hash = hash := by
  rw [finalityWindow, mem_markAll, or_iff_right Std.ExtTreeSet.not_mem_empty]
  simp only [List.mem_map, List.mem_filter, decide_eq_true_eq, Prod.exists, TreeMap.mem_toList]
  constructor
  · rintro ⟨block, ⟨⟨key, _, hblock, rfl⟩, hheight⟩, hhash⟩
    exact ⟨key, _, hblock, hheight, hhash⟩
  · rintro ⟨key, block, hblock, hheight, hhash⟩
    exact ⟨block, ⟨⟨key, block, hblock, rfl⟩, hheight⟩, hhash⟩

/-- The window is popped from the greatest hash down. -/
theorem windowStack_pairwise (state : ChainState) (boundary : UInt64) :
    (windowStack state boundary).Pairwise (· > ·) := by
  rw [windowStack, List.pairwise_reverse]
  refine Std.ExtTreeSet.ordered_toList.imp ?_
  intro a b hlt
  exact compare_lt_iff_lt.mp hlt

/-- The stack holds the window. -/
theorem mem_windowStack :
    hash ∈ windowStack state boundary ↔ hash ∈ finalityWindow state boundary := by
  rw [windowStack, List.mem_reverse, Std.ExtTreeSet.mem_toList]

/-- The window blocks that the search asks for their parents: those that no window block with
a greater hash, itself asked, has as a parent. -/
def askedBlocks (state : ChainState) (boundary : UInt64) : Set Hash :=
  {hash | hash ∈ expandedNodes (presentParents state) (windowStack state boundary) ∅}

/-- The asked blocks without the search: they are the kernel of the window. -/
theorem askedBlocks_isKernel (state : ChainState) (boundary : UInt64) :
    IsKernel (· > ·) (presentParents state) (windowStack state boundary)
      (askedBlocks state boundary) :=
  expandedNodes_isKernel (windowStack_pairwise state boundary)

/-- The search never runs out of fuel. It keeps the window and the parents of the asked
blocks. -/
theorem mem_retainedMemoryHashes :
    hash ∈ retainedMemoryHashes state boundary ↔
      hash ∈ finalityWindow state boundary ∨
        ∃ asked ∈ askedBlocks state boundary, hash ∈ presentParents state asked := by
  have hclosure : parentClosure state boundary =
      some ((windowStack state boundary).foldl (expand (presentParents state)) ∅) :=
    explore_eq _ _ le_rfl
  rw [retainedMemoryHashes, mem_markAll, hclosure, Option.getD_some, Std.ExtTreeSet.mem_toList,
    mem_foldl_expand, or_iff_right Std.ExtTreeSet.not_mem_empty, mem_windowStack, ← or_assoc,
    or_self]
  rfl

/-- The set kept contains every block at or above the boundary and every present parent of
such a block. -/
def RetainedParentClosed (state : ChainState) (boundary : UInt64) : Prop :=
  ∀ (key : Hash) (block : Block), state.dag.blocks[key]? = some block →
    boundary ≤ block.header.height → block.hash ∈ retainedMemoryHashes state boundary ∧
      ∀ parent ∈ block.header.parents, parent ∈ state.dag.blocks →
        parent ∈ retainedMemoryHashes state boundary

/-- The window is always kept. The kept set is closed under parents exactly when every present
parent of a window block is in the window or a parent of some block in the kernel of the
window, which leaves out the blocks that are parents of kernel blocks with a greater hash. -/
theorem retainedParentClosed_iff (state : ChainState) (boundary : UInt64) :
    (∀ hash ∈ finalityWindow state boundary, hash ∈ retainedMemoryHashes state boundary) ∧
    ∃ kernel, IsKernel (· > ·) (presentParents state) (windowStack state boundary) kernel ∧
      (∀ other, IsKernel (· > ·) (presentParents state) (windowStack state boundary) other →
        other = kernel) ∧
      (RetainedParentClosed state boundary ↔
        ∀ (key : Hash) (block : Block), state.dag.blocks[key]? = some block →
        boundary ≤ block.header.height →
          ∀ parent ∈ block.header.parents, parent ∈ state.dag.blocks →
            parent ∈ finalityWindow state boundary ∨
              ∃ asked ∈ kernel, parent ∈ presentParents state asked) := by
  have hwindow : ∀ hash ∈ finalityWindow state boundary,
      hash ∈ retainedMemoryHashes state boundary := fun hash hhash =>
    mem_retainedMemoryHashes.mpr (.inl hhash)
  refine ⟨hwindow, askedBlocks state boundary, askedBlocks_isKernel state boundary, ?_, ?_⟩
  · intro other hother
    exact hother.unique (windowStack_pairwise state boundary) (askedBlocks_isKernel state boundary)
  · constructor
    · intro hclosed key block hblock hheight parent hparent hpresent
      exact mem_retainedMemoryHashes.mp
        ((hclosed key block hblock hheight).2 parent hparent hpresent)
    · intro hall key block hblock hheight
      refine ⟨hwindow _ (mem_finalityWindow.mpr ⟨key, block, hblock, hheight, rfl⟩), ?_⟩
      intro parent hparent hpresent
      exact mem_retainedMemoryHashes.mpr (hall key block hblock hheight parent hparent hpresent)

/-- Three blocks, one on top of the other. -/
def shortChain [Crypto] (genesis : Hash) : List Block :=
  let first := bareBlock [genesis] 1 1 0
  let second := bareBlock [first.hash] 2 2 0
  [first, second, bareBlock [second.hash] 3 3 0]

/-- The third block has a greater hash than the second one. With the boundary at the second
block it is asked first and marks the second one, which is then not asked: the first block,
the parent of a block in the window, is deleted. -/
theorem retainedParentClosed_fails_shortChain : letI := checksumCrypto
    ∃ s0 state, initChainStateV3 "c" 1 = .ok s0 ∧
      CommitRun s0 (shortChain s0.dag.genesisHash) state ∧
      ∃ (key : Hash) (block : Block) (parent : Hash), state.dag.blocks[key]? = some block ∧
        2 ≤ block.header.height ∧ parent ∈ block.header.parents ∧ parent ∈ state.dag.blocks ∧
        parent ∉ retainedMemoryHashes state 2 ∧
        parent ∈ historicalBlocksEligibleForDeletion state 2 := by
  let := checksumCrypto
  have hrun : ((sampleRun shortChain).toOption.bind fun run => do
      let key ← ((shortChain run.2.dag.genesisHash)[1]?).map Block.hash
      let block ← run.2.dag.blocks[key]?
      let parent ← block.header.parents.head?
      pure (decide (2 ≤ block.header.height) && decide (parent ∈ run.2.dag.blocks) &&
        decide (parent ∉ retainedMemoryHashes run.2 2) &&
        decide (parent ∈ historicalBlocksEligibleForDeletion run.2 2))) = some true := by
    decide +kernel
  simp only [Option.bind_eq_some_iff, Option.bind_eq_bind, Option.pure_def, Option.some.injEq,
    Bool.and_eq_true, decide_eq_true_eq] at hrun
  obtain ⟨⟨s0, state⟩, hsample, key, -, block, hblock, parent, hparent,
    ⟨⟨hheight, hpresent⟩, hdropped⟩, heligible⟩ := hrun
  obtain ⟨h0, hcommits⟩ := sampleRun_eq_some hsample
  exact ⟨s0, state, h0, hcommits, key, block, parent, hblock, hheight,
    List.mem_of_mem_head? hparent, hpresent, hdropped, heligible⟩

end PulseDag
