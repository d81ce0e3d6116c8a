import PulseDag.Core.Genesis
import PulseDag.Ghostdag.Selection
import PulseDag.Lib.StackSearch

/-!
# Selection, merge sets and order of the version 1 chain

`selection.rs`, `ghostdag.rs` and `ordering.rs`: the preferred tip, the chain of selected parents
below it, the blue and red blocks a block merges, and the order in which the development mode
replays the DAG.
-/

namespace PulseDag

/-- `compare_tip_blocks`. -/
def compareTipBlocks (a b : Block) : Ordering :=
  ((compare a.header.height b.header.height).then
    (compare a.header.blueScore b.header.blueScore)).then
      ((compare a.header.timestamp b.header.timestamp).then (compare a.hash b.hash))

/-- `compare_selected_parent_candidates`. -/
def compareSelectedParentCandidates (a b : Block) : Ordering :=
  (compare a.header.blueScore b.header.blueScore).then
    ((compare a.header.height b.header.height).then (compare b.hash a.hash))

/-- `sorted_tip_hashes_with_policy`. -/
def sortedTipHashesWithPolicy (state : ChainState) (policy : SelectedParentPolicy) : List Hash :=
  let tips := state.dag.tips.toList.filterMap fun hash =>
    state.dag.blocks[hash]?.map fun block => (hash, block)
  let sorted := match policy with
    | .legacyTip => tips.insertionSort fun (a b : Hash × Block) => (compareTipBlocks b.2 a.2).isLE
    | .ghostdagInspired =>
      tips.insertionSort fun (a b : Hash × Block) => (compareSelectedParentCandidates b.2 a.2).isLE
  sorted.map Prod.fst

/-- `sorted_tip_hashes`. -/
def sortedTipHashes (state : ChainState) : List Hash :=
  sortedTipHashesWithPolicy state state.dag.selectedParentPolicy

/-- `preferred_tip_hash`. -/
def preferredTipHash (state : ChainState) : Option Hash := (sortedTipHashes state).head?

/-- `calculate_selected_parent`. -/
def calculateSelectedParent (block : Block) (state : ChainState) : Option Hash :=
  (maxBy (fun a b => compareSelectedParentCandidates a.2 b.2)
    (block.header.parents.filterMap fun parent =>
      state.dag.blocks[parent]?.map fun stored => (parent, stored))).map Prod.fst

/-- The largest known parent, the selected parent of the legacy mode. -/
def largestKnownParent (block : Block) (state : ChainState) : Option Hash :=
  maxBy compare (block.header.parents.filter (· ∈ state.dag.blocks))

/-- The loop of `rebuild_selected_chain_from_tip`, from the tip down. Every round visits a new
stored block, so a fuel of the number of blocks is never used up. -/
def chainDownFrom (state : ChainState) : ℕ → Option Hash → TreeSet Hash → List Hash
  | _, none, _ => []
  | 0, some _, _ => []
  | fuel + 1, some hash, visited =>
    if hash ∈ state.dag.blocks ∧ hash ∉ visited then
      hash :: chainDownFrom state fuel (state.dag.selectedParents[hash]?.join) (visited.insert hash)
    else []

/-- `rebuild_selected_chain_from_tip`. -/
def rebuildSelectedChainFromTip (state : ChainState) (tip : Option Hash) : List Hash :=
  (chainDownFrom state (state.dag.blocks.size + 1) tip ∅).reverse

/-- `refresh_selected_chain`. -/
def refreshSelectedChain (state : ChainState) : ChainState :=
  { state with dag := { state.dag with
      selectedChain := rebuildSelectedChainFromTip state (preferredTipHash state) } }

/-! ## Merge sets -/

/-- `MergeSetClassification`. -/
structure MergeSetClassification where
  selectedParent : Option Hash
  mergeSet : List Hash
  blues : List Hash
  reds : List Hash
  blueScore : UInt64
  blueWork : ℕ
  diagnostics : MergeSetDiagnostics

/-- The parents of a block, none if it is not stored. -/
def storedParents (state : ChainState) (hash : Hash) : List Hash :=
  (state.dag.blocks[hash]?.map fun block => block.header.parents).getD []

/-- `ancestors_inclusive`. Parents that are not stored belong to the result. -/
def ancestorsInclusive (hash : Hash) (state : ChainState) : TreeSet Hash :=
  reachFrom (storedParents state)
    (1 + pushesLeft (fun x => (storedParents state x).length) state.dag.blocks.keys ∅) [hash] ∅

/-- `is_ancestor_of`. The source stops its search at the candidate. -/
def isAncestorOf (candidate descendant : Hash) (state : ChainState) : Bool :=
  decide (candidate = descendant ∨ candidate ∈ ancestorsInclusive descendant state)

/-- `are_related`. -/
def areRelated (a b : Hash) (state : ChainState) : Bool :=
  isAncestorOf a b state || isAncestorOf b a state

/-- `calculate_merge_set`. -/
def calculateMergeSet (block : Block) (state : ChainState) : List Hash :=
  match calculateSelectedParent block state with
  | none => []
  | some selectedParent =>
    let selectedParentPast := ancestorsInclusive selectedParent state
    let mergeSet := (block.header.parents.filter (· ≠ selectedParent)).foldl
      (fun mergeSet parent => (ancestorsInclusive parent state).toList.foldl
        (fun mergeSet ancestor =>
          if ancestor ∈ selectedParentPast then mergeSet else mergeSet.insert ancestor) mergeSet)
      (∅ : TreeSet Hash)
    mergeSet.toList

/-- The order of the merge set: the better selected parent candidates first. -/
def compareMergeCandidates (state : ChainState) (a b : Hash) : Ordering :=
  match state.dag.blocks[a]?, state.dag.blocks[b]? with
  | some aBlock, some bBlock => (compareSelectedParentCandidates bBlock aBlock).then (compare a b)
  | _, _ => compare a b

/-- The loop that colours the merge set. -/
def colourLegacyMergeSet (state : ChainState) (k : ℕ) (mergeSet : List Hash) :
    List Hash × List Hash :=
  mergeSet.foldl (fun coloured candidate =>
    let anticoneBlues := (coloured.1.filter fun blue => !areRelated candidate blue state).length
    if anticoneBlues < k then (coloured.1 ++ [candidate], coloured.2)
    else (coloured.1, coloured.2 ++ [candidate])) ([], [])

/-- `u128::saturating_add`. -/
def saturatingAddU128 (a b : ℕ) : ℕ := min (a + b) u128Max

/-- `classify_merge_set_with_k`. -/
def classifyMergeSetWithK (block : Block) (state : ChainState) (k : ℕ) : MergeSetClassification :=
  let selectedParent := calculateSelectedParent block state
  let mergeSet := (calculateMergeSet block state).insertionSort fun a b =>
    (compareMergeCandidates state a b).isLE
  let coloured := colourLegacyMergeSet state k mergeSet
  let blueCount := coloured.1.length
  let selectedParentScore : UInt64 :=
    ((selectedParent.bind (state.dag.blocks[·]?)).map fun parent => parent.header.blueScore).getD 0
  let blueScore := saturatingAdd (saturatingAdd selectedParentScore 1) (UInt64.ofNat blueCount)
  let selectedParentWork :=
    (selectedParent.bind (state.dag.blueWork[·]?)).getD selectedParentScore.toNat
  { selectedParent
    mergeSet
    blues := coloured.1
    reds := coloured.2
    blueScore
    blueWork := saturatingAddU128 (saturatingAddU128 selectedParentWork 1) blueCount
    diagnostics :=
      { selectedParent
        blueScore
        mergeSetSize := blueCount + coloured.2.length
        mergeSetBluesCount := blueCount
        mergeSetRedsCount := coloured.2.length } }

/-- `classify_merge_set`. -/
def classifyMergeSet (block : Block) (state : ChainState) : MergeSetClassification :=
  classifyMergeSetWithK block state state.dag.mergeSetK

/-! ## The order of the development mode -/

/-- `compare_order_blocks`. -/
def compareOrderBlocks (a b : Block) : Ordering :=
  ((compare a.header.height b.header.height).then
    (compare b.header.blueScore a.header.blueScore)).then
      ((compare a.header.timestamp b.header.timestamp).then (compare a.hash b.hash))

/-- The order of `sorted_existing`. -/
def compareExisting (state : ChainState) (a b : Hash) : Ordering :=
  match state.dag.blocks[a]?, state.dag.blocks[b]? with
  | some aBlock, some bBlock => compareOrderBlocks aBlock bBlock
  | _, _ => compare a b

/-- `sorted_existing`. -/
def sortedExisting (hashes : List Hash) (state : ChainState) : List Hash :=
  dedupNeighbours (hashes.insertionSort fun a b => (compareExisting state a b).isLE)

/-- `push_once` for a list of hashes: the ordered list grows by the stored hashes it lacks. -/
def pushAllOnce (state : ChainState) (ordered hashes : List Hash) : List Hash :=
  hashes.foldl (fun ordered hash =>
    if hash ∈ state.dag.blocks ∧ hash ∉ ordered then ordered ++ [hash] else ordered) ordered

/-- `derive_ordered_dag`. -/
def deriveOrderedDag (state : ChainState) : List Hash :=
  let chain := pushAllOnce state [] state.dag.selectedChain
  let merged := state.dag.selectedChain.foldl (fun ordered selected =>
    let blues := sortedExisting (state.dag.mergeSetBlues[selected]?.getD []) state
    let reds := sortedExisting (state.dag.mergeSetReds[selected]?.getD []) state
    pushAllOnce state (pushAllOnce state ordered blues) reds) chain
  pushAllOnce state merged (sortedExisting state.dag.blocks.keys state)

/-- `refresh_ordered_dag`. -/
def refreshOrderedDag (state : ChainState) : ChainState :=
  let ordered := deriveOrderedDag state
  { state with dag := { state.dag with
      orderedDag := ordered
      orderingVersion := dagOrderingVersion
      orderedDagTip := ordered.getLast? } }

end PulseDag
