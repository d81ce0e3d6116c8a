import PulseDag.Ghostdag.Commit
import PulseDag.Lib.GreedyOrder

/-!
# The canonical order of the DAG

`ordering_v2.rs`. Every block is a selected chain block or is classified by exactly one
of them, its anchor. The order is topological, and among the blocks whose parents are
done it prefers the lowest anchor, then blue before red before the anchor itself, then
the preferred block of `selection_v2.rs`.
-/

namespace PulseDag

/-- `OrderingV2Error`. -/
inductive OrderingV2Error
  | duplicateSelectedChainBlock (hash : Hash)
  | missingSelectedChainBlock (hash : Hash)
  | missingSelectedParentMetadata (hash : Hash)
  | selectedChainParentMismatch (hash : Hash) (expectedParent observedParent : Option Hash)
  | missingClassificationMetadata (anchor : Hash)
  | classificationReferencesMissingBlock (anchor hash : Hash)
  | classificationReferencesSelectedChainBlock (anchor hash : Hash)
  | duplicateClassification (hash firstAnchor secondAnchor : Hash)
  | blueRedOverlap (anchor hash : Hash)
  | unclassifiedBlock (hash : Hash)
  | missingParent (block parent : Hash)
  | missingBlueWork (hash : Hash)
  | topologyCycle (remaining : List Hash)
  deriving DecidableEq, Repr

/-- The `Debug` text of an ordering error. -/
def OrderingV2Error.debug : OrderingV2Error → String
  | .duplicateSelectedChainBlock hash =>
    debugStruct "DuplicateSelectedChainBlock" [("hash", debugStr hash)]
  | .missingSelectedChainBlock hash =>
    debugStruct "MissingSelectedChainBlock" [("hash", debugStr hash)]
  | .missingSelectedParentMetadata hash =>
    debugStruct "MissingSelectedParentMetadata" [("hash", debugStr hash)]
  | .selectedChainParentMismatch hash expectedParent observedParent =>
    debugStruct "SelectedChainParentMismatch"
      [("hash", debugStr hash), ("expected_parent", debugOption expectedParent),
        ("observed_parent", debugOption observedParent)]
  | .missingClassificationMetadata anchor =>
    debugStruct "MissingClassificationMetadata" [("anchor", debugStr anchor)]
  | .classificationReferencesMissingBlock anchor hash =>
    debugStruct "ClassificationReferencesMissingBlock"
      [("anchor", debugStr anchor), ("hash", debugStr hash)]
  | .classificationReferencesSelectedChainBlock anchor hash =>
    debugStruct "ClassificationReferencesSelectedChainBlock"
      [("anchor", debugStr anchor), ("hash", debugStr hash)]
  | .duplicateClassification hash firstAnchor secondAnchor =>
    debugStruct "DuplicateClassification"
      [("hash", debugStr hash), ("first_anchor", debugStr firstAnchor),
        ("second_anchor", debugStr secondAnchor)]
  | .blueRedOverlap anchor hash =>
    debugStruct "BlueRedOverlap" [("anchor", debugStr anchor), ("hash", debugStr hash)]
  | .unclassifiedBlock hash => debugStruct "UnclassifiedBlock" [("hash", debugStr hash)]
  | .missingParent block parent =>
    debugStruct "MissingParent" [("block", debugStr block), ("parent", debugStr parent)]
  | .missingBlueWork hash => debugStruct "MissingBlueWork" [("hash", debugStr hash)]
  | .topologyCycle remaining => debugStruct "TopologyCycle" [("remaining", debugList remaining)]

/-- `OrderingClass`. -/
inductive OrderingClass
  | blue
  | red
  | selectedChain
  deriving DecidableEq, Repr

/-- `class as u8`. -/
def OrderingClass.toNat : OrderingClass → ℕ
  | .blue => 0
  | .red => 1
  | .selectedChain => 2

/-- `OrderedDagV2`. -/
structure OrderedDagV2 where
  orderingVersion : String
  blocks : List Hash
  digest : String
  deriving DecidableEq, Repr

/-- `ReadyKey`. Work, score and height are compared in reverse. -/
structure ReadyKey where
  anchorIndex : ℕ
  cls : ℕ
  blueWork : ℕ
  blueScore : UInt64
  height : UInt64
  hash : Hash
  deriving DecidableEq, Repr

/-- The lexicographic order of the key. -/
def ReadyKey.cmp : ReadyKey → ReadyKey → Ordering :=
  compareLex (compareOn anchorIndex) <| compareLex (compareOn cls) <|
    compareLex (fun a b => compareOn blueWork b a) <|
      compareLex (fun a b => compareOn blueScore b a) <|
        compareLex (fun a b => compareOn height b a) (compareOn hash)

instance : Ord ReadyKey := ⟨ReadyKey.cmp⟩

instance : Std.TransOrd ReadyKey :=
  inferInstanceAs (Std.TransCmp (compareLex (compareOn ReadyKey.anchorIndex) <|
    compareLex (compareOn ReadyKey.cls) <|
      compareLex (fun a b => compareOn ReadyKey.blueWork b a) <|
        compareLex (fun a b => compareOn ReadyKey.blueScore b a) <|
          compareLex (fun a b => compareOn ReadyKey.height b a) (compareOn ReadyKey.hash)))

instance : Std.LawfulEqOrd ReadyKey where
  eq_of_compare {a b} h := by
    have h' : ReadyKey.cmp a b = .eq := h
    simp only [ReadyKey.cmp, compareLex, compareOn, Ordering.then_eq_eq,
      Std.compare_eq_iff_eq] at h'
    cases a
    cases b
    simp_all

/-- A lower anchor comes first. -/
theorem ReadyKey.compare_lt_of_anchorIndex {a b : ReadyKey} (h : a.anchorIndex < b.anchorIndex) :
    compare a b = .lt := by
  have hlt : compare a.anchorIndex b.anchorIndex = .lt := Nat.compare_eq_lt.mpr h
  show ReadyKey.cmp a b = .lt
  simp [ReadyKey.cmp, compareLex, compareOn, hlt]

/-- The anchor index and the class of every block. -/
abbrev Priorities := TreeMap Hash (ℕ × OrderingClass)

/-- `ordering_digest`. -/
def orderingDigest [Crypto] (order : List Hash) : String :=
  sha256Hex (asBytes "PulseDAG:ghostdag-v1-ordering:v1" ++
    encodeLenPrefixedStr ghostdagV1OrderingVersion ++ leBytes 8 order.length ++
    order.flatMap encodeLenPrefixedStr)

/-- `ready_key`. -/
def readyKey (state : ChainState) (priorities : Priorities) (hash : Hash) :
    Except OrderingV2Error ReadyKey := do
  let block ← okOr state.dag.blocks[hash]? (.missingSelectedChainBlock hash)
  let blueWork ← okOr state.dag.blueWork[hash]? (.missingBlueWork hash)
  let priority ← okOr priorities[hash]? (.unclassifiedBlock hash)
  pure { anchorIndex := priority.1, cls := priority.2.toNat, blueWork := blueWork,
         blueScore := block.header.blueScore, height := block.header.height, hash := hash }

/-- The first repeated entry of a list. -/
def firstDuplicate : List Hash → TreeSet Hash → Option Hash
  | [], _ => none
  | hash :: rest, seen => if hash ∈ seen then some hash else firstDuplicate rest (seen.insert hash)

/-- The first loop of `build_priorities`: each chain block follows its selected parent. -/
def chainPriorities (state : ChainState) :
    ℕ → Option Hash → List Hash → Priorities → Except OrderingV2Error Priorities
  | _, _, [], priorities => .ok priorities
  | index, expectedParent, hash :: rest, priorities => do
    ensure (hash ∈ state.dag.blocks) (.missingSelectedChainBlock hash)
    let observedParent ← okOr state.dag.selectedParents[hash]?
      (.missingSelectedParentMetadata hash)
    ensure (observedParent = expectedParent)
      (.selectedChainParentMismatch hash expectedParent observedParent)
    chainPriorities state (index + 1) (some hash) rest
      (priorities.insert hash (index, .selectedChain))

/-- The classified blocks with their anchors, and the priorities so far. -/
structure ClassifiedBlocks where
  classifiedBy : TreeMap Hash Hash
  priorities : Priorities

/-- The innermost loop of `build_priorities`: the blue or red blocks of one anchor. -/
def classifyHashes (state : ChainState) (selectedSet redSet : TreeSet Hash) (index : ℕ)
    (anchor : Hash) (cls : OrderingClass) :
    List Hash → TreeSet Hash → ClassifiedBlocks → Except OrderingV2Error ClassifiedBlocks
  | [], _, acc => .ok acc
  | hash :: rest, localSeen, acc => do
    ensure (hash ∉ localSeen)
      (.duplicateClassification hash (acc.classifiedBy[hash]?.getD anchor) anchor)
    ensure (¬(cls = .blue ∧ hash ∈ redSet)) (.blueRedOverlap anchor hash)
    ensure (hash ∈ state.dag.blocks) (.classificationReferencesMissingBlock anchor hash)
    ensure (hash ∉ selectedSet) (.classificationReferencesSelectedChainBlock anchor hash)
    ensure (hash ∉ acc.classifiedBy)
      (.duplicateClassification hash (acc.classifiedBy[hash]?.getD anchor) anchor)
    classifyHashes state selectedSet redSet index anchor cls rest (localSeen.insert hash)
      ⟨acc.classifiedBy.insert hash anchor, acc.priorities.insert hash (index, cls)⟩

/-- The second loop of `build_priorities`: the merge sets of the anchors. -/
def anchorPriorities (state : ChainState) (selectedSet : TreeSet Hash) :
    ℕ → List Hash → ClassifiedBlocks → Except OrderingV2Error ClassifiedBlocks
  | _, [], acc => .ok acc
  | index, anchor :: rest, acc => do
    let blues ← okOr state.dag.mergeSetBlues[anchor]? (.missingClassificationMetadata anchor)
    let reds ← okOr state.dag.mergeSetReds[anchor]? (.missingClassificationMetadata anchor)
    let redSet := Std.ExtTreeSet.ofList reds compare
    let withBlues ← classifyHashes state selectedSet redSet index anchor .blue blues ∅ acc
    let withReds ← classifyHashes state selectedSet redSet index anchor .red reds ∅ withBlues
    anchorPriorities state selectedSet (index + 1) rest withReds

/-- `build_priorities`. -/
def buildPriorities (state : ChainState) : Except OrderingV2Error Priorities := do
  let selectedSet := Std.ExtTreeSet.ofList state.dag.selectedChain compare
  ensure (selectedSet.size = state.dag.selectedChain.length)
    (.duplicateSelectedChainBlock ((firstDuplicate state.dag.selectedChain ∅).getD ""))
  let chain ← chainPriorities state 0 none state.dag.selectedChain ∅
  let classified ← anchorPriorities state selectedSet 0 state.dag.selectedChain ⟨∅, chain⟩
  state.dag.blocks.keys.forM fun hash =>
    ensure (hash ∈ classified.priorities) (.unclassifiedBlock hash)
  pure classified.priorities

/-- The counters and edges of Kahn's loop. -/
structure Topology where
  indegree : TreeMap Hash ℕ
  children : TreeMap Hash (TreeSet Hash)

/-- The smallest height of a stored block. -/
def retainedFloor (state : ChainState) : UInt64 :=
  match state.dag.blocks.toList with
  | [] => 0
  | first :: rest => rest.foldl (fun low entry => min low entry.2.header.height)
      first.2.header.height

/-- Whether the state is a pruned checkpoint: history below a positive floor is gone. -/
def compactPrunedCheckpoint (state : ChainState) : Prop :=
  state.dag.blocks.isEmpty = false ∧ retainedFloor state > 0 ∧
    state.dag.genesisHash ∉ state.dag.blocks

instance (state : ChainState) : Decidable (compactPrunedCheckpoint state) :=
  inferInstanceAs (Decidable (_ ∧ _ ∧ _))

/-- Count the known parents of one block. A parent below the floor of a pruned
checkpoint may be unknown. -/
def addParentEdges (state : ChainState) (hash : Hash) (block : Block) :
    List Hash → TreeSet Hash → Topology → Except OrderingV2Error Topology
  | [], _, topology => .ok topology
  | parent :: rest, parentSet, topology =>
    if parent ∈ parentSet then addParentEdges state hash block rest parentSet topology
    else if parent ∈ state.dag.blocks then
      addParentEdges state hash block rest (parentSet.insert parent)
        { indegree := topology.indegree.insert hash (topology.indegree[hash]?.getD 0 + 1)
          children := topology.children.insert parent
            ((topology.children[parent]?.getD ∅).insert hash) }
    else if compactPrunedCheckpoint state ∧ block.header.height = retainedFloor state then
      addParentEdges state hash block rest (parentSet.insert parent) topology
    else .error (.missingParent hash parent)

/-- Count the known parents of every block. -/
def buildTopology (state : ChainState) : Except OrderingV2Error Topology :=
  state.dag.blocks.toList.foldlM (fun topology entry =>
    addParentEdges state entry.1 entry.2 entry.2.header.parents ∅
      { topology with indegree := topology.indegree.insertIfNew entry.1 0 }) ⟨∅, ∅⟩

/-- The keys of the blocks without known parents. -/
def initialReady (state : ChainState) (priorities : Priorities) :
    List (Hash × ℕ) → TreeSet ReadyKey → Except OrderingV2Error (TreeSet ReadyKey)
  | [], ready => .ok ready
  | entry :: rest, ready =>
    if entry.2 = 0 then do
      let key ← readyKey state priorities entry.1
      initialReady state priorities rest (ready.insert key)
    else initialReady state priorities rest ready

/-- `derive_ordered_dag_v2`. -/
def deriveOrderedDagV2 [Crypto] (state : ChainState) : Except OrderingV2Error OrderedDagV2 := do
  let priorities ← buildPriorities state
  let topology ← buildTopology state
  let ready ← initialReady state priorities topology.indegree.toList ∅
  let ordered ← kahnLoop (readyKey state priorities) ReadyKey.hash topology.children
    state.dag.blocks.size topology.indegree ready
  ensure (ordered.length = state.dag.blocks.size)
    (.topologyCycle (state.dag.blocks.keys.filter fun hash => hash ∉ ordered))
  pure { orderingVersion := ghostdagV1OrderingVersion, blocks := ordered,
         digest := orderingDigest ordered }

/-! ## What the order is derived from -/

/-- Two states with the same data for the order. -/
structure SameOrderData (s t : ChainState) : Prop where
  blocks : s.dag.blocks = t.dag.blocks
  genesisHash : s.dag.genesisHash = t.dag.genesisHash
  blueWork : s.dag.blueWork = t.dag.blueWork
  selectedParents : s.dag.selectedParents = t.dag.selectedParents
  selectedChain : s.dag.selectedChain = t.dag.selectedChain
  mergeSetBlues : s.dag.mergeSetBlues = t.dag.mergeSetBlues
  mergeSetReds : s.dag.mergeSetReds = t.dag.mergeSetReds

namespace SameOrderData

variable {s t : ChainState}

/-- The same keys. -/
theorem readyKey (h : SameOrderData s t) : readyKey s = PulseDag.readyKey t := by
  funext priorities hash
  simp only [PulseDag.readyKey, h.blocks, h.blueWork]

/-- The same priorities of the chain. -/
theorem chainPriorities (h : SameOrderData s t) (chain : List Hash) (index : ℕ)
    (expectedParent : Option Hash) (priorities : Priorities) :
    chainPriorities s index expectedParent chain priorities =
      PulseDag.chainPriorities t index expectedParent chain priorities := by
  induction chain generalizing index expectedParent priorities with
  | nil => rfl
  | cons hash rest ih => simp only [PulseDag.chainPriorities, h.blocks, h.selectedParents, ih]

/-- The same classes of a merge set. -/
theorem classifyHashes (h : SameOrderData s t) (selectedSet redSet : TreeSet Hash) (index : ℕ)
    (anchor : Hash) (cls : OrderingClass) (hashes : List Hash) (localSeen : TreeSet Hash)
    (acc : ClassifiedBlocks) :
    classifyHashes s selectedSet redSet index anchor cls hashes localSeen acc =
      PulseDag.classifyHashes t selectedSet redSet index anchor cls hashes localSeen acc := by
  induction hashes generalizing localSeen acc with
  | nil => rfl
  | cons hash rest ih => simp only [PulseDag.classifyHashes, h.blocks, ih]

/-- The same priorities of the merge sets. -/
theorem anchorPriorities (h : SameOrderData s t) (selectedSet : TreeSet Hash) (index : ℕ)
    (anchors : List Hash) (acc : ClassifiedBlocks) :
    anchorPriorities s selectedSet index anchors acc =
      PulseDag.anchorPriorities t selectedSet index anchors acc := by
  induction anchors generalizing index acc with
  | nil => rfl
  | cons anchor rest ih =>
    simp only [PulseDag.anchorPriorities, h.mergeSetBlues, h.mergeSetReds, h.classifyHashes, ih]

/-- The same priorities. -/
theorem buildPriorities (h : SameOrderData s t) :
    buildPriorities s = PulseDag.buildPriorities t := by
  simp only [PulseDag.buildPriorities, h.selectedChain, h.blocks, h.chainPriorities,
    h.anchorPriorities]

/-- The same edges of a block. -/
theorem addParentEdges (h : SameOrderData s t) (hash : Hash) (block : Block) (parents : List Hash)
    (parentSet : TreeSet Hash) (topology : Topology) :
    addParentEdges s hash block parents parentSet topology =
      PulseDag.addParentEdges t hash block parents parentSet topology := by
  have hfloor : retainedFloor s = retainedFloor t := by rw [retainedFloor, retainedFloor, h.blocks]
  have hcompact : compactPrunedCheckpoint s ↔ compactPrunedCheckpoint t := by
    rw [compactPrunedCheckpoint, compactPrunedCheckpoint, h.blocks, h.genesisHash, hfloor]
  induction parents generalizing parentSet topology with
  | nil => rfl
  | cons parent rest ih =>
    simp only [PulseDag.addParentEdges, h.blocks, hfloor, hcompact, ih]

/-- The same topology. -/
theorem buildTopology (h : SameOrderData s t) : buildTopology s = PulseDag.buildTopology t := by
  simp only [PulseDag.buildTopology, h.blocks, h.addParentEdges]

/-- The same first blocks. -/
theorem initialReady (h : SameOrderData s t) (priorities : Priorities) (entries : List (Hash × ℕ))
    (ready : TreeSet ReadyKey) :
    initialReady s priorities entries ready = PulseDag.initialReady t priorities entries ready := by
  induction entries generalizing ready with
  | nil => rfl
  | cons entry rest ih => simp only [PulseDag.initialReady, h.readyKey, ih]

/-- The order depends on these data alone. -/
theorem deriveOrderedDagV2 [Crypto] (h : SameOrderData s t) :
    deriveOrderedDagV2 s = PulseDag.deriveOrderedDagV2 t := by
  simp only [PulseDag.deriveOrderedDagV2, h.buildPriorities, h.buildTopology, h.initialReady,
    h.readyKey, h.blocks]

end SameOrderData

end PulseDag
