import PulseDag.Ghostdag.Selection
import PulseDag.Lib.Traversal

/-!
# Merge sets and their blue and red members

`ghostdag_v1.rs`. The merge set of a block is its past without the past of its selected
parent. Its members are taken from the preferred one down; a member is blue while fewer
than `k` blue members are unrelated to it. All traversals count their visits against
fixed limits.
-/

namespace PulseDag

/-- `GHOSTDAG_V1_K`. -/
def ghostdagV1K : ℕ := 2

/-- `GhostdagV1Limits` with its defaults. -/
structure GhostdagV1Limits where
  k : ℕ := ghostdagV1K
  maxAncestorVisits : ℕ := 65536
  maxMergeSetBlocks : ℕ := 4096
  maxRelationVisits : ℕ := 262144

/-- `GhostdagV1Error`. -/
inductive GhostdagV1Error
  | selection (error : SelectionV2Error)
  | missingBlock (hash : Hash)
  | missingBlueWork (hash : Hash)
  | ancestorVisitLimitExceeded (max : ℕ)
  | mergeSetSizeLimitExceeded (observed max : ℕ)
  | relationVisitLimitExceeded (max : ℕ)
  deriving DecidableEq, Repr

/-- The `Debug` text of a classification error. -/
def GhostdagV1Error.debug : GhostdagV1Error → String
  | .selection error => debugStruct "Selection" [("error", error.debug)]
  | .missingBlock hash => debugStruct "MissingBlock" [("hash", debugStr hash)]
  | .missingBlueWork hash => debugStruct "MissingBlueWork" [("hash", debugStr hash)]
  | .ancestorVisitLimitExceeded max =>
    debugStruct "AncestorVisitLimitExceeded" [("max", toString max)]
  | .mergeSetSizeLimitExceeded observed max =>
    debugStruct "MergeSetSizeLimitExceeded"
      [("observed", toString observed), ("max", toString max)]
  | .relationVisitLimitExceeded max =>
    debugStruct "RelationVisitLimitExceeded" [("max", toString max)]

/-- `BoundedMergeSetV1`. -/
structure BoundedMergeSetV1 where
  selectedParent : Option Hash
  mergeSet : List Hash
  ancestorVisits : ℕ
  deriving DecidableEq, Repr

/-- `GhostdagV1Classification`. -/
structure GhostdagV1Classification where
  selectedParent : Option Hash
  mergeSet : List Hash
  blues : List Hash
  reds : List Hash
  blueScore : UInt64
  blueWork : ℕ
  k : ℕ
  ancestorVisits : ℕ
  relationVisits : ℕ
  classificationDigest : String
  deriving DecidableEq, Repr

/-- The parents of a known block: the edges both traversals follow. -/
def ChainState.parentsOf (state : ChainState) (hash : Hash) : Option (List Hash) :=
  state.dag.blocks[hash]?.map fun block => block.header.parents

/-- `ancestors_inclusive_bounded`: the ancestors and the new visit count. -/
def ancestorsInclusiveBounded (hash : Hash) (state : ChainState) (visits maxVisits : ℕ) :
    Except GhostdagV1Error (TreeSet Hash × ℕ) := do
  let result ← traverse state.parentsOf (fun _ => false) maxVisits
    (.ancestorVisitLimitExceeded maxVisits) .missingBlock (maxVisits - visits + 1)
    ((∅ : TreeSet Hash).insert hash) ∅ visits
  pure result.2

/-- The inner loop of the merge set: ancestors outside the past of the selected parent. -/
def extendMergeSet (selectedParentPast : TreeSet Hash) (maxMergeSetBlocks : ℕ) :
    List Hash → TreeSet Hash → Except GhostdagV1Error (TreeSet Hash)
  | [], mergeSet => .ok mergeSet
  | ancestor :: rest, mergeSet =>
    if ancestor ∈ selectedParentPast then
      extendMergeSet selectedParentPast maxMergeSetBlocks rest mergeSet
    else do
      let extended := mergeSet.insert ancestor
      ensure (extended.size ≤ maxMergeSetBlocks)
        (.mergeSetSizeLimitExceeded extended.size maxMergeSetBlocks)
      extendMergeSet selectedParentPast maxMergeSetBlocks rest extended

/-- The outer loop of the merge set: the parents other than the selected one. -/
def collectMergeSet (state : ChainState) (limits : GhostdagV1Limits) (selectedParent : Hash)
    (selectedParentPast : TreeSet Hash) :
    List Hash → TreeSet Hash → ℕ → Except GhostdagV1Error (TreeSet Hash × ℕ)
  | [], mergeSet, visits => .ok (mergeSet, visits)
  | parent :: rest, mergeSet, visits =>
    if parent = selectedParent then
      collectMergeSet state limits selectedParent selectedParentPast rest mergeSet visits
    else do
      let found ← ancestorsInclusiveBounded parent state visits limits.maxAncestorVisits
      let extended ← extendMergeSet selectedParentPast limits.maxMergeSetBlocks found.1.toList
        mergeSet
      collectMergeSet state limits selectedParent selectedParentPast rest extended found.2

/-- `calculate_bounded_merge_set_with_limits`. -/
def calculateBoundedMergeSetWithLimits (block : Block) (state : ChainState)
    (limits : GhostdagV1Limits) : Except GhostdagV1Error BoundedMergeSetV1 := do
  let selectedParent ← Except.mapError .selection (calculateSelectedParentV1 block state)
  match selectedParent with
  | none => pure { selectedParent := none, mergeSet := [], ancestorVisits := 0 }
  | some selectedParentHash =>
    let past ← ancestorsInclusiveBounded selectedParentHash state 0 limits.maxAncestorVisits
    let found ← collectMergeSet state limits selectedParentHash past.1
      (block.header.parents.insertionSort (· ≤ ·)) ∅ past.2
    pure { selectedParent := some selectedParentHash, mergeSet := found.1.toList,
           ancestorVisits := found.2 }

/-- `is_ancestor_bounded`: the answer and the new visit count. -/
def isAncestorBounded (ancestor descendant : Hash) (state : ChainState)
    (visits maxVisits : ℕ) : Except GhostdagV1Error (Bool × ℕ) :=
  if ancestor = descendant then .ok (true, visits)
  else do
    let result ← traverse state.parentsOf (fun cursor => cursor = ancestor) maxVisits
      (.relationVisitLimitExceeded maxVisits) .missingBlock (maxVisits - visits + 1)
      ((∅ : TreeSet Hash).insert descendant) ∅ visits
    pure (result.1, result.2.2)

/-- `are_related_bounded`. -/
def areRelatedBounded (a b : Hash) (state : ChainState) (visits maxVisits : ℕ) :
    Except GhostdagV1Error (Bool × ℕ) := do
  let forward ← isAncestorBounded a b state visits maxVisits
  if forward.1 then pure (true, forward.2)
  else isAncestorBounded b a state forward.2 maxVisits

/-- A hash in the classification digest: its length and its bytes. -/
def digestHash (hash : Hash) : List UInt8 := encodeLenPrefixedStr hash

/-- A list of hashes in the classification digest. -/
def digestHashes (hashes : List Hash) : List UInt8 :=
  lenPrefix hashes.length ++ hashes.flatMap digestHash

/-- `classification_digest`. -/
def classificationDigest [Crypto] (selectedParent : Option Hash) (mergeSet blues reds : List Hash)
    (k : ℕ) : String :=
  sha256Hex (asBytes "PulseDAG:ghostdag-v1-classification:v1" ++ leBytes 8 k ++
    (match selectedParent with
      | some hash => [1] ++ digestHash hash
      | none => [0]) ++
    digestHashes mergeSet ++ digestHashes blues ++ digestHashes reds)

/-- `derive_score_work_v1`. -/
def deriveScoreWorkV1 (selectedParent : Option Hash) (blues : List Hash) (state : ChainState) :
    Except GhostdagV1Error (UInt64 × ℕ) := do
  let base ← match selectedParent with
    | some hash => do
      let parent ← okOr state.dag.blocks[hash]? (.missingBlock hash)
      let work ← okOr state.dag.blueWork[hash]? (.missingBlueWork hash)
      pure (parent.header.blueScore, work)
    | none => pure (0, 0)
  let blueCountScore := UInt64.ofNat (min blues.length (2 ^ 64 - 1))
  pure (saturatingAdd (saturatingAdd base.1 1) blueCountScore,
    min (min (base.2 + 1) u128Max + blues.length) u128Max)

/-- The scores of the merge set members. -/
def candidateScores (state : ChainState) :
    List Hash → Except GhostdagV1Error (List SelectionScoreV1)
  | [] => .ok []
  | hash :: rest => do
    let candidate ← okOr state.dag.blocks[hash]? (.missingBlock hash)
    let blueWork ← okOr state.dag.blueWork[hash]? (.missingBlueWork hash)
    let scores ← candidateScores state rest
    pure ({ blueWork := blueWork, blueScore := candidate.header.blueScore,
            height := candidate.header.height, hash := hash } :: scores)

/-- Count the blue members unrelated to the candidate, up to `k` of them. -/
def countAnticoneBlues (state : ChainState) (limits : GhostdagV1Limits) (candidate : Hash) :
    List Hash → ℕ → ℕ → Except GhostdagV1Error (ℕ × ℕ)
  | [], anticoneBlues, visits => .ok (anticoneBlues, visits)
  | blue :: rest, anticoneBlues, visits => do
    let related ← areRelatedBounded candidate blue state visits limits.maxRelationVisits
    if related.1 then countAnticoneBlues state limits candidate rest anticoneBlues related.2
    else if anticoneBlues + 1 ≥ limits.k then pure (anticoneBlues + 1, related.2)
    else countAnticoneBlues state limits candidate rest (anticoneBlues + 1) related.2

/-- The colouring loop: blue members, red members and the visit count. -/
def colourMergeSet (state : ChainState) (limits : GhostdagV1Limits) :
    List Hash → List Hash → List Hash → ℕ → Except GhostdagV1Error (List Hash × List Hash × ℕ)
  | [], blues, reds, visits => .ok (blues, reds, visits)
  | candidate :: rest, blues, reds, visits => do
    let counted ← countAnticoneBlues state limits candidate blues 0 visits
    if counted.1 < limits.k then
      colourMergeSet state limits rest (blues ++ [candidate]) reds counted.2
    else colourMergeSet state limits rest blues (reds ++ [candidate]) counted.2

/-- `classify_merge_set_with_limits`. -/
def classifyMergeSetWithLimits [Crypto] (block : Block) (state : ChainState)
    (limits : GhostdagV1Limits) : Except GhostdagV1Error GhostdagV1Classification := do
  let bounded ← calculateBoundedMergeSetWithLimits block state limits
  let scores ← candidateScores state bounded.mergeSet
  let mergeSet := (scores.insertionSort fun a b =>
    (compareSelectionScoresV1 b a).isLE).map SelectionScoreV1.hash
  let coloured ← colourMergeSet state limits mergeSet [] [] 0
  let derived ← deriveScoreWorkV1 bounded.selectedParent coloured.1 state
  pure
    { selectedParent := bounded.selectedParent, mergeSet := mergeSet,
      blues := coloured.1, reds := coloured.2.1,
      blueScore := derived.1, blueWork := derived.2, k := limits.k,
      ancestorVisits := bounded.ancestorVisits, relationVisits := coloured.2.2,
      classificationDigest :=
        classificationDigest bounded.selectedParent mergeSet coloured.1 coloured.2.1 limits.k }

/-- `classify_merge_set_v1`. -/
def classifyMergeSetV1 [Crypto] (block : Block) (state : ChainState) :
    Except GhostdagV1Error GhostdagV1Classification :=
  classifyMergeSetWithLimits block state {}

end PulseDag
