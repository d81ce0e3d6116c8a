import PulseDag.Core.Genesis

/-!
# Selected parents, selected tips and the selected chain

`selection_v2.rs`. The preferred block has the most blue work, then the highest blue
score, then the greatest height, then the smallest hash. Missing blocks or metadata are
errors, never skipped.
-/

namespace PulseDag

/-- `SelectionV2Error`. -/
inductive SelectionV2Error
  | tooManyParents (observed max : ℕ)
  | duplicateParent (hash : Hash)
  | missingParent (hash : Hash)
  | missingParentBlueWork (hash : Hash)
  | missingTipBlock (hash : Hash)
  | missingTipBlueWork (hash : Hash)
  | missingSelectedParentMetadata (hash : Hash)
  | selectedParentCycle (hash : Hash)
  deriving DecidableEq, Repr

/-- The `Debug` text of a selection error. -/
def SelectionV2Error.debug : SelectionV2Error → String
  | .tooManyParents observed max =>
    debugStruct "TooManyParents" [("observed", toString observed), ("max", toString max)]
  | .duplicateParent hash => debugStruct "DuplicateParent" [("hash", debugStr hash)]
  | .missingParent hash => debugStruct "MissingParent" [("hash", debugStr hash)]
  | .missingParentBlueWork hash => debugStruct "MissingParentBlueWork" [("hash", debugStr hash)]
  | .missingTipBlock hash => debugStruct "MissingTipBlock" [("hash", debugStr hash)]
  | .missingTipBlueWork hash => debugStruct "MissingTipBlueWork" [("hash", debugStr hash)]
  | .missingSelectedParentMetadata hash =>
    debugStruct "MissingSelectedParentMetadata" [("hash", debugStr hash)]
  | .selectedParentCycle hash => debugStruct "SelectedParentCycle" [("hash", debugStr hash)]

/-- `SelectionScoreV1`. -/
structure SelectionScoreV1 where
  blueWork : ℕ
  blueScore : UInt64
  height : UInt64
  hash : Hash
  deriving DecidableEq, Repr

/-- `compare_selection_scores_v1`: `gt` means that the first score is preferred. -/
def compareSelectionScoresV1 (a b : SelectionScoreV1) : Ordering :=
  ((compare a.blueWork b.blueWork).then (compare a.blueScore b.blueScore)).then
    ((compare a.height b.height).then (compare b.hash a.hash))

/-- `Iterator::max_by`: of several greatest elements the last. -/
def maxBy {α : Type} (cmp : α → α → Ordering) : List α → Option α
  | [] => none
  | first :: rest =>
    some (rest.foldl (fun best item => if cmp best item = .gt then best else item) first)

/-- `score_for_known_block`. -/
def scoreForKnownBlock (hash : Hash) (block : Block) (state : ChainState)
    (missingWork : Hash → SelectionV2Error) : Except SelectionV2Error SelectionScoreV1 := do
  let blueWork ← okOr state.dag.blueWork[hash]? (missingWork hash)
  pure { blueWork := blueWork, blueScore := block.header.blueScore,
         height := block.header.height, hash := hash }

/-- The loop of `calculate_selected_parent_v1` over the parents. -/
def parentScores (state : ChainState) :
    List Hash → TreeSet Hash → Except SelectionV2Error (List SelectionScoreV1)
  | [], _ => .ok []
  | parent :: rest, seen => do
    ensure (parent ∉ seen) (.duplicateParent parent)
    let parentBlock ← okOr state.dag.blocks[parent]? (.missingParent parent)
    let score ← scoreForKnownBlock parent parentBlock state .missingParentBlueWork
    let scores ← parentScores state rest (seen.insert parent)
    pure (score :: scores)

/-- `calculate_selected_parent_v1`. -/
def calculateSelectedParentV1 (block : Block) (state : ChainState) :
    Except SelectionV2Error (Option Hash) := do
  ensure (block.header.parents.length ≤ ghostdagV1MaxParents)
    (.tooManyParents block.header.parents.length ghostdagV1MaxParents)
  let scores ← parentScores state block.header.parents ∅
  pure ((maxBy compareSelectionScoresV1 scores).map SelectionScoreV1.hash)

/-- The loop of `calculate_selected_tip_v1` over the sorted tips. -/
def tipScores (state : ChainState) : List Hash → Except SelectionV2Error (List SelectionScoreV1)
  | [] => .ok []
  | hash :: rest => do
    let block ← okOr state.dag.blocks[hash]? (.missingTipBlock hash)
    let score ← scoreForKnownBlock hash block state .missingTipBlueWork
    let scores ← tipScores state rest
    pure (score :: scores)

/-- `calculate_selected_tip_v1`. -/
def calculateSelectedTipV1 (state : ChainState) : Except SelectionV2Error (Option Hash) := do
  let scores ← tipScores state state.dag.tips.toList
  pure ((maxBy compareSelectionScoresV1 scores).map SelectionScoreV1.hash)

/-- The loop of `rebuild_selected_chain_v1`, from the tip down. Every round visits a new
block, so a fuel above the number of blocks is never used up. -/
def selectedChainFrom (state : ChainState) :
    ℕ → Option Hash → TreeSet Hash → Except SelectionV2Error (List Hash)
  | _, none, _ => .ok []
  | 0, some hash, _ => .error (.selectedParentCycle hash)
  | fuel + 1, some hash, seen => do
    ensure (hash ∉ seen) (.selectedParentCycle hash)
    ensure (hash ∈ state.dag.blocks) (.missingTipBlock hash)
    let cursor ← okOr state.dag.selectedParents[hash]? (.missingSelectedParentMetadata hash)
    let reversed ← selectedChainFrom state fuel cursor (seen.insert hash)
    pure (hash :: reversed)

/-- `rebuild_selected_chain_v1`. -/
def rebuildSelectedChainV1 (state : ChainState) (selectedTip : Option Hash) :
    Except SelectionV2Error (List Hash) := do
  let reversed ← selectedChainFrom state (state.dag.blocks.size + 1) selectedTip ∅
  pure reversed.reverse

end PulseDag
