import PulseDag.Ghostdag.Ancestry

/-!
# A classification depends only on the past

The classification of a block reads the stored blocks and the blue work of the block's
past and nothing else. Two states that agree on a set closed under parents classify every
block with parents in the set in the same way, errors and visit counts included.
-/

namespace PulseDag

open List

/-- The states store the same blocks and blue work in `D`, which holds the parents of its
stored members. -/
structure AgreeOn (D : Hash → Prop) (s t : ChainState) : Prop where
  blocks : ∀ h, D h → s.dag.blocks[h]? = t.dag.blocks[h]?
  blueWork : ∀ h, D h → s.dag.blueWork[h]? = t.dag.blueWork[h]?
  parents : ∀ h, D h → ∀ block, s.dag.blocks[h]? = some block → ∀ p ∈ block.header.parents, D p

namespace AgreeOn

variable {D : Hash → Prop} {s t : ChainState}

/-- Agreement is symmetric. -/
theorem symm (hagree : AgreeOn D s t) : AgreeOn D t s where
  blocks h hD := (hagree.blocks h hD).symm
  blueWork h hD := (hagree.blueWork h hD).symm
  parents h hD block hblock := hagree.parents h hD block ((hagree.blocks h hD).trans hblock)

variable {h : Hash} {parents : List Hash} {block : Block}

/-- Ancestors of a member are members. -/
theorem mem_of_ancestor (hagree : AgreeOn D s t) {a : Hash} (hD : D h) (ha : Ancestor s a h) :
    D a := by
  induction ha using Relation.ReflTransGen.head_induction_on with
  | refl => exact hD
  | head hstep _ ih =>
    obtain ⟨block, hblock, hmem⟩ := hstep
    exact hagree.parents _ ih block hblock _ hmem

/-- Both states have the same ancestors below a member. -/
theorem ancestor_iff (hagree : AgreeOn D s t) {a : Hash} (hD : D h) :
    Ancestor s a h ↔ Ancestor t a h := by
  have himp : ∀ {s t : ChainState}, AgreeOn D s t → Ancestor s a h → Ancestor t a h := by
    intro s t hagree ha
    induction ha using Relation.ReflTransGen.head_induction_on with
    | refl => exact Ancestor.refl t h
    | head hstep hrest ih =>
      obtain ⟨block, hblock, hmem⟩ := hstep
      have hmid := hagree.mem_of_ancestor hD hrest
      exact Relation.ReflTransGen.head
        ⟨block, (hagree.blocks _ hmid).symm.trans hblock, hmem⟩ ih
  exact ⟨himp hagree, himp hagree.symm⟩

/-- The same parents. -/
theorem parentsOf (hagree : AgreeOn D s t) (hD : D h) : s.parentsOf h = t.parentsOf h := by
  rw [ChainState.parentsOf, ChainState.parentsOf, hagree.blocks h hD]

/-- A traversal that starts in `D` does not see the difference. -/
theorem traverse_eq {ε : Type} (hagree : AgreeOn D s t) {stop : Hash → Bool} {maxVisits : ℕ}
    {limit : ε} {missing : Hash → ε} (fuel : ℕ) (hD : D h) (visits : ℕ) :
    traverse s.parentsOf stop maxVisits limit missing fuel ((∅ : TreeSet Hash).insert h) ∅ visits =
      traverse t.parentsOf stop maxVisits limit missing fuel ((∅ : TreeSet Hash).insert h) ∅
        visits := by
  refine traverse_congr D (fun x hx => hagree.parentsOf hx) ?_ fuel ?_
  · intro x hx parents hparents y hy
    obtain ⟨block, hblock, rfl⟩ := Option.map_eq_some_iff.mp hparents
    exact hagree.parents x hx block hblock y hy
  · intro x hx
    obtain rfl : h = x := by simpa using hx
    exact hD

/-- The same scores of parents. -/
theorem parentScores_eq (hagree : AgreeOn D s t) (hparents : ∀ p ∈ parents, D p)
    (seen : TreeSet Hash) : parentScores s parents seen = parentScores t parents seen := by
  induction parents generalizing seen with
  | nil => rfl
  | cons parent rest ih =>
    have hD : D parent := hparents parent mem_cons_self
    have hrest := ih fun p hp => hparents p (mem_cons_of_mem _ hp)
    simp only [parentScores, scoreForKnownBlock, hagree.blocks parent hD,
      hagree.blueWork parent hD, hrest]

/-- The same selected parent. -/
theorem calculateSelectedParentV1_eq (hagree : AgreeOn D s t)
    (hparents : ∀ p ∈ block.header.parents, D p) :
    calculateSelectedParentV1 block s = calculateSelectedParentV1 block t := by
  simp only [calculateSelectedParentV1, hagree.parentScores_eq hparents]

/-- The same ancestors. -/
theorem ancestorsInclusiveBounded_eq (hagree : AgreeOn D s t) (hD : D h) (visits maxVisits : ℕ) :
    ancestorsInclusiveBounded h s visits maxVisits =
      ancestorsInclusiveBounded h t visits maxVisits := by
  simp only [ancestorsInclusiveBounded, hagree.traverse_eq _ hD]

/-- The same merge set, round by round. -/
theorem collectMergeSet_eq (hagree : AgreeOn D s t) (limits : GhostdagV1Limits)
    (selectedParent : Hash) (past : TreeSet Hash) (hparents : ∀ p ∈ parents, D p)
    (mergeSet : TreeSet Hash) (visits : ℕ) :
    collectMergeSet s limits selectedParent past parents mergeSet visits =
      collectMergeSet t limits selectedParent past parents mergeSet visits := by
  induction parents generalizing mergeSet visits with
  | nil => rfl
  | cons parent rest ih =>
    have hD : D parent := hparents parent mem_cons_self
    have hrest := ih fun p hp => hparents p (mem_cons_of_mem _ hp)
    simp only [collectMergeSet, hagree.ancestorsInclusiveBounded_eq hD, hrest]

/-- The same merge set. -/
theorem calculateBoundedMergeSetWithLimits_eq (hagree : AgreeOn D s t)
    (hparents : ∀ p ∈ block.header.parents, D p) (limits : GhostdagV1Limits) :
    calculateBoundedMergeSetWithLimits block s limits =
      calculateBoundedMergeSetWithLimits block t limits := by
  have hsorted : ∀ p ∈ block.header.parents.insertionSort (· ≤ ·), D p := fun p hp =>
    hparents p ((mem_insertionSort _).mp hp)
  rw [calculateBoundedMergeSetWithLimits, calculateBoundedMergeSetWithLimits,
    hagree.calculateSelectedParentV1_eq hparents]
  cases hselected : calculateSelectedParentV1 block t with
  | error e => rfl
  | ok selected =>
    cases selected with
    | none => rfl
    | some p =>
      have hD := hparents p ((calculateSelectedParentV1_spec hselected).2.2 p rfl)
      simp only [Except.mapError, ok_bind, hagree.ancestorsInclusiveBounded_eq hD,
        hagree.collectMergeSet_eq limits p _ hsorted]

/-- The same scores of candidates. -/
theorem candidateScores_eq (hagree : AgreeOn D s t) {hashes : List Hash}
    (hhashes : ∀ h ∈ hashes, D h) : candidateScores s hashes = candidateScores t hashes := by
  induction hashes with
  | nil => rfl
  | cons hash rest ih =>
    have hD : D hash := hhashes hash mem_cons_self
    simp only [candidateScores, hagree.blocks hash hD, hagree.blueWork hash hD,
      ih fun h hh => hhashes h (mem_cons_of_mem _ hh)]

/-- The same answer to an ancestry query. -/
theorem isAncestorBounded_eq (hagree : AgreeOn D s t) (a : Hash) (hD : D h) (visits maxVisits : ℕ) :
    isAncestorBounded a h s visits maxVisits = isAncestorBounded a h t visits maxVisits := by
  simp only [isAncestorBounded, hagree.traverse_eq _ hD]

/-- The same answer whether two blocks are related. -/
theorem areRelatedBounded_eq (hagree : AgreeOn D s t) {a b : Hash} (ha : D a) (hb : D b)
    (visits maxVisits : ℕ) :
    areRelatedBounded a b s visits maxVisits = areRelatedBounded a b t visits maxVisits := by
  simp only [areRelatedBounded, hagree.isAncestorBounded_eq _ ha, hagree.isAncestorBounded_eq _ hb]

/-- The same count of blue blocks in an anticone. -/
theorem countAnticoneBlues_eq (hagree : AgreeOn D s t) (limits : GhostdagV1Limits)
    {candidate : Hash} (hcandidate : D candidate) {blues : List Hash} (hblues : ∀ h ∈ blues, D h)
    (anticoneBlues visits : ℕ) :
    countAnticoneBlues s limits candidate blues anticoneBlues visits =
      countAnticoneBlues t limits candidate blues anticoneBlues visits := by
  induction blues generalizing anticoneBlues visits with
  | nil => rfl
  | cons blue rest ih =>
    have hD : D blue := hblues blue mem_cons_self
    simp only [countAnticoneBlues, hagree.areRelatedBounded_eq hcandidate hD,
      ih fun h hh => hblues h (mem_cons_of_mem _ hh)]

/-- The same colours. -/
theorem colourMergeSet_eq (hagree : AgreeOn D s t) (limits : GhostdagV1Limits)
    {candidates blues : List Hash} (hcandidates : ∀ h ∈ candidates, D h)
    (hblues : ∀ h ∈ blues, D h) (reds : List Hash) (visits : ℕ) :
    colourMergeSet s limits candidates blues reds visits =
      colourMergeSet t limits candidates blues reds visits := by
  induction candidates generalizing blues reds visits with
  | nil => rfl
  | cons candidate rest ih =>
    have hD : D candidate := hcandidates candidate mem_cons_self
    have hrest : ∀ h ∈ rest, D h := fun h hh => hcandidates h (mem_cons_of_mem _ hh)
    have hsnoc : ∀ h ∈ blues ++ [candidate], D h := by
      intro h hh
      rcases mem_append.mp hh with hh | hh
      · exact hblues h hh
      · exact mem_singleton.mp hh ▸ hD
    simp only [colourMergeSet, hagree.countAnticoneBlues_eq limits hD hblues, ih hrest hblues,
      ih hrest hsnoc]

/-- The same score and work. -/
theorem deriveScoreWorkV1_eq (hagree : AgreeOn D s t) {selectedParent : Option Hash}
    (hselected : ∀ p, selectedParent = some p → D p) (blues : List Hash) :
    deriveScoreWorkV1 selectedParent blues s = deriveScoreWorkV1 selectedParent blues t := by
  cases selectedParent with
  | none => rfl
  | some p =>
    simp only [deriveScoreWorkV1, hagree.blocks p (hselected p rfl),
      hagree.blueWork p (hselected p rfl)]

/-- The classification of a block whose parents are in `D` is the same in both states. -/
theorem classifyMergeSetV1_eq [Crypto] (hagree : AgreeOn D s t)
    (hparents : ∀ p ∈ block.header.parents, D p) :
    classifyMergeSetV1 block s = classifyMergeSetV1 block t := by
  simp only [classifyMergeSetV1, classifyMergeSetWithLimits,
    hagree.calculateBoundedMergeSetWithLimits_eq hparents]
  cases hbounded : calculateBoundedMergeSetWithLimits block t {} with
  | error e => rfl
  | ok bounded =>
    obtain ⟨hselected, _, hmem⟩ := calculateBoundedMergeSetWithLimits_spec hbounded
    -- every member of the merge set lies below a parent, hence in `D`
    have hmergeSet : ∀ h ∈ bounded.mergeSet, D h := by
      intro h hh
      obtain ⟨⟨p, hp, hanc⟩, _⟩ := (hmem h).mp hh
      exact hagree.symm.mem_of_ancestor (hparents p hp) hanc
    have hparent : ∀ p, bounded.selectedParent = some p → D p := fun p hp =>
      hparents p ((calculateSelectedParentV1_spec hselected).2.2 p hp)
    simp only [ok_bind, hagree.candidateScores_eq hmergeSet]
    cases hscores : candidateScores t bounded.mergeSet with
    | error e => rfl
    | ok scores =>
      have hcandidates : ∀ h ∈ (scores.insertionSort fun a b =>
          (compareSelectionScoresV1 b a).isLE).map SelectionScoreV1.hash, D h := by
        intro h hh
        refine hmergeSet h ?_
        rw [← candidateScores_spec hscores]
        exact ((perm_insertionSort _ scores).map _).mem_iff.mp hh
      simp only [ok_bind, hagree.colourMergeSet_eq {} hcandidates (fun _ h => absurd h
        not_mem_nil), hagree.deriveScoreWorkV1_eq hparent]

end AgreeOn

end PulseDag
