import PulseDag.Ghostdag.Classification

/-!
# Ancestry and merge sets

What the traversals of `ghostdag_v1.rs` compute. A block is an ancestor of itself. The
past of a block is everything below its parents, and the merge set is the part of the
past that is not below the selected parent.
-/

namespace PulseDag

open List

/-- `p` is a parent of the stored block `c`. -/
def ParentOf (state : ChainState) (p c : Hash) : Prop :=
  ∃ block, state.dag.blocks[c]? = some block ∧ p ∈ block.header.parents

/-- `a` is `c` or below it. -/
def Ancestor (state : ChainState) : Hash → Hash → Prop :=
  Relation.ReflTransGen (ParentOf state)

/-- `a` is below one of the listed blocks, the parents of a block in use. -/
def InPast (state : ChainState) (parents : List Hash) (a : Hash) : Prop :=
  ∃ p ∈ parents, Ancestor state a p

/-- A block is its own ancestor. -/
theorem Ancestor.refl (state : ChainState) (h : Hash) : Ancestor state h h :=
  Relation.ReflTransGen.refl

variable {state : ChainState} {block : Block} {maxVisits visits : ℕ}
  {seen start mergeSet past : TreeSet Hash} {found : TreeSet Hash × ℕ} {parents : List Hash}
  {scores : List SelectionScoreV1} {limits : GhostdagV1Limits}

/-- Ancestors of ancestors are ancestors. -/
theorem Ancestor.trans {a b c : Hash} (hab : Ancestor state a b) (hbc : Ancestor state b c) :
    Ancestor state a c := Relation.ReflTransGen.trans hab hbc

/-- Parents are ancestors. -/
theorem ParentOf.ancestor {p c : Hash} (h : ParentOf state p c) :
    Ancestor state p c := .single h

/-- A rank that grows from parents to children is monotone along ancestry. -/
theorem Ancestor.rank_le {s : ChainState} {rank : Hash → ℕ}
    (hrank : ∀ p c, ParentOf s p c → rank p < rank c)
    {a h : Hash} (ha : Ancestor s a h) : rank a ≤ rank h := by
  induction ha using Relation.ReflTransGen.head_induction_on with
  | refl => exact Nat.le_refl _
  | head hstep _ ih => exact (hrank _ _ hstep).le.trans ih

/-- An ancestor of a stored block is the block or an ancestor of one of its parents. -/
theorem ancestor_iff_of_getElem? {a c : Hash} (hblock : state.dag.blocks[c]? = some block) :
    Ancestor state a c ↔ a = c ∨ InPast state block.header.parents a := by
  constructor
  · intro h
    rcases Relation.ReflTransGen.cases_tail h with rfl | ⟨p, hp, block', hblock', hmem⟩
    · exact .inl rfl
    · rw [hblock] at hblock'
      obtain rfl := Option.some.inj hblock'
      exact .inr ⟨p, hmem, hp⟩
  · rintro (rfl | ⟨p, hmem, hp⟩)
    · exact Ancestor.refl state a
    · exact Relation.ReflTransGen.tail hp ⟨block, hblock, hmem⟩

/-- The search goes from a block to its parents. -/
theorem successor_parentsOf {x y : Hash} : Successor state.parentsOf x y ↔ ParentOf state y x := by
  unfold Successor ParentOf ChainState.parentsOf
  constructor
  · rintro ⟨parents, hparents, hy⟩
    obtain ⟨block, hblock, rfl⟩ := Option.map_eq_some_iff.mp hparents
    exact ⟨block, hblock, hy⟩
  · rintro ⟨block, hblock, hy⟩
    exact ⟨block.header.parents, by rw [hblock, Option.map_some], hy⟩

/-- The search reaches exactly the ancestors. -/
theorem reflTransGen_successor {x y : Hash} :
    Relation.ReflTransGen (Successor state.parentsOf) x y ↔ Ancestor state y x := by
  have hrel : Successor state.parentsOf = Function.swap (ParentOf state) := by
    ext a b
    exact successor_parentsOf
  rw [hrel]
  exact Relation.reflTransGen_swap

/-- A traversal that was not stopped has found exactly the ancestors of its start, all of which are
stored. -/
theorem traverse_parentsOf_spec {ε : Type} {limit : ε} {missing : Hash → ε} {stop : Hash → Bool}
    {fuel visits' : ℕ}
    (hrun : traverse state.parentsOf stop maxVisits limit missing fuel start ∅ visits =
      .ok (false, seen, visits')) :
    (∀ x, x ∈ seen ↔ ∃ top ∈ start, Ancestor state x top) ∧ ∀ x ∈ seen, x ∈ state.dag.blocks := by
  obtain ⟨hclosed, _, hstart⟩ := traverse_closed _ (TraversalInvariant.init _ _) hrun
  have hparent : ∀ x ∈ seen, ∀ y, ParentOf state y x → y ∈ seen := by
    intro x hx y hy
    obtain ⟨l, hl, hmem⟩ := hclosed.successors x hx
    obtain ⟨l', hl', hyl⟩ := successor_parentsOf.mpr hy
    rw [hl] at hl'
    obtain rfl := Option.some.inj hl'
    simpa using hmem y hyl
  refine ⟨fun x => ⟨fun hx => ?_, ?_⟩, fun x hx => ?_⟩
  · rcases traverse_sound _ hrun x hx with hx | ⟨y, hy, hreach⟩
    · exact absurd hx Std.ExtTreeSet.not_mem_empty
    · exact ⟨y, hy, reflTransGen_successor.mp hreach⟩
  · rintro ⟨top, htop, hx⟩
    induction hx using Relation.ReflTransGen.head_induction_on with
    | refl => exact hstart top htop
    | head hstep _ ih => exact hparent _ ih _ hstep
  · obtain ⟨l, hl, _⟩ := hclosed.successors x hx
    obtain ⟨block, hblock, _⟩ := Option.map_eq_some_iff.mp hl
    exact (TreeMap.mem_iff _ _).mpr ⟨block, hblock⟩

/-- A traversal without a stopping condition finds exactly the ancestors of its start. -/
theorem traverse_ancestors_spec {ε : Type} {limit : ε} {missing : Hash → ε} {fuel : ℕ}
    {result : Bool × TreeSet Hash × ℕ}
    (hrun : traverse state.parentsOf (fun _ => false) maxVisits limit missing fuel start ∅ visits =
      .ok result) :
    (∀ x, x ∈ result.2.1 ↔ ∃ top ∈ start, Ancestor state x top) ∧
      ∀ x ∈ result.2.1, x ∈ state.dag.blocks := by
  obtain ⟨stopped, seen, visits'⟩ := result
  cases stopped with
  | false => exact traverse_parentsOf_spec hrun
  | true =>
    obtain ⟨_, _, hstop⟩ := (traverse_stopped_iff _ (by simp) hrun).mp rfl
    cases hstop

/-- The bounded traversal returns exactly the ancestors, all of which are stored. -/
theorem ancestorsInclusiveBounded_spec {hash : Hash}
    (h : ancestorsInclusiveBounded hash state visits maxVisits = .ok found) :
    (∀ x, x ∈ found.1 ↔ Ancestor state x hash) ∧ ∀ x ∈ found.1, x ∈ state.dag.blocks := by
  obtain ⟨result, hrun, hfound⟩ := bind_eq_ok.mp h
  obtain rfl : result.2 = found := by simpa using hfound
  obtain ⟨hmem, hstored⟩ := traverse_ancestors_spec hrun
  refine ⟨fun x => (hmem x).trans ⟨?_, fun hx => ⟨hash, Std.ExtTreeSet.mem_insert_self, hx⟩⟩,
    hstored⟩
  rintro ⟨top, htop, hx⟩
  obtain rfl : hash = top := by simpa using htop
  exact hx

/-! ## The selected parent -/

/-- A maximum is a member. -/
theorem maxBy_mem {α : Type} {cmp : α → α → Ordering} {l : List α} {a : α}
    (h : maxBy cmp l = some a) : a ∈ l := by
  cases l with
  | nil => simp [maxBy] at h
  | cons first rest =>
    obtain rfl := Option.some.inj h
    clear h
    induction rest generalizing first with
    | nil => simp
    | cons item rest ih =>
      rw [foldl_cons]
      have hmem := ih (if cmp first item = .gt then first else item)
      rcases mem_cons.mp hmem with heq | hmem
      · rw [heq]
        split <;> simp
      · exact mem_cons_of_mem _ (mem_cons_of_mem _ hmem)

/-- Only the empty list has no maximum. -/
theorem maxBy_eq_none {α : Type} {cmp : α → α → Ordering} {l : List α} :
    maxBy cmp l = none ↔ l = [] := by
  cases l <;> simp [maxBy]

/-- The parents that were scored are stored, distinct and scored under their hashes. -/
theorem parentScores_spec (h : parentScores state parents seen = .ok scores) :
    scores.map SelectionScoreV1.hash = parents ∧ (∀ p ∈ parents, p ∈ state.dag.blocks) ∧
      parents.Nodup ∧ ∀ p ∈ parents, p ∉ seen := by
  induction parents generalizing seen scores with
  | nil =>
    obtain rfl : [] = scores := by simpa [parentScores] using h
    simp
  | cons parent rest ih =>
    simp only [parentScores, scoreForKnownBlock, bind_eq_ok, ensure_eq_ok, okOr_eq_ok,
      pure_eq_ok] at h
    obtain ⟨_, hnew, block, hblock, score, ⟨work, _, hscore⟩, scores', hrest, hscores⟩ := h
    obtain rfl := Except.ok.inj hscore
    obtain rfl := Except.ok.inj hscores
    obtain ⟨hmap, hstored, hnodup, hunseen⟩ := ih hrest
    have hparent : parent ∉ rest := fun hmem =>
      hunseen parent hmem Std.ExtTreeSet.mem_insert_self
    refine ⟨by simp [hmap], ?_, nodup_cons.mpr ⟨hparent, hnodup⟩, ?_⟩
    · rintro p (_ | ⟨_, hp⟩)
      · exact (TreeMap.mem_iff _ _).mpr ⟨block, hblock⟩
      · exact hstored p hp
    · rintro p (_ | ⟨_, hp⟩)
      · exact hnew
      · exact fun hseen => hunseen p hp (Std.ExtTreeSet.mem_insert.mpr (.inr hseen))

/-- The selected parent is a parent, and exists when there are parents. -/
theorem calculateSelectedParentV1_spec {selected : Option Hash}
    (h : calculateSelectedParentV1 block state = .ok selected) :
    (∀ p ∈ block.header.parents, p ∈ state.dag.blocks) ∧
      (selected = none → block.header.parents = []) ∧
      ∀ p, selected = some p → p ∈ block.header.parents := by
  simp only [calculateSelectedParentV1, bind_eq_ok, ensure_eq_ok, pure_eq_ok] at h
  obtain ⟨_, _, scores, hscores, hselected⟩ := h
  obtain rfl := Except.ok.inj hselected
  obtain ⟨hmap, hstored, _⟩ := parentScores_spec hscores
  refine ⟨hstored, fun hnone => ?_, fun p hp => ?_⟩
  · rw [Option.map_eq_none_iff, maxBy_eq_none] at hnone
    rw [← hmap, hnone, map_nil]
  · obtain ⟨score, hscore, rfl⟩ := Option.map_eq_some_iff.mp hp
    rw [← hmap]
    exact mem_map_of_mem (maxBy_mem hscore)

/-! ## The merge set -/

/-- One round adds the ancestors outside of the past. -/
theorem extendMergeSet_spec {maxBlocks : ℕ} {ancestors : List Hash} {extended : TreeSet Hash}
    (h : extendMergeSet past maxBlocks ancestors mergeSet = .ok extended) (x : Hash) :
    x ∈ extended ↔ x ∈ mergeSet ∨ (x ∈ ancestors ∧ x ∉ past) := by
  induction ancestors generalizing mergeSet with
  | nil =>
    obtain rfl : mergeSet = extended := by simpa [extendMergeSet] using h
    simp
  | cons ancestor rest ih =>
    rw [extendMergeSet] at h
    by_cases hpast : ancestor ∈ past
    · rw [if_pos hpast] at h
      rw [ih h]
      grind
    · simp only [hpast, if_false, ok_iff] at h
      obtain ⟨_, _, hrest⟩ := h
      rw [ih hrest, Std.ExtTreeSet.mem_insert, Std.compare_eq_iff_eq]
      grind

/-- The merge set is the past of the parents without that of the selected one. -/
theorem collectMergeSet_spec {selectedParent : Hash}
    (hpast : ∀ x, x ∈ past ↔ Ancestor state x selectedParent)
    (h : collectMergeSet state limits selectedParent past parents mergeSet visits = .ok found)
    (x : Hash) :
    x ∈ found.1 ↔ x ∈ mergeSet ∨
      (InPast state parents x ∧ ¬Ancestor state x selectedParent) := by
  induction parents generalizing mergeSet visits with
  | nil =>
    obtain rfl : (mergeSet, visits) = found := by simpa [collectMergeSet] using h
    simp [InPast]
  | cons parent rest ih =>
    have hcons : InPast state (parent :: rest) x ↔
        Ancestor state x parent ∨ InPast state rest x := by
      simp [InPast]
    rw [collectMergeSet] at h
    by_cases hparent : parent = selectedParent
    · rw [if_pos hparent] at h
      rw [ih h, hcons, hparent]
      tauto
    · simp only [hparent, if_false, bind_eq_ok] at h
      obtain ⟨ancestors, hancestors, extended, hextended, hrest⟩ := h
      rw [ih hrest, extendMergeSet_spec hextended, Std.ExtTreeSet.mem_toList,
        (ancestorsInclusiveBounded_spec hancestors).1, hpast, hcons]
      tauto

/-- The merge set is the past of the block without the past of its selected parent. -/
theorem calculateBoundedMergeSetWithLimits_spec {bounded : BoundedMergeSetV1}
    (h : calculateBoundedMergeSetWithLimits block state limits = .ok bounded) :
    calculateSelectedParentV1 block state = .ok bounded.selectedParent ∧
      bounded.mergeSet.Nodup ∧
      ∀ x, x ∈ bounded.mergeSet ↔ InPast state block.header.parents x ∧
        ∀ p, bounded.selectedParent = some p → ¬Ancestor state x p := by
  simp only [calculateBoundedMergeSetWithLimits, ok_iff] at h
  obtain ⟨selected, hselected, h⟩ := h
  cases selected with
  | none =>
    obtain rfl := Except.ok.inj h
    have hnil := (calculateSelectedParentV1_spec hselected).2.1 rfl
    exact ⟨hselected, nodup_nil, by simp [InPast, hnil]⟩
  | some selectedParent =>
    simp only [bind_eq_ok] at h
    obtain ⟨past, hpast, found, hfound, h⟩ := h
    obtain rfl := Except.ok.inj h
    refine ⟨hselected, TreeSet.nodup_toList _, fun x => ?_⟩
    rw [Std.ExtTreeSet.mem_toList,
      collectMergeSet_spec (ancestorsInclusiveBounded_spec hpast).1 hfound]
    simp [InPast, mem_insertionSort]

/-! ## The classification -/

/-- Every candidate gets a score. -/
theorem candidateScores_spec {hashes : List Hash} (h : candidateScores state hashes = .ok scores) :
    scores.map SelectionScoreV1.hash = hashes := by
  induction hashes generalizing scores with
  | nil =>
    obtain rfl : [] = scores := by simpa [candidateScores] using h
    rfl
  | cons hash rest ih =>
    simp only [candidateScores, bind_eq_ok, okOr_eq_ok] at h
    obtain ⟨_, _, _, _, scores', hrest, hscores⟩ := h
    obtain rfl := Except.ok.inj hscores
    rw [map_cons, ih hrest]

/-- Colouring distributes the candidates over the blue and the red members. -/
theorem colourMergeSet_perm {candidates blues reds : List Hash}
    {coloured : List Hash × List Hash × ℕ}
    (h : colourMergeSet state limits candidates blues reds visits = .ok coloured) :
    (coloured.1 ++ coloured.2.1).Perm (candidates ++ (blues ++ reds)) := by
  induction candidates generalizing blues reds visits with
  | nil =>
    obtain rfl : (blues, reds, visits) = coloured := by simpa [colourMergeSet] using h
    exact List.Perm.refl _
  | cons candidate rest ih =>
    simp only [colourMergeSet, bind_eq_ok] at h
    obtain ⟨counted, _, h⟩ := h
    split at h
    · refine (ih h).trans ?_
      rw [append_assoc, cons_append]
      calc rest ++ (blues ++ ([candidate] ++ reds))
          = (rest ++ blues) ++ candidate :: reds := by simp
        _ |>.Perm (candidate :: ((rest ++ blues) ++ reds)) := perm_middle
        _ = candidate :: (rest ++ (blues ++ reds)) := by simp
    · refine (ih h).trans ?_
      calc rest ++ (blues ++ (reds ++ [candidate]))
          = (rest ++ (blues ++ reds)) ++ candidate :: [] := by simp
        _ |>.Perm (candidate :: ((rest ++ (blues ++ reds)) ++ [])) := perm_middle
        _ = candidate :: (rest ++ (blues ++ reds)) := by simp

/-- What a classification says about the block: its selected parent, and that the blue and
red members are the merge set, each member once. -/
theorem classifyMergeSetV1_spec [Crypto] {classification : GhostdagV1Classification}
    (h : classifyMergeSetV1 block state = .ok classification) :
    calculateSelectedParentV1 block state = .ok classification.selectedParent ∧
      (classification.blues ++ classification.reds).Nodup ∧
      ∀ x, x ∈ classification.blues ++ classification.reds ↔
        InPast state block.header.parents x ∧
          ∀ p, classification.selectedParent = some p → ¬Ancestor state x p := by
  simp only [classifyMergeSetV1, classifyMergeSetWithLimits, bind_eq_ok] at h
  obtain ⟨bounded, hbounded, scores, hscores, coloured, hcoloured, derived, _, h⟩ := h
  obtain rfl := Except.ok.inj h
  obtain ⟨hselected, hnodup, hmem⟩ := calculateBoundedMergeSetWithLimits_spec hbounded
  have hperm : (coloured.1 ++ coloured.2.1).Perm bounded.mergeSet := by
    refine (colourMergeSet_perm hcoloured).trans ?_
    rw [append_nil, append_nil, ← candidateScores_spec hscores]
    exact (perm_insertionSort _ scores).map _
  refine ⟨hselected, hperm.nodup_iff.mpr hnodup, fun x => ?_⟩
  rw [hperm.mem_iff, hmem]

end PulseDag
