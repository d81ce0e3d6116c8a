import Mathlib

/-!
# Pairing trees

The entries of a level are paired up: two neighbours become one node, and an odd last entry is
paired with itself. In general a level cannot be read off the next one, because a repeated last
entry looks like an odd one. For levels without repetition it can, if the node function has no
collision on the pairs in question, and then the next level is without repetition again.
-/

namespace PulseDag

open List

variable {α β : Type}

variable {l l' : List α} {depth : ℕ}

/-- Mapping is injective where the function is. -/
theorem map_inj_of_injOn {f : α → β} (hinj : ∀ a ∈ l, ∀ b ∈ l', f a = f b → a = b)
    (h : l.map f = l'.map f) : l = l' := by
  induction l generalizing l' with
  | nil => exact (map_eq_nil_iff.mp h.symm).symm
  | cons a l ih =>
    cases l' with
    | nil => cases h
    | cons b l' =>
      rw [map_cons, map_cons, List.cons.injEq] at h
      rw [hinj a mem_cons_self b mem_cons_self h.1,
        ih (fun c hc d hd => hinj c (mem_cons_of_mem _ hc) d (mem_cons_of_mem _ hd)) h.2]

/-- The neighbours of a level; an odd last entry stands twice. -/
def neighbours : List α → List (α × α)
  | [] => []
  | [last] => [(last, last)]
  | left :: right :: rest => (left, right) :: neighbours rest

/-- Neighbours are members. -/
theorem mem_of_mem_neighbours {pair : α × α} (h : pair ∈ neighbours l) :
    pair.1 ∈ l ∧ pair.2 ∈ l := by
  induction l using neighbours.induct with
  | case1 => cases h
  | case2 last =>
    obtain rfl := mem_singleton.mp h
    exact ⟨mem_cons_self, mem_cons_self⟩
  | case3 left right rest ih =>
    rcases mem_cons.mp h with rfl | hrest
    · exact ⟨mem_cons_self, mem_cons_of_mem _ mem_cons_self⟩
    · obtain ⟨hfst, hsnd⟩ := ih hrest
      exact ⟨mem_cons_of_mem _ (mem_cons_of_mem _ hfst),
        mem_cons_of_mem _ (mem_cons_of_mem _ hsnd)⟩

/-- Without repetitions no pair comes twice. -/
theorem neighbours_nodup (h : l.Nodup) : (neighbours l).Nodup := by
  induction l using neighbours.induct with
  | case1 => exact nodup_nil
  | case2 last => exact nodup_singleton _
  | case3 left right rest ih =>
    obtain ⟨hleft, hrest⟩ := nodup_cons.mp h
    refine nodup_cons.mpr ⟨fun hmem => ?_, ih (nodup_cons.mp hrest).2⟩
    exact hleft (mem_cons_of_mem _ (mem_of_mem_neighbours hmem).1)

/-- A level without repetition is determined by its pairs: an odd last entry is the only pair of
equal entries. -/
theorem neighbours_inj (hl : l.Nodup) (hl' : l'.Nodup) (h : neighbours l = neighbours l') :
    l = l' := by
  induction l using neighbours.induct generalizing l' with
  | case1 =>
    cases l' using neighbours.fun_cases with
    | case1 => rfl
    | case2 last => cases h
    | case3 left right rest => cases h
  | case2 last =>
    cases l' using neighbours.fun_cases with
    | case1 => cases h
    | case2 last' =>
      simp only [neighbours, List.cons.injEq, Prod.mk.injEq, and_self, and_true] at h
      rw [h]
    | case3 left right rest =>
      simp only [neighbours, List.cons.injEq, Prod.mk.injEq] at h
      exact absurd mem_cons_self (h.1.1 ▸ h.1.2 ▸ (nodup_cons.mp hl').1)
  | case3 left right rest ih =>
    cases l' using neighbours.fun_cases with
    | case1 => cases h
    | case2 last =>
      simp only [neighbours, List.cons.injEq, Prod.mk.injEq] at h
      exact absurd mem_cons_self (h.1.1 ▸ h.1.2 ▸ (nodup_cons.mp hl).1)
    | case3 left' right' rest' =>
      simp only [neighbours, List.cons.injEq, Prod.mk.injEq] at h
      obtain ⟨⟨rfl, rfl⟩, hrest⟩ := h
      rw [ih (nodup_cons.mp (nodup_cons.mp hl).2).2
        (nodup_cons.mp (nodup_cons.mp hl').2).2 hrest]

variable {node : α × α → α}

/-- The next level. -/
def pairUp (node : α × α → α) (level : List α) : List α := (neighbours level).map node

/-- The pairs of a number of levels from a level on. -/
def treePairs (node : α × α → α) : ℕ → List α → List (α × α)
  | 0, _ => []
  | depth + 1, level => neighbours level ++ treePairs node depth (pairUp node level)

/-- No collision of the node function on the listed pairs. -/
def CollisionFreeOn (node : α × α → α) (pairs : List (α × α)) : Prop :=
  ∀ p ∈ pairs, ∀ q ∈ pairs, node p = node q → p = q

/-- Without collisions a level has no repetition. -/
theorem pairUp_nodup (hl : l.Nodup) (hnode : CollisionFreeOn node (neighbours l)) :
    (pairUp node l).Nodup :=
  (neighbours_nodup hl).map_on hnode

/-- Fewer pairs collide no more. -/
theorem CollisionFreeOn.mono {pairs others : List (α × α)} (h : CollisionFreeOn node others)
    (hsub : pairs ⊆ others) : CollisionFreeOn node pairs := fun p hp q hq =>
  h p (hsub hp) q (hsub hq)

/-- The pairs of the lower levels come first. -/
theorem treePairs_add (node : α × α → α) (depth more : ℕ) (l : List α) :
    treePairs node (depth + more) l =
      treePairs node depth l ++ treePairs node more ((pairUp node)^[depth] l) := by
  induction depth generalizing l with
  | zero => rw [Nat.zero_add, treePairs, nil_append, Function.iterate_zero_apply]
  | succ depth ih =>
    rw [Nat.succ_add, treePairs, ih, treePairs, append_assoc, Function.iterate_succ_apply]

/-- Without collisions no level has a repetition. -/
theorem iterate_pairUp_nodup (hl : l.Nodup)
    (hnode : CollisionFreeOn node (treePairs node depth l)) : ((pairUp node)^[depth] l).Nodup := by
  induction depth generalizing l with
  | zero => exact hl
  | succ depth ih =>
    rw [Function.iterate_succ_apply]
    rw [treePairs] at hnode
    exact ih (pairUp_nodup hl (hnode.mono (subset_append_left _ _)))
      (hnode.mono (subset_append_right _ _))

/-- Levels without repetition that agree after the same number of rounds are equal. -/
theorem iterate_pairUp_inj (hl : l.Nodup) (hl' : l'.Nodup)
    (hnode : CollisionFreeOn node (treePairs node depth l ++ treePairs node depth l'))
    (h : (pairUp node)^[depth] l = (pairUp node)^[depth] l') : l = l' := by
  induction depth generalizing l l' with
  | zero => exact h
  | succ depth ih =>
    rw [Function.iterate_succ_apply, Function.iterate_succ_apply] at h
    rw [treePairs, treePairs] at hnode
    have hlevel : CollisionFreeOn node (neighbours l ++ neighbours l') := hnode.mono (by grind)
    have hnext := ih (pairUp_nodup hl (hlevel.mono (subset_append_left _ _)))
      (pairUp_nodup hl' (hlevel.mono (subset_append_right _ _))) (hnode.mono (by grind)) h
    refine neighbours_inj hl hl' (map_inj_of_injOn (fun p hp q hq => ?_) hnext)
    exact hlevel p (mem_append_left _ hp) q (mem_append_right _ hq)

/-- Trees of levels without repetition: if the roots agree, the lower tree has the leaves of one
of the levels of the other. -/
theorem eq_iterate_pairUp {more : ℕ} (hl : l.Nodup) (hl' : l'.Nodup)
    (hnode : CollisionFreeOn node (treePairs node depth l ++ treePairs node (more + depth) l'))
    (h : (pairUp node)^[depth] l = (pairUp node)^[more + depth] l') :
    l = (pairUp node)^[more] l' := by
  rw [Nat.add_comm, Function.iterate_add_apply] at h
  rw [treePairs_add] at hnode
  refine iterate_pairUp_inj hl ?_ (hnode.mono (by grind)) h
  exact iterate_pairUp_nodup hl' (hnode.mono (by grind))

end PulseDag
