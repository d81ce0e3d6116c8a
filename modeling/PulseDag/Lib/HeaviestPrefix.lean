import Mathlib

/-!
# The heaviest entries of a list

In a list that is ordered from heavy to light, the first entries weigh at least as much as any other
choice of as many entries.
-/

namespace PulseDag

open List

variable {α : Type} {weight : α → ℕ} {l chosen : List α}

/-- An exchange argument along the list: a choice without the first entry does not get lighter when
its own first entry is replaced by it. -/
theorem sum_sublist_le_sum_take (hl : l.Pairwise fun a b => weight b ≤ weight a)
    (hchosen : chosen.Sublist l) {k : ℕ} (hk : chosen.length ≤ k) :
    (chosen.map weight).sum ≤ ((l.take k).map weight).sum := by
  induction l generalizing chosen k with
  | nil =>
    rw [sublist_nil.mp hchosen]
    exact Nat.zero_le _
  | cons heaviest rest ih =>
    obtain ⟨hheaviest, hrest⟩ := pairwise_cons.mp hl
    cases chosen with
    | nil => exact Nat.zero_le _
    | cons first others =>
      obtain ⟨k, rfl⟩ : ∃ m, k = m + 1 := ⟨k - 1, by rw [length_cons] at hk; omega⟩
      have hothers : others.length ≤ k := by rw [length_cons] at hk; omega
      rw [take_succ_cons, map_cons, map_cons, sum_cons, sum_cons]
      rcases sublist_cons_iff.mp hchosen with hwithout | ⟨_, heq, hsub⟩
      · have hle := hheaviest first (hwithout.subset mem_cons_self)
        have hsum := ih hrest ((sublist_cons_self first others).trans hwithout) hothers
        omega
      · obtain ⟨rfl, rfl⟩ := List.cons.inj heq
        have hsum := ih hrest hsub hothers
        omega

/-- No choice of `k` items weighs more than the first `k`. -/
theorem sum_subperm_le_sum_take (hl : l.Pairwise fun a b => weight b ≤ weight a)
    (hchosen : chosen.Subperm l) {k : ℕ} (hk : chosen.length ≤ k) :
    (chosen.map weight).sum ≤ ((l.take k).map weight).sum := by
  obtain ⟨arranged, hperm, hsub⟩ := hchosen
  rw [← (hperm.map weight).sum_eq]
  exact sum_sublist_le_sum_take hl hsub (hperm.length_eq ▸ hk)

end PulseDag
