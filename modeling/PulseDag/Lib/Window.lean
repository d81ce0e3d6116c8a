import Mathlib.Data.List.Basic

/-!
# The first entries that pass a test

A window holds the first `k` entries of a list that pass a test. A stricter test gives the same
window exactly when it accepts all its entries (`take_filter_eq_iff`), and fewer entries when the
window was not full and it refuses one of them (`length_take_filter_lt`).
-/

namespace PulseDag

open List

variable {α β : Type} {p q : α → Bool} {l : List α} {k : ℕ}

/-- The values of a partial function are cut off like the entries at which it is defined. -/
theorem take_filterMap_eq (f : α → Option β) :
    (l.filterMap f).take k = ((l.filter fun a => (f a).isSome).take k).filterMap f := by
  induction l generalizing k with
  | nil => simp
  | cons a rest ih =>
    cases hvalue : f a with
    | none => simp [hvalue, ih]
    | some b =>
      cases k with
      | zero => simp
      | succ k => simp [hvalue, ih]

/-- A stricter test finds its entries among those of the other. -/
theorem filter_eq_filter_filter (hpq : ∀ a ∈ l, q a = true → p a = true) :
    l.filter q = (l.filter p).filter q := by
  rw [filter_filter]
  refine filter_congr fun a ha => ?_
  cases hq : q a with
  | false => rfl
  | true => simp [hpq a ha hq]

/-- A stricter test gives the same window exactly when it accepts all entries of it. -/
theorem take_filter_eq_iff (hpq : ∀ a ∈ l, q a = true → p a = true) :
    (l.filter q).take k = (l.filter p).take k ↔ ∀ a ∈ (l.filter p).take k, q a = true := by
  constructor
  · intro heq a ha
    rw [← heq] at ha
    exact of_mem_filter (mem_of_mem_take ha)
  · intro hall
    rw [filter_eq_filter_filter hpq]
    generalize l.filter p = passed at hall
    conv_lhs => rw [← take_append_drop k passed, filter_append,
      filter_eq_self.mpr hall]
    rcases Nat.le_total k passed.length with hfull | hshort
    · rw [take_append_of_le_length (Nat.le_of_eq (length_take_of_le hfull).symm),
        take_take, Nat.min_self]
    · rw [drop_eq_nil_of_le hshort, filter_nil, append_nil, take_take,
        Nat.min_self]

/-- A stricter test that refuses an entry of a window that is not full leaves fewer entries. -/
theorem length_take_filter_lt (hpq : ∀ a ∈ l, q a = true → p a = true)
    (hshort : ((l.filter p).take k).length < k) {a : α} (ha : a ∈ (l.filter p).take k)
    (hrefused : q a = false) : ((l.filter q).take k).length < ((l.filter p).take k).length := by
  rw [length_take] at hshort
  have htake : (l.filter p).take k = l.filter p := take_of_length_le (by omega)
  rw [htake] at ha ⊢
  refine Nat.lt_of_le_of_lt (length_take_le' _ _) ?_
  rw [filter_eq_filter_filter hpq]
  exact length_filter_lt_length_iff_exists.mpr ⟨a, ha, by simp [hrefused]⟩

end PulseDag
