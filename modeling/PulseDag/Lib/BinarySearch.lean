import PulseDag.Lib.Except

/-!
# Binary search for the last accepted number

The search halves an interval whose lower end is accepted. For a test that accepts a
down-closed set of numbers it finds the greatest accepted one.
-/

namespace PulseDag

variable {ε : Type}

/-- Search `[low, high]` with an upper middle; `high - low` rounds are enough. -/
def searchLast (test : ℕ → Except ε Bool) : ℕ → ℕ → ℕ → Except ε ℕ
  | 0, low, _ => .ok low
  | fuel + 1, low, high =>
    if low < high then do
      let mid := low + (high - low + 1) / 2
      if ← test mid then searchLast test fuel mid high else searchLast test fuel low (mid - 1)
    else .ok low

variable {test : ℕ → Except ε Bool}

/-- The errors of the search are errors of the test. -/
theorem searchLast_failsWith {P : ε → Prop} (htest : ∀ m, FailsWith P (test m))
    (fuel low high : ℕ) : FailsWith P (searchLast test fuel low high) := by
  induction fuel generalizing low high with
  | zero => exact failsWith_ok _
  | succ fuel ih =>
    rw [searchLast]
    split
    · refine (htest _).bind fun answer _ => ?_
      split
      · exact ih _ _
      · exact ih _ _
    · exact failsWith_ok _

/-- The search ends with a number when every test in its interval gives an answer. -/
theorem searchLast_ok {fuel low high : ℕ} (htest : ∀ m ≤ high, ∃ answer, test m = .ok answer) :
    ∃ found, searchLast test fuel low high = .ok found := by
  induction fuel generalizing low high with
  | zero => exact ⟨low, rfl⟩
  | succ fuel ih =>
    rw [searchLast]
    by_cases hlt : low < high
    · obtain ⟨answer, hanswer⟩ := htest (low + (high - low + 1) / 2) (by omega)
      simp only [if_pos hlt, hanswer, ok_bind]
      cases answer with
      | true => exact ih htest
      | false => exact ih fun m hm => htest m (by omega)
    · rw [if_neg hlt]
      exact ⟨low, rfl⟩

/-- The search finds the greatest accepted number. -/
theorem searchLast_greatest {accepted : ℕ → Prop}
    (htest : ∀ m answer, test m = .ok answer → (answer = true ↔ accepted m))
    (hdown : ∀ a b, a ≤ b → accepted b → accepted a) {fuel low high found : ℕ}
    (hfuel : high - low ≤ fuel) (hle : low ≤ high) (hlow : accepted low)
    (h : searchLast test fuel low high = .ok found) :
    found ≤ high ∧ accepted found ∧ ∀ m, found < m → m ≤ high → ¬accepted m := by
  induction fuel generalizing low high with
  | zero =>
    obtain rfl := Except.ok.inj h
    exact ⟨hle, hlow, fun m hm hhigh => absurd hm (by omega)⟩
  | succ fuel ih =>
    rw [searchLast] at h
    by_cases hlt : low < high
    · rw [if_pos hlt] at h
      simp only [bind_eq_ok] at h
      obtain ⟨answer, hanswer, hrest⟩ := h
      cases answer with
      | true =>
        have hmid := (htest _ _ hanswer).mp rfl
        exact ih (by omega) (by omega) hmid hrest
      | false =>
        have hmid : ¬accepted (low + (high - low + 1) / 2) := fun hacc =>
          absurd ((htest _ _ hanswer).mpr hacc) (by simp)
        obtain ⟨hfound, haccepted, hrejected⟩ := ih (by omega) (by omega) hlow hrest
        refine ⟨by omega, haccepted, fun m hm hhigh hacc => ?_⟩
        -- above the middle the test fails because it fails in the middle
        rcases lt_or_ge m (low + (high - low + 1) / 2) with hlt' | hge
        · exact hrejected m hm (by omega) hacc
        · exact hmid (hdown _ _ hge hacc)
    · rw [if_neg hlt] at h
      obtain rfl := Except.ok.inj h
      exact ⟨hle, hlow, fun m hm hhigh => absurd hm (by omega)⟩

end PulseDag
