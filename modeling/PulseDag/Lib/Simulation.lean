import PulseDag.Lib.Except

/-!
# Simulation of fallible computations

Two fallible computations agree under a relation if both fail or both succeed with related
results. Agreement passes through sequencing and through loops, where the relation may depend
on the items that are still to come.
-/

namespace PulseDag

universe u v

variable {ε ε' : Type u} {α β γ δ : Type v} {R : α → β → Prop} {S : γ → δ → Prop}

/-- Both computations fail, or both succeed with related results. -/
def Agree (R : α → β → Prop) : Except ε α → Except ε' β → Prop
  | .ok a, .ok b => R a b
  | .error _, .error _ => True
  | _, _ => False

/-- Two successes with related values. -/
theorem agree_ok {a : α} {b : β} (h : R a b) : Agree R (.ok a : Except ε α) (.ok b : Except ε' β) :=
  h

/-- Two failures, whatever the errors. -/
theorem agree_error (e : ε) (e' : ε') : Agree R (.error e : Except ε α) (.error e' : Except ε' β) :=
  trivial

variable {x : Except ε α}

/-- The same computation on both sides. -/
theorem agree_self {R : α → α → Prop} (h : ∀ a, x = .ok a → R a a) : Agree R x x := by
  cases x with
  | error e => exact agree_error e e
  | ok a => exact agree_ok (h a rfl)

variable {y : Except ε' β}

/-- A weaker relation. -/
theorem Agree.mono {R' : α → β → Prop} (h : Agree R x y) (hmono : ∀ a b, R a b → R' a b) :
    Agree R' x y := by
  cases x with
  | error e =>
    cases y with
    | error e' => exact agree_error e e'
    | ok b => exact h.elim
  | ok a =>
    cases y with
    | error e' => exact h.elim
    | ok b => exact hmono a b h

variable {f : α → Except ε γ}

/-- Sequences of related steps. -/
theorem Agree.bind {g : β → Except ε' δ} (h : Agree R x y)
    (hfg : ∀ a b, x = .ok a → y = .ok b → R a b → Agree S (f a) (g b)) :
    Agree S (x >>= f) (y >>= g) := by
  cases x with
  | error e =>
    cases y with
    | error e' => exact agree_error e e'
    | ok b => exact h.elim
  | ok a =>
    cases y with
    | error e' => exact h.elim
    | ok b => exact hfg a b rfl rfl h

/-- One side takes further steps that succeed. -/
theorem Agree.bind_left {S : γ → β → Prop} (h : Agree R x y)
    (hf : ∀ a b, R a b → ∃ c, f a = .ok c ∧ S c b) : Agree S (x >>= f) y := by
  cases x with
  | error e =>
    cases y with
    | error e' => exact agree_error e e'
    | ok b => exact h.elim
  | ok a =>
    cases y with
    | error e' => exact h.elim
    | ok b =>
      obtain ⟨c, hc, hS⟩ := hf a b h
      rw [ok_bind, hc]
      exact agree_ok hS

/-- A success on the left has one on the right. -/
theorem Agree.ok_left (h : Agree R x y) {a : α} (hx : x = .ok a) : ∃ b, y = .ok b ∧ R a b := by
  subst hx
  cases y with
  | error e' => exact h.elim
  | ok b => exact ⟨b, rfl, h⟩

/-- A success on the right has one on the left. -/
theorem Agree.ok_right (h : Agree R x y) {b : β} (hy : y = .ok b) : ∃ a, x = .ok a ∧ R a b := by
  subst hy
  cases x with
  | error e => exact h.elim
  | ok a => exact ⟨a, rfl, h⟩

/-- When the relation is kept by a view, the views of the results are equal. -/
theorem Agree.toOption_map_eq {κ : Type v} (h : Agree R x y) {view : α → κ} {view' : β → κ}
    (hview : ∀ a b, R a b → view a = view' b) : x.toOption.map view = y.toOption.map view' := by
  cases x with
  | error e =>
    cases y with
    | error e' => rfl
    | ok b => exact h.elim
  | ok a =>
    cases y with
    | error e' => exact h.elim
    | ok b => exact congrArg some (hview a b h)

/-- Loops over the same items agree when their steps do. -/
theorem agree_foldlM {ι : Type v} {f : α → ι → Except ε α} {g : β → ι → Except ε' β}
    {R : List ι → α → β → Prop}
    (hstep : ∀ i rest a b, R (i :: rest) a b → Agree (R rest) (f a i) (g b i)) {l : List ι} {a : α}
    {b : β} (h : R l a b) : Agree (R []) (l.foldlM f a) (l.foldlM g b) := by
  induction l generalizing a b with
  | nil => exact h
  | cons i rest ih =>
    rw [List.foldlM_cons, List.foldlM_cons]
    exact (hstep i rest a b h).bind fun a' b' _ _ h' => ih h'

end PulseDag
