import Mathlib

/-!
# Fallible computations

Sequential code with early returns is written in the `Except` monad. A check is a
call of `ensure`, a lookup that must succeed is a call of `okOr`, `Result::map_err` is
`Except.mapError`, and the lemmas below take a successful computation apart into its
successful steps.
-/

namespace PulseDag

open List

universe u v

variable {ε ε' : Type u} {α β : Type v}

/-- Continue when the condition holds and fail with the given error otherwise. -/
def ensure (condition : Prop) [Decidable condition] (error : ε) : Except ε Unit :=
  if condition then .ok () else .error error

/-- `Option::ok_or`: turn a missing value into an error. -/
def okOr (value : Option α) (error : ε) : Except ε α :=
  match value with
  | some a => .ok a
  | none => .error error

variable {f : α → Except ε β} {x : Except ε α} {condition : Prop}

/-- A sequence succeeds exactly when both steps do. -/
theorem bind_eq_ok {b : β} : (x >>= f) = .ok b ↔ ∃ a, x = .ok a ∧ f a = .ok b := by
  cases x with
  | error e => simp [bind, Except.bind]
  | ok a => simp [bind, Except.bind]

/-- After a success the next step runs. -/
@[simp] theorem ok_bind (a : α) (f : α → Except ε β) : ((.ok a : Except ε α) >>= f) = f a := rfl

/-- An error ends a sequence. -/
@[simp] theorem error_bind (e : ε) (f : α → Except ε β) :
    ((.error e : Except ε α) >>= f) = .error e := rfl

/-- Returning a value succeeds. -/
@[simp] theorem pure_eq_ok (a : α) : (pure a : Except ε α) = .ok a := rfl

variable {error : ε}

/-- A check succeeds exactly when its condition holds. -/
@[simp] theorem ensure_eq_ok [Decidable condition] {u : Unit} :
    ensure condition error = .ok u ↔ condition := by
  unfold ensure
  split <;> simp_all

/-- A check whose condition holds succeeds. -/
theorem ensure_pos [Decidable condition] (h : condition) :
    ensure condition error = .ok () := if_pos h

/-- A check whose condition fails returns its error. -/
theorem ensure_neg [Decidable condition] (h : ¬condition) :
    ensure condition error = .error error := if_neg h

variable {a : α} {value : Option α}

/-- A lookup succeeds exactly when the value is there. -/
@[simp] theorem okOr_eq_ok : okOr value error = .ok a ↔ value = some a := by
  cases value <;> simp [okOr]

/-- A value that is there is returned. -/
@[simp] theorem okOr_some (a : α) (error : ε) : okOr (some a) error = .ok a := rfl

/-- A missing value is an error. -/
@[simp] theorem okOr_none (error : ε) : okOr (none : Option α) error = .error error := rfl

/-- Replacing errors does not touch a success. -/
@[simp] theorem mapError_eq_ok {f : ε → ε'} : Except.mapError f x = .ok a ↔ x = .ok a := by
  cases x <;> simp [Except.mapError]

/-- What it says that each kind of step succeeds, as one set of rewrite rules. -/
theorem ok_iff :
    (∀ {ε : Type u} {α β : Type v} {x : Except ε α} {f : α → Except ε β} {b : β},
      (x >>= f) = .ok b ↔ ∃ a, x = .ok a ∧ f a = .ok b) ∧
    (∀ {ε : Type u} {α : Type v} (a : α), (pure a : Except ε α) = .ok a) ∧
    (∀ {ε : Type u} {condition : Prop} [Decidable condition] {error : ε} {u : Unit},
      ensure condition error = .ok u ↔ condition) ∧
    (∀ {ε : Type u} {α : Type v} {value : Option α} {error : ε} {a : α},
      okOr value error = .ok a ↔ value = some a) ∧
    (∀ {ε ε' : Type u} {α : Type v} {f : ε → ε'} {x : Except ε α} {a : α},
      x.mapError f = .ok a ↔ x = .ok a) ∧
    ∀ {ε : Type u} {α : Type v} {a b : α}, (.ok a : Except ε α) = .ok b ↔ a = b :=
  ⟨bind_eq_ok, pure_eq_ok, ensure_eq_ok, okOr_eq_ok, mapError_eq_ok,
    Except.ok.inj, congrArg _⟩

/-- A computation with a value has succeeded with it. -/
theorem eq_ok_of_toOption (h : x.toOption = some a) : x = .ok a := by
  cases x with
  | error e => simp [Except.toOption] at h
  | ok b => simpa [Except.toOption] using h

variable {check : α → Except ε PUnit} {l : List α}

/-- A loop of checks succeeds exactly when every check does. -/
theorem forM_eq_ok {u : PUnit} : l.forM check = .ok u ↔ ∀ x ∈ l, check x = .ok ⟨⟩ := by
  induction l with
  | nil => simp [forM_eq_forM]
  | cons x rest ih =>
    rw [forM_eq_forM, forM_cons, bind_eq_ok, forall_mem_cons]
    rw [forM_eq_forM] at ih
    constructor
    · rintro ⟨_, hx, hrest⟩
      exact ⟨hx, ih.mp hrest⟩
    · rintro ⟨hx, hrest⟩
      exact ⟨⟨⟩, hx, ih.mpr hrest⟩

/-- Loops of checks that agree on the list agree. -/
theorem forM_congr {check' : α → Except ε PUnit} (h : ∀ x ∈ l, check x = check' x) :
    l.forM check = l.forM check' := by
  induction l with
  | nil => rfl
  | cons x rest ih =>
    rw [forM_eq_forM] at ih
    rw [forM_eq_forM, forM_cons, forM_cons, h x mem_cons_self,
      ih fun y hy => h y (mem_cons_of_mem _ hy)]

/-- A loop of checks succeeds when every check does. -/
theorem forM_ensure_ok {P : α → Prop} [DecidablePred P] {error : α → ε} (h : ∀ x ∈ l, P x) :
    (l.forM fun x => ensure (P x) (error x)) = .ok ⟨⟩ := by
  induction l with
  | nil => rfl
  | cons x rest ih =>
    rw [forM_eq_forM, forM_cons, ensure_pos (h x mem_cons_self)]
    exact ih fun y hy => h y (mem_cons_of_mem _ hy)

/-- A loop of checks fails with the error of a failing check. -/
theorem forM_ensure_error {l : List α} {P : α → Prop} [DecidablePred P] {error : α → ε}
    (h : ∃ x ∈ l, ¬P x) :
    ∃ x ∈ l, ¬P x ∧ (l.forM fun x => ensure (P x) (error x)) = .error (error x) := by
  induction l with
  | nil => simp at h
  | cons y rest ih =>
    by_cases hy : P y
    · obtain ⟨x, hx, hnot⟩ := h
      obtain ⟨z, hz, hnotz, hrun⟩ := ih
        ⟨x, (mem_cons.mp hx).resolve_left fun heq => hnot (heq ▸ hy), hnot⟩
      refine ⟨z, mem_cons_of_mem _ hz, hnotz, ?_⟩
      rw [forM_eq_forM, forM_cons, ensure_pos hy]
      exact hrun
    · refine ⟨y, mem_cons_self, hy, ?_⟩
      rw [forM_eq_forM, forM_cons, ensure_neg hy]
      rfl

/-! ## Errors -/

/-- Every error of the computation has the property. -/
def FailsWith (P : ε → Prop) (x : Except ε α) : Prop := ∀ e, x = .error e → P e

section

variable {P : ε → Prop}

/-- A success has no error. -/
theorem failsWith_ok (a : α) : FailsWith P (.ok a : Except ε α) := fun _ h => by cases h

/-- A single error. -/
theorem failsWith_error {e : ε} (h : P e) : FailsWith P (.error e : Except ε α) := by
  intro e' heq
  exact Except.error.inj heq ▸ h

/-- The errors of a sequence are those of its steps. -/
theorem FailsWith.bind (hx : FailsWith P x) (hf : ∀ a, x = .ok a → FailsWith P (f a)) :
    FailsWith P (x >>= f) := by
  cases x with
  | error e => exact failsWith_error (hx e rfl)
  | ok a => exact hf a rfl

/-- The only error of a check. -/
theorem failsWith_ensure [Decidable condition] (h : P error) :
    FailsWith P (ensure condition error) := by
  unfold ensure
  split
  · exact failsWith_ok ()
  · exact failsWith_error h

/-- The only error of a lookup. -/
theorem failsWith_okOr (h : P error) : FailsWith P (okOr value error) := by
  cases value with
  | none => exact failsWith_error h
  | some a => exact failsWith_ok a

/-- Errors that are all replaced. -/
theorem failsWith_mapError {f : ε' → ε} {x : Except ε' α} (h : ∀ e, P (f e)) :
    FailsWith P (Except.mapError f x) := by
  cases x with
  | error e => exact failsWith_error (h e)
  | ok a => exact failsWith_ok a

/-- The errors of a loop over a list. -/
theorem failsWith_mapM (h : ∀ a ∈ l, FailsWith P (f a)) : FailsWith P (l.mapM f) := by
  induction l with
  | nil => exact failsWith_ok _
  | cons a rest ih =>
    obtain ⟨ha, hrest⟩ := forall_mem_cons.mp h
    rw [mapM_cons]
    exact ha.bind fun _ _ => (ih hrest).bind fun _ _ => failsWith_ok _

/-- The errors of a loop of checks are errors of its checks. -/
theorem failsWith_forM (h : ∀ a ∈ l, FailsWith P (check a)) : FailsWith P (l.forM check) := by
  induction l with
  | nil => exact failsWith_ok _
  | cons a rest ih =>
    obtain ⟨ha, hrest⟩ := forall_mem_cons.mp h
    rw [forM_eq_forM, forM_cons]
    exact ha.bind fun _ _ => ih hrest

/-- The errors of a loop are errors of its steps from the states that it reaches. -/
theorem failsWith_foldlM {σ : Type v} {step : σ → α → Except ε σ} {I : σ → Prop} {state : σ}
    (hstep : ∀ s a, a ∈ l → I s → FailsWith P (step s a))
    (hkeep : ∀ s a s', a ∈ l → I s → step s a = .ok s' → I s') (hstate : I state) :
    FailsWith P (l.foldlM step state) := by
  induction l generalizing state with
  | nil => exact failsWith_ok _
  | cons a rest ih =>
    rw [foldlM_cons]
    refine (hstep state a mem_cons_self hstate).bind fun next hnext => ?_
    exact ih (fun s b hb => hstep s b (mem_cons_of_mem _ hb))
      (fun s b s' hb => hkeep s b s' (mem_cons_of_mem _ hb))
      (hkeep state a next mem_cons_self hstate hnext)

end

/-! ## Loops that change a state in place -/

section

variable {ε σ α : Type}

/-- A loop that updates a state until a step fails. The error comes with the state that the
steps before it left behind. -/
def foldUntil (step : σ → α → Except ε σ) : List α → σ → Except (ε × σ) σ
  | [], state => .ok state
  | a :: rest, state =>
    match step state a with
    | .ok next => foldUntil step rest next
    | .error error => .error (error, state)

/-- Without the state left behind, such a loop is a fold. -/
theorem mapError_foldUntil (step : σ → α → Except ε σ) (l : List α) (state : σ) :
    Except.mapError Prod.fst (foldUntil step l state) = l.foldlM step state := by
  induction l generalizing state with
  | nil => rfl
  | cons a rest ih =>
    rw [foldlM_cons]
    cases hstep : step state a with
    | error error => simp [foldUntil, hstep, Except.mapError]
    | ok next => simpa [foldUntil, hstep] using ih next

variable {state final : σ} {step : σ → α → Except ε σ} {a : α} {l : List α}

/-- Without an error the two loops agree. -/
theorem foldUntil_eq_ok {next : σ} :
    foldUntil step l state = .ok next ↔ l.foldlM step state = .ok next := by
  rw [← mapError_foldUntil, mapError_eq_ok]

/-- What every successful step of a loop preserves holds when the loop is done. -/
theorem foldlM_induction {P : σ → Prop} (hstep : ∀ s a s', a ∈ l → P s → step s a = .ok s' → P s')
    (hstart : P state) (h : l.foldlM step state = .ok final) : P final := by
  induction l generalizing state with
  | nil =>
    obtain rfl := Except.ok.inj h
    exact hstart
  | cons a rest ih =>
    rw [foldlM_cons, bind_eq_ok] at h
    obtain ⟨next, hnext, hrest⟩ := h
    refine ih (fun s b s' hb => hstep s b s' (mem_cons_of_mem _ hb)) ?_ hrest
    exact hstep state a next mem_cons_self hstart hnext

/-- In a successful loop the step has succeeded for every item. -/
theorem foldlM_mem_ok (h : l.foldlM step state = .ok final) (ha : a ∈ l) :
    ∃ s s', step s a = .ok s' := by
  induction l generalizing state with
  | nil => cases ha
  | cons b rest ih =>
    rw [foldlM_cons, bind_eq_ok] at h
    obtain ⟨next, hnext, hrest⟩ := h
    rcases mem_cons.mp ha with rfl | ha
    · exact ⟨state, next, hnext⟩
    · exact ih hrest ha

/-- A successful loop stays as it is under a step that succeeds more often. -/
theorem foldlM_mono {step' : σ → α → Except ε σ}
    (hmono : ∀ s a s', step s a = .ok s' → step' s a = .ok s')
    (h : l.foldlM step state = .ok final) : l.foldlM step' state = .ok final := by
  induction l generalizing state with
  | nil => exact h
  | cons a rest ih =>
    rw [foldlM_cons, bind_eq_ok] at h ⊢
    obtain ⟨next, hnext, hrest⟩ := h
    exact ⟨next, hmono state a next hnext, ih hrest⟩

/-- What every step preserves, for a loop over a numbered list: the property may depend on the
number. -/
theorem foldlM_zipIdx_induction {step : σ → α × ℕ → Except ε σ} {P : ℕ → σ → Prop} {start : ℕ}
    (hstep : ∀ s a i s', (a, i) ∈ l.zipIdx start → P i s → step s (a, i) = .ok s' → P (i + 1) s')
    (hstart : P start state) (h : (l.zipIdx start).foldlM step state = .ok final) :
    P (start + l.length) final := by
  induction l generalizing state start with
  | nil =>
    obtain rfl := Except.ok.inj h
    exact hstart
  | cons a rest ih =>
    rw [zipIdx_cons, foldlM_cons, bind_eq_ok] at h
    obtain ⟨next, hnext, hrest⟩ := h
    rw [zipIdx_cons] at hstep
    have hnextP := hstep state a start next mem_cons_self hstart hnext
    have hfinal := ih (fun s b i s' hb => hstep s b i s' (mem_cons_of_mem _ hb)) hnextP hrest
    rwa [length_cons, Nat.add_comm rest.length, ← Nat.add_assoc]

end

end PulseDag
