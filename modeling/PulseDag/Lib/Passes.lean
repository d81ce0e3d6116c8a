import Mathlib

/-!
# Admission in passes

Items are judged one after another against those admitted before them. An item is admitted, dropped,
or deferred to the next pass, and a pass that admits nothing is the last one. Each admitted item was
acceptable after the ones admitted before it (`Admitted`). If a collection admitted once has the
property that none of its items is ever dropped for want of others, and an item is accepted once its
predecessors are there, then a second run admits all of it, in whatever order it is offered.
-/

namespace PulseDag

open List

variable {α β : Type}

/-- What becomes of an item. -/
inductive Verdict where
  | accept
  | defer
  | drop
  deriving DecidableEq

/-- The variables of the loop. -/
structure Admission (α : Type) where
  accepted : List α := []
  dropped : List α := []
  deferred : List α := []
  progressed : Bool := false

/-- Judge one item. -/
def Admission.step (judge : List α → α → Verdict) (loop : Admission α) (a : α) : Admission α :=
  match judge loop.accepted a with
  | .accept => { loop with accepted := loop.accepted ++ [a], progressed := true }
  | .defer => { loop with deferred := loop.deferred ++ [a] }
  | .drop => { loop with dropped := loop.dropped ++ [a] }

/-- One pass over the pending items. -/
def Admission.pass (judge : List α → α → Verdict) (loop : Admission α) (pending : List α) :
    Admission α :=
  pending.foldl (Admission.step judge) { loop with deferred := [], progressed := false }

/-- All passes. The number of pending items is enough fuel (`admitAll_fuel`). -/
def admitAll (judge : List α → α → Verdict) : ℕ → List α → Admission α → Admission α
  | _, [], loop => loop
  | 0, pending, loop => { loop with dropped := loop.dropped ++ pending }
  | fuel + 1, pending, loop =>
    let pass := loop.pass judge pending
    if pass.progressed then admitAll judge fuel pass.deferred pass
    else { pass with dropped := pass.dropped ++ pass.deferred }

variable {judge : List α → α → Verdict}

/-- One pass, and the next ones if it has made progress. -/
theorem admitAll_cons (fuel : ℕ) (a : α) (rest : List α) (loop : Admission α) :
    admitAll judge (fuel + 1) (a :: rest) loop =
      if (loop.pass judge (a :: rest)).progressed then
        admitAll judge fuel (loop.pass judge (a :: rest)).deferred (loop.pass judge (a :: rest))
      else { loop.pass judge (a :: rest) with
        dropped := (loop.pass judge (a :: rest)).dropped ++
          (loop.pass judge (a :: rest)).deferred } :=
  rfl

/-! ## The passes end -/

variable {loop : Admission α} {pending : List α} {fuel : ℕ}

/-- Progress is not undone within a pass. -/
theorem foldl_step_progressed (h : loop.progressed = true) :
    (pending.foldl (Admission.step judge) loop).progressed = true := by
  induction pending generalizing loop with
  | nil => exact h
  | cons a rest ih =>
    refine ih ?_
    rw [Admission.step]
    split
    · rfl
    · exact h
    · exact h

/-- A pass with progress defers fewer items. -/
theorem length_deferred_foldl_step (pending : List α) (loop : Admission α) :
    (pending.foldl (Admission.step judge) loop).deferred.length ≤
      loop.deferred.length + pending.length ∧
    (loop.progressed = false → (pending.foldl (Admission.step judge) loop).progressed = true →
      (pending.foldl (Admission.step judge) loop).deferred.length <
        loop.deferred.length + pending.length) := by
  induction pending generalizing loop with
  | nil => exact ⟨le_rfl, fun h h' => absurd h' (by simp [h])⟩
  | cons a rest ih =>
    obtain ⟨hle, hlt⟩ := ih (loop.step judge a)
    rw [foldl_cons, length_cons]
    cases hjudge : judge loop.accepted a with
    | accept =>
      simp only [Admission.step, hjudge] at hle ⊢
      exact ⟨by omega, fun _ _ => by omega⟩
    | defer =>
      simp only [Admission.step, hjudge, length_append, length_singleton] at hle hlt ⊢
      exact ⟨by omega, fun h h' => by have := hlt h h'; omega⟩
    | drop =>
      simp only [Admission.step, hjudge] at hle ⊢
      exact ⟨by omega, fun _ _ => by omega⟩

/-- A pass that admits something defers fewer items than it was given. -/
theorem length_deferred_pass (h : (loop.pass judge pending).progressed = true) :
    (loop.pass judge pending).deferred.length < pending.length := by
  have hlt : (loop.pass judge pending).deferred.length < ([] : List α).length + pending.length :=
    (length_deferred_foldl_step pending { loop with deferred := [], progressed := false }).2 rfl h
  rwa [length_nil, Nat.zero_add] at hlt

/-- More fuel than items changes nothing. -/
theorem admitAll_fuel (h : pending.length ≤ fuel) (more : ℕ) :
    admitAll judge (fuel + more) pending loop = admitAll judge fuel pending loop := by
  induction fuel generalizing pending loop with
  | zero =>
    obtain rfl := length_eq_zero_iff.mp (Nat.le_zero.mp h)
    rw [admitAll, admitAll]
  | succ fuel ih =>
    cases pending with
    | nil => rw [admitAll, admitAll]
    | cons a rest =>
      rw [Nat.succ_add, admitAll_cons, admitAll_cons]
      by_cases hprogressed : (loop.pass judge (a :: rest)).progressed = true
      · have hlt := length_deferred_pass hprogressed
        rw [if_pos hprogressed, if_pos hprogressed]
        exact ih (by omega)
      · rw [if_neg hprogressed, if_neg hprogressed]

/-! ## What is admitted -/

/-- A list in which every item was acceptable after the ones before it. -/
inductive Admitted (judge : List α → α → Verdict) : List α → Prop
  | nil : Admitted judge []
  | snoc {l : List α} {a : α} : Admitted judge l → judge l a = .accept → Admitted judge (l ++ [a])

/-- What a pass keeps. -/
theorem foldl_step_admitted {S : α → Prop} (hpending : ∀ a ∈ pending, S a)
    (hdeferred : ∀ a ∈ loop.deferred, S a) (haccepted : ∀ a ∈ loop.accepted, S a)
    (hadmitted : Admitted judge loop.accepted) :
    let next := pending.foldl (Admission.step judge) loop
    (∀ a ∈ next.deferred, S a) ∧ (∀ a ∈ next.accepted, S a) ∧ Admitted judge next.accepted := by
  induction pending generalizing loop with
  | nil => exact ⟨hdeferred, haccepted, hadmitted⟩
  | cons a rest ih =>
    obtain ⟨ha, hrest⟩ := forall_mem_cons.mp hpending
    rw [foldl_cons]
    cases hjudge : judge loop.accepted a with
    | accept =>
      simp only [Admission.step, hjudge]
      refine ih hrest hdeferred ?_ (hadmitted.snoc hjudge)
      exact forall_mem_append.mpr ⟨haccepted, forall_mem_singleton.mpr ha⟩
    | defer =>
      simp only [Admission.step, hjudge]
      refine ih hrest ?_ haccepted hadmitted
      exact forall_mem_append.mpr ⟨hdeferred, forall_mem_singleton.mpr ha⟩
    | drop =>
      simp only [Admission.step, hjudge]
      exact ih hrest hdeferred haccepted hadmitted

/-- A run admits some of the pending items, each one acceptable after those before it. -/
theorem admitAll_admitted {S : α → Prop} (hpending : ∀ a ∈ pending, S a)
    (haccepted : ∀ a ∈ loop.accepted, S a) (hadmitted : Admitted judge loop.accepted) :
    (∀ a ∈ (admitAll judge fuel pending loop).accepted, S a) ∧
      Admitted judge (admitAll judge fuel pending loop).accepted := by
  induction fuel generalizing pending loop with
  | zero =>
    cases pending with
    | nil => exact ⟨haccepted, hadmitted⟩
    | cons a rest => exact ⟨haccepted, hadmitted⟩
  | succ fuel ih =>
    cases pending with
    | nil => exact ⟨haccepted, hadmitted⟩
    | cons a rest =>
      have hnone : ∀ b ∈ ({ loop with deferred := [], progressed := false } : Admission α).deferred,
          S b := by
        simp
      obtain ⟨hdeferred, hmore, hpass⟩ := foldl_step_admitted hpending hnone haccepted hadmitted
      rw [admitAll_cons]
      split
      · exact ih hdeferred hmore hpass
      · exact ⟨hmore, hpass⟩

/-! ## A second run -/

/-- A collection that can be admitted in any order: an item is never dropped while others are
missing, and it is accepted once those before it are there. -/
structure Readmissible (judge : List α → α → Verdict) (K : List α) : Prop where
  nodup : K.Nodup
  not_drop : ∀ D a, D ⊆ K → D.Nodup → a ∈ K → a ∉ D → judge D a ≠ .drop
  accept : ∀ D earlier a later, K = earlier ++ a :: later → D ⊆ K → D.Nodup → a ∉ D →
    earlier ⊆ D → judge D a = .accept

namespace Readmissible

variable {K : List α}

/-- Within a pass no item of the collection is lost. -/
theorem foldl_step (h : Readmissible judge K) {rest : List α} (hdropped : loop.dropped = [])
    (hperm : (loop.accepted ++ loop.deferred ++ rest).Perm K) :
    let next := rest.foldl (Admission.step judge) loop
    next.dropped = [] ∧ (next.accepted ++ next.deferred).Perm K := by
  induction rest generalizing loop with
  | nil => exact ⟨hdropped, by simpa using hperm⟩
  | cons a rest ih =>
    have hnodup := hperm.nodup_iff.mpr h.nodup
    have hsub : loop.accepted ⊆ K := fun x hx => hperm.subset (by simp [hx])
    have hfresh : a ∉ loop.accepted := fun hmem => by
      have hdisjoint := disjoint_of_nodup_append hnodup
      exact hdisjoint (mem_append_left _ hmem) mem_cons_self
    have hjudge := h.not_drop loop.accepted a hsub
      (List.Nodup.of_append_left (List.Nodup.of_append_left hnodup)) (hperm.subset (by simp)) hfresh
    rw [foldl_cons]
    cases hverdict : judge loop.accepted a with
    | accept =>
      simp only [Admission.step, hverdict]
      refine ih hdropped (List.Perm.trans ?_ hperm)
      simp only [append_assoc, singleton_append]
      exact perm_middle.symm.append_left loop.accepted
    | defer =>
      simp only [Admission.step, hverdict]
      refine ih hdropped (List.Perm.trans (.of_eq ?_) hperm)
      simp
    | drop => exact absurd hverdict hjudge

/-- An item whose predecessors are there is admitted when its turn comes. -/
theorem foldl_step_progressed (h : Readmissible judge K) {rest : List α} {earlier later : List α}
    {a : α} (hK : K = earlier ++ a :: later) (hearlier : earlier ⊆ loop.accepted) (ha : a ∈ rest)
    (hperm : (loop.accepted ++ loop.deferred ++ rest).Perm K) :
    (rest.foldl (Admission.step judge) loop).progressed = true := by
  induction rest generalizing loop with
  | nil => cases ha
  | cons b rest ih =>
    have hnodup := hperm.nodup_iff.mpr h.nodup
    have hsub : loop.accepted ⊆ K := fun x hx => hperm.subset (by simp [hx])
    have haccepted := List.Nodup.of_append_left (List.Nodup.of_append_left hnodup)
    have hfresh : ∀ x ∈ b :: rest, x ∉ loop.accepted := fun x hx hmem =>
      disjoint_of_nodup_append hnodup (mem_append_left _ hmem) hx
    have hbK : b ∈ K := hperm.subset (by simp)
    rw [foldl_cons]
    by_cases hab : b = a
    · subst hab
      have haccept := h.accept loop.accepted earlier b later hK hsub haccepted
        (hfresh b mem_cons_self) hearlier
      refine PulseDag.foldl_step_progressed ?_
      simp only [Admission.step, haccept]
    · have hrest : a ∈ rest := (mem_cons.mp ha).resolve_left fun heq => hab heq.symm
      cases hverdict : judge loop.accepted b with
      | accept =>
        simp only [Admission.step, hverdict]
        exact PulseDag.foldl_step_progressed rfl
      | defer =>
        simp only [Admission.step, hverdict]
        refine ih hearlier hrest (List.Perm.trans (.of_eq ?_) hperm)
        simp
      | drop =>
        exact absurd hverdict (h.not_drop _ _ hsub haccepted hbK (hfresh b mem_cons_self))

/-- The first item that is still missing makes a pass progress. -/
theorem pass_progressed (h : Readmissible judge K) (hne : pending ≠ [])
    (hperm : (loop.accepted ++ pending).Perm K) : (loop.pass judge pending).progressed = true := by
  classical
  obtain ⟨x, hx⟩ := exists_mem_of_ne_nil _ hne
  have hdisjoint := disjoint_of_nodup_append (hperm.nodup_iff.mpr h.nodup)
  have hfound : (K.find? fun a => decide (a ∉ loop.accepted)).isSome := by
    rw [find?_isSome]
    exact ⟨x, hperm.subset (mem_append_right _ hx),
      by simpa using fun hmem => hdisjoint hmem hx⟩
  obtain ⟨a, hfind⟩ := Option.isSome_iff_exists.mp hfound
  obtain ⟨hmissing, earlier, later, hK, hearlier⟩ := find?_eq_some_iff_append.mp hfind
  have ha : a ∈ pending := by
    have hmem := hperm.symm.subset (hK ▸ (by simp : a ∈ earlier ++ a :: later))
    exact (mem_append.mp hmem).resolve_left (by simpa using hmissing)
  refine h.foldl_step_progressed hK (fun y hy => ?_) ha (by simpa using hperm)
  simpa using hearlier y hy

/-- A run over the collection in any order admits all of it. -/
theorem admitAll_perm (h : Readmissible judge K) (hfuel : pending.length ≤ fuel)
    (hdropped : loop.dropped = []) (hperm : (loop.accepted ++ pending).Perm K) :
    (admitAll judge fuel pending loop).dropped = [] ∧
      (admitAll judge fuel pending loop).accepted.Perm K := by
  induction fuel generalizing pending loop with
  | zero =>
    obtain rfl := length_eq_zero_iff.mp (Nat.le_zero.mp hfuel)
    rw [admitAll]
    exact ⟨hdropped, by simpa using hperm⟩
  | succ fuel ih =>
    cases pending with
    | nil =>
      rw [admitAll]
      exact ⟨hdropped, by simpa using hperm⟩
    | cons a rest =>
      have hprogressed := h.pass_progressed (cons_ne_nil a rest) hperm
      have hlt := length_deferred_pass hprogressed
      let start : Admission α := { loop with deferred := [], progressed := false }
      have hstart : (start.accepted ++ start.deferred ++ a :: rest).Perm K := by
        simpa [start] using hperm
      have hkept : start.dropped = [] := hdropped
      obtain ⟨hnone, hall⟩ := h.foldl_step hkept hstart
      rw [admitAll_cons, if_pos hprogressed]
      rw [length_cons] at hfuel hlt
      exact ih (by omega) hnone hall

end Readmissible

/-! ## Ties -/

/-- Folds over two sorted arrangements of the same items agree, if items that are tied may be
exchanged. -/
theorem foldl_eq_of_sorted_perm {r : α → α → Prop} {f : β → α → β} {l l' : List α} (s : β)
    (hl : l.Pairwise r) (hl' : l'.Pairwise r) (hperm : l.Perm l')
    (hties : ∀ a ∈ l, ∀ b ∈ l, r a b → r b a → ∀ s, f (f s a) b = f (f s b) a) :
    l.foldl f s = l'.foldl f s := by
  induction l generalizing l' s with
  | nil => rw [hperm.nil_eq]
  | cons a l ih =>
    obtain ⟨before, after, rfl⟩ := append_of_mem (hperm.subset mem_cons_self)
    have hrest : l.Perm (before ++ after) :=
      (perm_cons a).mp (hperm.trans perm_middle)
    obtain ⟨hhead, htail⟩ := pairwise_cons.mp hl
    have hsub : (before ++ after).Sublist (before ++ a :: after) :=
      (List.Sublist.refl before).append (sublist_cons_self a after)
    -- what stands before `a` on the right is tied with it
    have hmove : ∀ s, before.foldl f (f s a) = f (before.foldl f s) a := by
      have htied : ∀ b ∈ before, b ∈ l ∧ r a b ∧ r b a := fun b hb => by
        have hmem : b ∈ l := hrest.symm.subset (mem_append_left _ hb)
        exact ⟨hmem, hhead b hmem, (pairwise_append.mp hl').2.2 b hb a mem_cons_self⟩
      clear hl' hperm hrest hsub ih
      induction before with
      | nil => exact fun s => rfl
      | cons b before ihb =>
        intro s
        obtain ⟨hb, hbefore⟩ := forall_mem_cons.mp htied
        rw [foldl_cons, foldl_cons, hties a mem_cons_self b
          (mem_cons_of_mem _ hb.1) hb.2.1 hb.2.2 s, ihb hbefore]
    rw [foldl_cons, ih (f s a) htail (hl'.sublist hsub) hrest fun b hb c hc =>
      hties b (mem_cons_of_mem _ hb) c (mem_cons_of_mem _ hc)]
    rw [foldl_append, hmove, foldl_append, foldl_cons]

end PulseDag
