import PulseDag.Lib.Collections
import PulseDag.Lib.Except

/-!
# Bounded worklist traversals

A traversal keeps a set of pending nodes and a set of seen nodes, pops the least
pending node, counts it against a visit limit and adds its unseen successors. It stops
early on a node that `stop` accepts. The successors of a node may be unknown, which is
an error.

The main results are that a traversal without an early stop computes the closure of its
start (`traverse_closed`, `traverse_sound`), and that it only looks at the closure
(`traverse_congr`).
-/

namespace PulseDag

variable {κ ε : Type} [Ord κ] [Std.TransOrd κ] [Std.LawfulEqOrd κ]

/-- Add the successors that have not been seen to the pending set. -/
def addUnseen (seen : TreeSet κ) (pending : TreeSet κ) (successors : List κ) : TreeSet κ :=
  successors.foldl (fun acc y => if y ∈ seen then acc else acc.insert y) pending

/-- The traversal loop: whether it stopped early, the seen nodes and the visit count.
Every round visits a new node as long as no pending node has been seen, so the fuel
`maxVisits - visits + 1` is never used up (`traverse_fuel`). -/
def traverse (next : κ → Option (List κ)) (stop : κ → Bool) (maxVisits : ℕ) (limit : ε)
    (missing : κ → ε) : ℕ → TreeSet κ → TreeSet κ → ℕ → Except ε (Bool × TreeSet κ × ℕ)
  | 0, _, _, _ => .error limit
  | fuel + 1, pending, seen, visits =>
    match TreeSet.first? pending with
    | none => .ok (false, seen, visits)
    | some cursor =>
      if cursor ∈ seen then
        traverse next stop maxVisits limit missing fuel (pending.erase cursor) seen visits
      else if maxVisits ≤ visits then .error limit
      else if stop cursor then .ok (true, seen.insert cursor, visits + 1)
      else
        match next cursor with
        | none => .error (missing cursor)
        | some successors =>
          traverse next stop maxVisits limit missing fuel
            (addUnseen (seen.insert cursor) (pending.erase cursor) successors)
            (seen.insert cursor) (visits + 1)

/-- `y` is a successor of `x`. -/
def Successor (next : κ → Option (List κ)) (x y : κ) : Prop :=
  ∃ successors, next x = some successors ∧ y ∈ successors

omit [Std.LawfulEqOrd κ] in
/-- Adding no successor. -/
@[simp] theorem addUnseen_nil (seen pending : TreeSet κ) : addUnseen seen pending [] = pending :=
  rfl

/-- What is pending after adding successors. -/
theorem mem_addUnseen (seen : TreeSet κ) (successors : List κ) (pending : TreeSet κ) (x : κ) :
    x ∈ addUnseen seen pending successors ↔ x ∈ pending ∨ (x ∈ successors ∧ x ∉ seen) := by
  induction successors generalizing pending with
  | nil => simp
  | cons y rest ih =>
    have hstep : addUnseen seen pending (y :: rest) =
        addUnseen seen (if y ∈ seen then pending else pending.insert y) rest := rfl
    rw [hstep, ih]
    by_cases hy : y ∈ seen
    · simp only [hy, if_true, List.mem_cons]
      constructor
      · rintro (hx | hx)
        · exact .inl hx
        · exact .inr ⟨.inr hx.1, hx.2⟩
      · rintro (hx | ⟨rfl | hx, hnot⟩)
        · exact .inl hx
        · exact absurd hy hnot
        · exact .inr ⟨hx, hnot⟩
    · simp only [hy, if_false, Std.ExtTreeSet.mem_insert, Std.compare_eq_iff_eq, List.mem_cons]
      constructor
      · rintro ((rfl | hx) | hx)
        · exact .inr ⟨.inl rfl, hy⟩
        · exact .inl hx
        · exact .inr ⟨.inr hx.1, hx.2⟩
      · rintro (hx | ⟨rfl | hx, hnot⟩)
        · exact .inl (.inr hx)
        · exact .inl (.inl rfl)
        · exact .inr ⟨hx, hnot⟩

section

variable {next : κ → Option (List κ)} {stop : κ → Bool} {maxVisits : ℕ} {limit : ε}
  {missing : κ → ε}

/-- What a traversal that did not stop early has established. -/
structure TraversalInvariant (next : κ → Option (List κ)) (pending seen : TreeSet κ) : Prop where
  /-- Successors of seen nodes are known, and are seen or pending. -/
  successors : ∀ x ∈ seen, ∃ l, next x = some l ∧ ∀ y ∈ l, y ∈ seen ∨ y ∈ pending

omit [Std.LawfulEqOrd κ] in
/-- The invariant holds at the start. -/
theorem TraversalInvariant.init (next : κ → Option (List κ)) (pending : TreeSet κ) :
    TraversalInvariant next pending ∅ := ⟨fun _ hx => absurd hx Std.ExtTreeSet.not_mem_empty⟩

variable {cursor : κ} {pending seen : TreeSet κ} {visits visits' : ℕ} {stopped : Bool}

/-- One visit keeps the invariant. -/
theorem TraversalInvariant.visit {successors : List κ}
    (hinv : TraversalInvariant next pending seen) (hnext : next cursor = some successors) :
    TraversalInvariant next
      (addUnseen (seen.insert cursor) (pending.erase cursor) successors) (seen.insert cursor) := by
  refine ⟨fun x hx => ?_⟩
  rw [Std.ExtTreeSet.mem_insert, Std.compare_eq_iff_eq] at hx
  have hplace : ∀ y, (y ∈ seen ∨ y ∈ pending) ∨ y ∈ successors → y ∈ seen.insert cursor ∨
      y ∈ addUnseen (seen.insert cursor) (pending.erase cursor) successors := by
    intro y hy
    by_cases hyc : y ∈ seen.insert cursor
    · exact .inl hyc
    · refine .inr ((mem_addUnseen _ _ _ _).mpr ?_)
      rw [Std.ExtTreeSet.mem_insert, Std.compare_eq_iff_eq, not_or] at hyc
      rcases hy with (hy | hy) | hy
      · exact absurd hy hyc.2
      · refine .inl (Std.ExtTreeSet.mem_erase.mpr ⟨?_, hy⟩)
        rw [ne_eq, Std.compare_eq_iff_eq]
        exact hyc.1
      · refine .inr ⟨hy, ?_⟩
        rw [Std.ExtTreeSet.mem_insert, Std.compare_eq_iff_eq, not_or]
        exact hyc
  rcases hx with rfl | hx
  · exact ⟨successors, hnext, fun y hy => hplace y (.inr hy)⟩
  · obtain ⟨l, hl, hmem⟩ := hinv.successors x hx
    exact ⟨l, hl, fun y hy => hplace y (.inl (hmem y hy))⟩

/-- Skipping a pending node that has been seen keeps the invariant. -/
theorem TraversalInvariant.skip (hinv : TraversalInvariant next pending seen)
    (hseen : cursor ∈ seen) : TraversalInvariant next (pending.erase cursor) seen := by
  refine ⟨fun x hx => ?_⟩
  obtain ⟨l, hl, hmem⟩ := hinv.successors x hx
  refine ⟨l, hl, fun y hy => ?_⟩
  by_cases hyc : cursor = y
  · exact .inl (hyc ▸ hseen)
  · refine (hmem y hy).imp_right fun hp => Std.ExtTreeSet.mem_erase.mpr ⟨?_, hp⟩
    rwa [ne_eq, Std.compare_eq_iff_eq]

/-- What one round of a traversal that returns can have done. -/
theorem traverse_step {fuel : ℕ} {result : Bool × TreeSet κ × ℕ}
    (hrun : traverse next stop maxVisits limit missing (fuel + 1) pending seen visits =
      .ok result) :
    (pending = ∅ ∧ result = (false, seen, visits)) ∨
    ∃ cursor ∈ pending,
      (cursor ∈ seen ∧ traverse next stop maxVisits limit missing fuel (pending.erase cursor)
        seen visits = .ok result) ∨
      (cursor ∉ seen ∧ stop cursor = true ∧ result = (true, seen.insert cursor, visits + 1)) ∨
      (cursor ∉ seen ∧ stop cursor = false ∧ ∃ successors, next cursor = some successors ∧
        traverse next stop maxVisits limit missing fuel
          (addUnseen (seen.insert cursor) (pending.erase cursor) successors)
          (seen.insert cursor) (visits + 1) = .ok result) := by
  rw [traverse] at hrun
  cases hmin : TreeSet.first? pending with
  | none =>
    rw [hmin] at hrun
    exact .inl ⟨TreeSet.first?_eq_none.mp hmin, (Except.ok.inj hrun).symm⟩
  | some cursor =>
    rw [hmin] at hrun
    refine .inr ⟨cursor, TreeSet.first?_mem hmin, ?_⟩
    by_cases hseen : cursor ∈ seen
    · exact .inl ⟨hseen, by simpa [hseen] using hrun⟩
    · by_cases hlimit : maxVisits ≤ visits
      · simp [hseen, hlimit] at hrun
      · by_cases hstop : stop cursor = true
        · refine .inr (.inl ⟨hseen, hstop, ?_⟩)
          simpa [hseen, hlimit, hstop, eq_comm] using hrun
        · rw [Bool.not_eq_true] at hstop
          refine .inr (.inr ⟨hseen, hstop, ?_⟩)
          cases hnext : next cursor with
          | none => simp [hseen, hlimit, hstop, hnext] at hrun
          | some successors =>
            exact ⟨successors, rfl, by simpa [hseen, hlimit, hstop, hnext] using hrun⟩

variable {seen' : TreeSet κ}

/-- A traversal that exhausts its pending set returns a set that holds its start and is
closed under successors, all of which are known. -/
theorem traverse_closed (fuel : ℕ) (hinv : TraversalInvariant next pending seen)
    (hrun : traverse next stop maxVisits limit missing fuel pending seen visits =
      .ok (false, seen', visits')) :
    TraversalInvariant next ∅ seen' ∧ (∀ x ∈ seen, x ∈ seen') ∧ (∀ x ∈ pending, x ∈ seen') := by
  induction fuel generalizing pending seen visits with
  | zero => simp [traverse] at hrun
  | succ fuel ih =>
    obtain ⟨rfl, hresult⟩ | ⟨cursor, hcursor, ⟨hseen, hrun⟩ | ⟨_, _, hresult⟩ |
      ⟨hseen, _, successors, hnext, hrun⟩⟩ := traverse_step hrun
    · obtain ⟨rfl, rfl⟩ : seen' = seen ∧ visits' = visits := by simpa using hresult
      exact ⟨hinv, fun _ hx => hx, fun _ hx => absurd hx Std.ExtTreeSet.not_mem_empty⟩
    · obtain ⟨hclosed, hsub, hpend⟩ := ih (hinv.skip hseen) hrun
      refine ⟨hclosed, hsub, fun x hx => ?_⟩
      by_cases hxc : cursor = x
      · exact hxc ▸ hsub cursor hseen
      · exact hpend x (Std.ExtTreeSet.mem_erase.mpr ⟨by simpa using hxc, hx⟩)
    · simp at hresult
    · obtain ⟨hclosed, hsub, hpend⟩ := ih (hinv.visit hnext) hrun
      refine ⟨hclosed, fun x hx => hsub x (Std.ExtTreeSet.mem_insert.mpr (.inr hx)),
        fun x hx => ?_⟩
      by_cases hxc : cursor = x
      · exact hsub x (Std.ExtTreeSet.mem_insert.mpr (.inl (by simpa using hxc)))
      · refine hpend x ((mem_addUnseen _ _ _ _).mpr (.inl ?_))
        exact Std.ExtTreeSet.mem_erase.mpr ⟨by simpa using hxc, hx⟩

/-- A traversal stops early exactly when it has seen a node to stop at. -/
theorem traverse_stopped_iff (fuel : ℕ) (hseen : ∀ x ∈ seen, stop x = false)
    (hrun : traverse next stop maxVisits limit missing fuel pending seen visits =
      .ok (stopped, seen', visits')) : stopped = true ↔ ∃ x ∈ seen', stop x = true := by
  induction fuel generalizing pending seen visits with
  | zero => simp [traverse] at hrun
  | succ fuel ih =>
    obtain ⟨_, hresult⟩ | ⟨cursor, _, ⟨_, hrun⟩ | ⟨_, hcursor, hresult⟩ |
      ⟨_, hcursor, _, _, hrun⟩⟩ := traverse_step hrun
    · obtain ⟨rfl, rfl, _⟩ : stopped = false ∧ seen' = seen ∧ visits' = visits := by
        simpa using hresult
      simpa using hseen
    · exact ih hseen hrun
    · obtain ⟨rfl, rfl, _⟩ : stopped = true ∧ seen' = seen.insert cursor ∧
        visits' = visits + 1 := by
        simpa using hresult
      exact iff_of_true rfl ⟨cursor, Std.ExtTreeSet.mem_insert_self, hcursor⟩
    · refine ih (fun x hx => ?_) hrun
      rw [Std.ExtTreeSet.mem_insert, Std.compare_eq_iff_eq] at hx
      rcases hx with rfl | hx
      · exact hcursor
      · exact hseen x hx

/-- Every node a traversal sees is reachable from its start. -/
theorem traverse_sound (fuel : ℕ)
    (hrun : traverse next stop maxVisits limit missing fuel pending seen visits =
      .ok (stopped, seen', visits')) :
    ∀ x ∈ seen', x ∈ seen ∨ ∃ y ∈ pending, Relation.ReflTransGen (Successor next) y x := by
  induction fuel generalizing pending seen visits with
  | zero => simp [traverse] at hrun
  | succ fuel ih =>
    intro x hx
    obtain ⟨rfl, hresult⟩ | ⟨cursor, hcursor, ⟨hseen, hrun⟩ | ⟨_, _, hresult⟩ |
      ⟨hseen, _, successors, hnext, hrun⟩⟩ := traverse_step hrun
    · obtain ⟨_, rfl, _⟩ : stopped = false ∧ seen' = seen ∧ visits' = visits := by
        simpa using hresult
      exact .inl hx
    · refine (ih hrun x hx).imp_right ?_
      rintro ⟨y, hy, hreach⟩
      exact ⟨y, (Std.ExtTreeSet.mem_erase.mp hy).2, hreach⟩
    · obtain ⟨_, rfl, _⟩ : stopped = true ∧ seen' = seen.insert cursor ∧ visits' = visits + 1 := by
        simpa using hresult
      rw [Std.ExtTreeSet.mem_insert, Std.compare_eq_iff_eq] at hx
      rcases hx with rfl | hx
      · exact .inr ⟨cursor, hcursor, .refl⟩
      · exact .inl hx
    · rcases ih hrun x hx with hx | ⟨y, hy, hreach⟩
      · rw [Std.ExtTreeSet.mem_insert, Std.compare_eq_iff_eq] at hx
        rcases hx with rfl | hx
        · exact .inr ⟨cursor, hcursor, .refl⟩
        · exact .inl hx
      · rcases (mem_addUnseen _ _ _ _).mp hy with hy | ⟨hy, _⟩
        · exact .inr ⟨y, (Std.ExtTreeSet.mem_erase.mp hy).2, hreach⟩
        · exact .inr ⟨cursor, hcursor, .head ⟨successors, hnext, hy⟩ hreach⟩

/-- Two traversals agree when their successor functions agree on a closed set that holds
the start. -/
theorem traverse_congr {next' : κ → Option (List κ)} (D : κ → Prop)
    (hagree : ∀ x, D x → next x = next' x)
    (hclosed : ∀ x, D x → ∀ l, next x = some l → ∀ y ∈ l, D y) (fuel : ℕ)
    (hpending : ∀ x ∈ pending, D x) :
    traverse next stop maxVisits limit missing fuel pending seen visits =
      traverse next' stop maxVisits limit missing fuel pending seen visits := by
  induction fuel generalizing pending seen visits with
  | zero => rfl
  | succ fuel ih =>
    rw [traverse, traverse]
    cases hmin : TreeSet.first? pending with
    | none => rfl
    | some cursor =>
      have hD : D cursor := hpending cursor (TreeSet.first?_mem hmin)
      have hrest : ∀ x ∈ pending.erase cursor, D x := fun x hx =>
        hpending x (Std.ExtTreeSet.mem_erase.mp hx).2
      simp only [ih hrest, ← hagree cursor hD]
      cases hnext : next cursor with
      | none => rfl
      | some successors =>
        have hvisit : ∀ x ∈ addUnseen (seen.insert cursor) (pending.erase cursor) successors,
            D x := by
          intro x hx
          rcases (mem_addUnseen _ _ _ _).mp hx with hx | ⟨hx, _⟩
          · exact hrest x hx
          · exact hclosed cursor hD successors hnext x hx
        simp only [ih hvisit]

/-- Fuel beyond the visits left does not matter as long as no pending node was seen. -/
theorem traverse_fuel (fuel fuel' : ℕ) (hfuel : maxVisits - visits < fuel)
    (hfuel' : maxVisits - visits < fuel') (hdisjoint : ∀ x ∈ pending, x ∉ seen) :
    traverse next stop maxVisits limit missing fuel pending seen visits =
      traverse next stop maxVisits limit missing fuel' pending seen visits := by
  induction fuel generalizing fuel' pending seen visits with
  | zero => omega
  | succ fuel ih =>
    obtain ⟨fuel', rfl⟩ : ∃ n, fuel' = n + 1 := ⟨fuel' - 1, by omega⟩
    rw [traverse, traverse]
    cases hmin : TreeSet.first? pending with
    | none => rfl
    | some cursor =>
      have hseen : cursor ∉ seen := hdisjoint cursor (TreeSet.first?_mem hmin)
      simp only [hseen, if_false]
      by_cases hlimit : maxVisits ≤ visits
      · simp only [hlimit, if_true]
      · cases hnext : next cursor with
        | none => rfl
        | some successors =>
          have hkeep : ∀ x ∈ addUnseen (seen.insert cursor) (pending.erase cursor) successors,
              x ∉ seen.insert cursor := by
            intro x hx
            rcases (mem_addUnseen _ _ _ _).mp hx with hx | ⟨_, hx⟩
            · obtain ⟨hne, hx⟩ := Std.ExtTreeSet.mem_erase.mp hx
              rw [Std.ExtTreeSet.mem_insert, not_or]
              exact ⟨hne, hdisjoint x hx⟩
            · exact hx
          simp only [@ih _ _ (visits + 1) fuel' (by omega) (by omega) hkeep]

end

end PulseDag
