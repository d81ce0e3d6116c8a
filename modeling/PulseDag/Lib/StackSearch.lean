import PulseDag.Lib.Collections

/-!
# Searches with a stack

A search pops a node, skips it when it has been collected already, and otherwise collects it and
pushes its successors. Its fuel does not matter once it pays for every push (`reachFrom_fuel`).
-/

namespace PulseDag

open List

variable {κ : Type} [Ord κ] [Std.TransOrd κ] [Std.LawfulEqOrd κ]

section

variable {collected : TreeSet κ} {node : κ}

/-! ## The fuel -/

/-- How many pushes the nodes that are not collected yet can cause. -/
def pushesLeft (degree : κ → ℕ) (nodes : List κ) (collected : TreeSet κ) : ℕ :=
  (nodes.map fun node => if node ∈ collected then 0 else degree node).sum

omit [Std.LawfulEqOrd κ] in
/-- With more nodes collected there are no more pushes. -/
theorem pushesLeft_anti (degree : κ → ℕ) (nodes : List κ) {collected collected' : TreeSet κ}
    (h : ∀ x ∈ collected, x ∈ collected') :
    pushesLeft degree nodes collected' ≤ pushesLeft degree nodes collected := by
  refine sum_le_sum fun x _ => ?_
  by_cases hx : x ∈ collected
  · rw [if_pos hx, if_pos (h x hx)]
  · rw [if_neg hx]
    split <;> omega

/-- Collecting a new node uses up its own pushes. -/
theorem pushesLeft_insert (degree : κ → ℕ) {nodes : List κ} (hmem : node ∈ nodes)
    (hnew : node ∉ collected) :
    degree node + pushesLeft degree nodes (collected.insert node) ≤
      pushesLeft degree nodes collected := by
  induction nodes with
  | nil => cases hmem
  | cons first rest ih =>
    have hcons : ∀ set : TreeSet κ, pushesLeft degree (first :: rest) set =
        (if first ∈ set then 0 else degree first) + pushesLeft degree rest set := fun set => by
      rw [pushesLeft, map_cons, sum_cons, pushesLeft]
    have hgrow : ∀ x ∈ collected, x ∈ collected.insert node := fun x hx =>
      (TreeSet.mem_insert _ _ _).mpr (.inr hx)
    rw [hcons, hcons]
    rcases mem_cons.mp hmem with rfl | hrest
    · have hle := pushesLeft_anti degree rest hgrow
      rw [if_pos ((TreeSet.mem_insert _ _ _).mpr (.inl rfl)), if_neg hnew]
      omega
    · have hle := ih hrest
      have hfirst := pushesLeft_anti degree [first] hgrow
      rw [pushesLeft, pushesLeft, map_singleton, map_singleton, sum_singleton,
        sum_singleton] at hfirst
      omega

end

/-! ## Searches without a limit -/

/-- Everything that is reached from a stack, in addition to the nodes seen already. -/
def reachFrom (next : κ → List κ) : ℕ → List κ → TreeSet κ → TreeSet κ
  | _, [], seen => seen
  | 0, _ :: _, seen => seen
  | fuel + 1, node :: stack, seen =>
    if node ∈ seen then reachFrom next fuel stack seen
    else reachFrom next fuel ((next node).reverse ++ stack) (seen.insert node)

/-- With fuel for the stack and all pushes to come, more fuel changes nothing. -/
theorem reachFrom_fuel {next : κ → List κ} (nodes : List κ)
    (hnodes : ∀ x, next x ≠ [] → x ∈ nodes) {fuel : ℕ} {stack : List κ} {seen : TreeSet κ}
    (hfuel : stack.length + pushesLeft (fun x => (next x).length) nodes seen ≤ fuel) (more : ℕ) :
    reachFrom next (fuel + more) stack seen = reachFrom next fuel stack seen := by
  induction fuel generalizing stack seen with
  | zero =>
    cases stack with
    | nil => cases more <;> rfl
    | cons node stack => simp at hfuel
  | succ fuel ih =>
    cases stack with
    | nil =>
      rw [Nat.succ_add]
      rfl
    | cons node stack =>
      rw [Nat.succ_add, reachFrom, reachFrom]
      rw [length_cons] at hfuel
      split
      next => exact ih (by omega)
      next hnew =>
        refine ih ?_
        rw [length_append, length_reverse]
        by_cases hnext : next node = []
        · have hle := pushesLeft_anti (fun x => (next x).length) nodes
            (fun x hx => (TreeSet.mem_insert seen node x).mpr (.inr hx))
          rw [hnext, length_nil]
          omega
        · have hle := pushesLeft_insert (fun x => (next x).length) (hnodes node hnext) hnew
          omega

end PulseDag
