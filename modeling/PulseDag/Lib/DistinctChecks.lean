import PulseDag.Lib.Except

/-!
# Loops that check a list for repetitions

A validation loop that checks each item and refuses an item whose key has occurred before succeeds
exactly when all items pass and no key is repeated. A list without repetitions has as many distinct
members as entries, and no shorter list covers it.
-/

namespace PulseDag

open List

variable {ε α κ : Type} [DecidableEq κ]

/-- A loop that checks every item and that no earlier item has its key. -/
def checkDistinct (check : α → Except ε Unit) (key : α → κ) (duplicate : α → ε) :
    List α → List α → Except ε Unit
  | _, [] => .ok ()
  | prior, item :: rest => do
    check item
    ensure (∀ other ∈ prior, key other ≠ key item) (duplicate item)
    checkDistinct check key duplicate (prior ++ [item]) rest

omit [DecidableEq κ] in
/-- A list has as many distinct members as entries exactly when none is repeated. -/
theorem exists_nodup_subset_iff {l : List κ} :
    (∃ distinct : List κ, distinct.Nodup ∧ distinct ⊆ l ∧ l.length ≤ distinct.length) ↔
      l.Nodup := by
  constructor
  · rintro ⟨distinct, hnodup, hsub, hlength⟩
    exact ((hnodup.subperm hsub).perm_of_length_le hlength).nodup_iff.mp hnodup
  · exact fun hnodup => ⟨l, hnodup, List.Subset.refl _, le_refl _⟩

/-- Every shorter list misses an entry of a list exactly when none is repeated. -/
theorem forall_shorter_misses_iff {l : List κ} :
    (∀ held : List κ, held.length < l.length → ∃ k ∈ l, k ∉ held) ↔ l.Nodup := by
  constructor
  · intro hmisses
    by_contra hrepeated
    have hshorter : l.dedup.length < l.length :=
      lt_of_le_of_ne (dedup_sublist _).length_le fun heq =>
        hrepeated (dedup_eq_self.mp ((dedup_sublist _).eq_of_length heq))
    obtain ⟨k, hk, hmissed⟩ := hmisses _ hshorter
    exact hmissed (mem_dedup.mpr hk)
  · intro hnodup held hheld
    by_contra hcovered
    push Not at hcovered
    exact absurd (hnodup.subperm hcovered).length_le (not_le.mpr hheld)

variable {check : α → Except ε Unit} {key : α → κ} {duplicate : α → ε}

/-- Two checks in sequence succeed when both do. -/
theorem seq_eq_ok {x y : Except ε Unit} : (x >>= fun _ => y) = .ok () ↔ x = .ok () ∧
    y = .ok () := by
  rw [bind_eq_ok]
  constructor
  · rintro ⟨_, hx, hy⟩
    exact ⟨hx, hy⟩
  · rintro ⟨hx, hy⟩
    exact ⟨(), hx, hy⟩

/-- The loop with some items behind it. -/
theorem checkDistinct_from_eq_ok {prior items : List α} :
    checkDistinct check key duplicate prior items = .ok () ↔
      (∀ item ∈ items, check item = .ok () ∧ ∀ other ∈ prior, key other ≠ key item) ∧
        items.Pairwise fun item other => key item ≠ key other := by
  induction items generalizing prior with
  | nil => simp [checkDistinct]
  | cons item rest ih =>
    rw [checkDistinct, seq_eq_ok, seq_eq_ok, ensure_eq_ok, ih, forall_mem_cons,
      pairwise_cons]
    constructor
    · rintro ⟨hcheck, hfresh, hrest, hpairs⟩
      refine ⟨⟨⟨hcheck, hfresh⟩, fun other hother => ?_⟩, fun other hother => ?_, hpairs⟩
      · exact ⟨(hrest other hother).1, fun p hp =>
          (hrest other hother).2 p (mem_append_left _ hp)⟩
      · exact (hrest other hother).2 item (mem_append_right _ (mem_singleton_self item))
    · rintro ⟨⟨⟨hcheck, hfresh⟩, hrest⟩, hitem, hpairs⟩
      refine ⟨hcheck, hfresh, fun other hother => ⟨(hrest other hother).1, fun p hp => ?_⟩, hpairs⟩
      rcases mem_append.mp hp with hp | hp
      · exact (hrest other hother).2 p hp
      · rw [mem_singleton.mp hp]
        exact hitem other hother

/-- The loop accepts items that pass and have distinct keys. -/
theorem checkDistinct_eq_ok {items : List α} :
    checkDistinct check key duplicate [] items = .ok () ↔
      (∀ item ∈ items, check item = .ok ()) ∧
        items.Pairwise fun item other => key item ≠ key other := by
  rw [checkDistinct_from_eq_ok]
  simp

end PulseDag
