import Mathlib

/-!
# Ordered maps and sets

Extensional tree maps and sets stand for the standard collections: two maps with the
same entries are equal, and listing a map runs through its keys in ascending order.
-/

namespace PulseDag

open List

/-- A map with ordered keys. -/
abbrev TreeMap (κ α : Type) [Ord κ] := Std.ExtTreeMap κ α compare

/-- A set with ordered members. -/
abbrev TreeSet (κ : Type) [Ord κ] := Std.ExtTreeSet κ compare

section

variable {κ α : Type} [Ord κ] [Std.TransOrd κ] [Std.LawfulEqOrd κ]

/-- The members after an insertion. -/
theorem TreeSet.mem_insert (s : TreeSet κ) (k a : κ) : a ∈ s.insert k ↔ a = k ∨ a ∈ s := by
  rw [Std.ExtTreeSet.mem_insert, Std.compare_eq_iff_eq, eq_comm]

/-- The members left after a removal. -/
theorem TreeSet.mem_erase (s : TreeSet κ) (k a : κ) : a ∈ s.erase k ↔ a ≠ k ∧ a ∈ s := by
  rw [Std.ExtTreeSet.mem_erase, ne_eq, Std.compare_eq_iff_eq, eq_comm]

/-- The keys after an insertion. -/
theorem TreeMap.mem_insert (m : TreeMap κ α) (k a : κ) (v : α) :
    a ∈ m.insert k v ↔ a = k ∨ a ∈ m := by
  rw [Std.ExtTreeMap.mem_insert, Std.compare_eq_iff_eq, eq_comm]

/-- The least element. Unlike `min?`, it is computed by structural recursion only, so that
`decide` can evaluate it. -/
def TreeSet.first? {κ : Type} [Ord κ] [Std.TransOrd κ] (s : TreeSet κ) : Option κ :=
  s.toList.head?

omit [Std.LawfulEqOrd κ] in
/-- Only the empty set has no first member. -/
theorem TreeSet.first?_eq_none {s : TreeSet κ} : TreeSet.first? s = none ↔ s = ∅ := by
  rw [TreeSet.first?, ← Std.ExtTreeSet.min?_eq_head?_toList, Std.ExtTreeSet.min?_eq_none_iff]

/-- The first member is a least one. -/
theorem TreeSet.first?_eq_some {s : TreeSet κ} {k : κ} :
    TreeSet.first? s = some k ↔ k ∈ s ∧ ∀ a ∈ s, (compare k a).isLE = true := by
  rw [TreeSet.first?, ← Std.ExtTreeSet.min?_eq_head?_toList,
    Std.ExtTreeSet.min?_eq_some_iff_mem_and_forall]

/-- The first member is a member. -/
theorem TreeSet.first?_mem {s : TreeSet κ} {k : κ} (h : TreeSet.first? s = some k) : k ∈ s :=
  (TreeSet.first?_eq_some.mp h).1

/-- A set lists its members once. -/
theorem TreeSet.nodup_toList (s : TreeSet κ) : s.toList.Nodup := by
  refine Std.ExtTreeSet.distinct_toList.imp ?_
  intro a b hne heq
  exact hne (heq ▸ Std.ReflOrd.compare_self)

/-- A map lists its entries once. -/
theorem TreeMap.nodup_toList (m : TreeMap κ α) : m.toList.Nodup := by
  refine Std.ExtTreeMap.distinct_keys_toList.imp ?_
  intro a b hne heq
  exact hne (heq ▸ Std.ReflOrd.compare_self)

/-- The listed entries are the stored ones. -/
theorem TreeMap.mem_toList (m : TreeMap κ α) (k : κ) (v : α) :
    (k, v) ∈ m.toList ↔ m[k]? = some v := Std.ExtTreeMap.mem_toList_iff_getElem?_eq_some

omit [Std.LawfulEqOrd κ] in
/-- A key is there when it has a value. -/
theorem TreeMap.mem_iff (m : TreeMap κ α) (k : κ) : k ∈ m ↔ ∃ v, m[k]? = some v := by
  rw [Std.ExtTreeMap.mem_iff_isSome_getElem?, Option.isSome_iff_exists]

omit [Std.LawfulEqOrd κ] in
/-- Maps with the same value at a key agree on having it. -/
theorem TreeMap.mem_congr {m m' : TreeMap κ α} {k : κ} (h : m[k]? = m'[k]?) : k ∈ m ↔ k ∈ m' := by
  rw [TreeMap.mem_iff, TreeMap.mem_iff, h]

/-- Lookup after an insertion. -/
theorem TreeMap.getElem?_insert (m : TreeMap κ α) (k a : κ) (v : α) [DecidableEq κ] :
    (m.insert k v)[a]? = if a = k then some v else m[a]? := by
  rw [Std.ExtTreeMap.getElem?_insert]
  rcases eq_or_ne a k with rfl | hne
  · simp
  · simp [hne, hne.symm]

/-- Listing a map after a fresh insertion lists one more entry. -/
theorem TreeMap.toList_insert_perm (m : TreeMap κ α) (k : κ) (v : α) (hk : k ∉ m) :
    (m.insert k v).toList.Perm ((k, v) :: m.toList) := by
  classical
  have hnotMem : (k, v) ∉ m.toList := by
    rw [TreeMap.mem_toList]
    intro hv
    exact hk ((TreeMap.mem_iff m k).mpr ⟨v, hv⟩)
  refine (perm_ext_iff_of_nodup (TreeMap.nodup_toList _)
    (nodup_cons.mpr ⟨hnotMem, TreeMap.nodup_toList m⟩)).mpr ?_
  rintro ⟨a, b⟩
  rw [TreeMap.mem_toList, TreeMap.getElem?_insert, mem_cons, TreeMap.mem_toList]
  by_cases hak : a = k
  · subst hak
    have hnone : m[a]? = none := Std.ExtTreeMap.getElem?_eq_none hk
    simp [hnone, eq_comm]
  · simp [hak]

/-- The entries of a map with one entry. -/
@[simp] theorem TreeMap.toList_singleton (k : κ) (v : α) :
    ((∅ : TreeMap κ α).insert k v).toList = [(k, v)] := by
  have hperm := TreeMap.toList_insert_perm (∅ : TreeMap κ α) k v Std.ExtTreeMap.not_mem_empty
  have hempty : (∅ : TreeMap κ α).toList = [] := Std.ExtTreeMap.toList_eq_nil_iff.mpr rfl
  rw [hempty] at hperm
  exact perm_singleton.mp hperm

/-- The members of a set with one member. -/
@[simp] theorem TreeSet.toList_singleton (k : κ) : ((∅ : TreeSet κ).insert k).toList = [k] := by
  refine perm_singleton.mp ((perm_ext_iff_of_nodup (TreeSet.nodup_toList _)
    (nodup_singleton k)).mpr fun a => ?_)
  rw [Std.ExtTreeSet.mem_toList, TreeSet.mem_insert, mem_singleton,
    or_iff_left Std.ExtTreeSet.not_mem_empty]

/-- The keys of a map with one entry. -/
@[simp] theorem TreeMap.keys_singleton (k : κ) (v : α) :
    ((∅ : TreeMap κ α).insert k v).keys = [k] := by
  rw [← Std.ExtTreeMap.map_fst_toList_eq_keys, TreeMap.toList_singleton, map_singleton]

/-- A set with a member has size one if it has no other. -/
theorem TreeSet.size_eq_one_iff {set : TreeSet κ} {x : κ} (hx : x ∈ set) :
    set.size = 1 ↔ ∀ y ∈ set, y = x := by
  rw [← Std.ExtTreeSet.length_toList]
  simp only [← Std.ExtTreeSet.mem_toList] at hx ⊢
  have hnodup := TreeSet.nodup_toList set
  constructor
  · intro hlength y hy
    obtain ⟨z, hz⟩ := length_eq_one_iff.mp hlength
    rw [hz, mem_singleton] at hx hy
    rw [hx, hy]
  · intro hall
    refine length_eq_one_iff.mpr ⟨x, perm_singleton.mp ?_⟩
    refine (perm_ext_iff_of_nodup hnodup (nodup_singleton x)).mpr fun y => ?_
    rw [mem_singleton]
    exact ⟨hall y, fun h => h ▸ hx⟩

end

/-! ## Sorted lists without repetitions -/

section

variable {α : Type} [DecidableEq α]

/-- `Vec::dedup`: of several equal neighbours keep one. -/
def dedupNeighbours : List α → List α
  | [] => []
  | [x] => [x]
  | x :: y :: rest =>
    if x = y then dedupNeighbours (y :: rest) else x :: dedupNeighbours (y :: rest)

/-- Dropping repeated neighbours loses no item. -/
@[simp] theorem mem_dedupNeighbours (l : List α) (a : α) : a ∈ dedupNeighbours l ↔ a ∈ l := by
  induction l using dedupNeighbours.induct with
  | case1 => simp [dedupNeighbours]
  | case2 x => simp [dedupNeighbours]
  | case3 x rest ih =>
    rw [dedupNeighbours, if_pos rfl, ih]
    simp
  | case4 x y rest hne ih =>
    rw [dedupNeighbours, if_neg hne]
    simp only [mem_cons, ih]

/-- A sorted list loses its repetitions and stays sorted. -/
theorem pairwise_lt_dedupNeighbours [LinearOrder α] (l : List α) (hl : l.Pairwise (· ≤ ·)) :
    (dedupNeighbours l).Pairwise (· < ·) := by
  induction l using dedupNeighbours.induct with
  | case1 => exact List.Pairwise.nil
  | case2 x => exact pairwise_singleton _ _
  | case3 x rest ih =>
    rw [dedupNeighbours, if_pos rfl]
    exact ih hl.of_cons
  | case4 x y rest hne ih =>
    rw [dedupNeighbours, if_neg hne]
    obtain ⟨hx, hrest⟩ := pairwise_cons.mp hl
    refine pairwise_cons.mpr ⟨fun z hz => ?_, ih hrest⟩
    have hxy : x < y := lt_of_le_of_ne (hx y mem_cons_self) hne
    rcases mem_cons.mp ((mem_dedupNeighbours _ _).mp hz) with rfl | hz
    · exact hxy
    · exact hxy.trans_le ((pairwise_cons.mp hrest).1 z hz)

omit [DecidableEq α] in
/-- A strictly sorted list is determined by its members. -/
theorem eq_of_pairwise_lt [LinearOrder α] {l l' : List α} (hl : l.Pairwise (· < ·))
    (hl' : l'.Pairwise (· < ·)) (hmem : ∀ x, x ∈ l ↔ x ∈ l') : l = l' := by
  have hperm : l.Perm l' := (perm_ext_iff_of_nodup
    (hl.imp fun h => ne_of_lt h) (hl'.imp fun h => ne_of_lt h)).mpr hmem
  exact hperm.eq_of_pairwise (fun a b _ _ hab hba => absurd hba hab.asymm) hl hl'

/-- The part of a list in a set that is listed first is its beginning. -/
theorem filter_eq_take_of_prefix {l l' : List α} (hpre : l <+: l')
    (hnodup : l'.Nodup) (D : Finset α) (hD : ∀ x, x ∈ l ↔ x ∈ D) :
    l'.filter (· ∈ D) = l ∧ l = l'.take D.card := by
  obtain ⟨rest, rfl⟩ := hpre
  obtain ⟨hl, _, hdisjoint⟩ := nodup_append.mp hnodup
  have hset : l.toFinset = D := by
    ext x
    rw [mem_toFinset, hD]
  refine ⟨?_, ?_⟩
  · have hfirst : l.filter (· ∈ D) = l := by
      rw [filter_eq_self]
      intro x hx
      simpa using (hD x).mp hx
    have hrest : rest.filter (· ∈ D) = [] := by
      rw [filter_eq_nil_iff]
      intro x hx hxD
      exact hdisjoint x ((hD x).mpr (by simpa using hxD)) x hx rfl
    rw [filter_append, hfirst, hrest, append_nil]
  · rw [← hset, toFinset_card_of_nodup hl, take_left]

end

/-! ## Sorting by a comparison -/

/-- Two items are ordered one way or the other. -/
theorem isLE_total {α : Type} (cmp : α → α → Ordering) [Std.OrientedCmp cmp] (a b : α) :
    (cmp a b).isLE ∨ (cmp b a).isLE := by
  cases hab : cmp a b with
  | lt => exact .inl rfl
  | eq => exact .inl rfl
  | gt =>
    rw [Std.OrientedCmp.gt_iff_lt] at hab
    exact .inr (by rw [hab]; rfl)

/-- Sorting by a comparison sorts. -/
theorem pairwise_insertionSort_isLE {α : Type} (cmp : α → α → Ordering) [Std.TransCmp cmp]
    (l : List α) :
    (l.insertionSort fun a b => (cmp a b).isLE).Pairwise fun a b => (cmp a b).isLE := by
  have : Std.Total fun a b : α => ((cmp a b).isLE = true) := ⟨isLE_total cmp⟩
  have : IsTrans α fun a b => ((cmp a b).isLE = true) := ⟨fun a b c => Std.TransCmp.isLE_trans⟩
  exact pairwise_insertionSort _ l

end PulseDag
