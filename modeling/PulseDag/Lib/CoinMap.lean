import PulseDag.Lib.Collections

/-!
# Maps whose entries carry a value

A ledger is a finite map from keys to coins. Coins are taken out and put in by lists, and
the total value changes by what has been taken out and put in.
-/

namespace PulseDag

open List

section

variable {κ α : Type} [Ord κ] [Std.TransOrd κ] [Std.LawfulEqOrd κ]

/-- Lookup after removing a key. -/
theorem TreeMap.getElem?_erase (m : TreeMap κ α) (k a : κ) [DecidableEq κ] :
    (m.erase k)[a]? = if a = k then none else m[a]? := by
  rw [Std.ExtTreeMap.getElem?_erase]
  rcases eq_or_ne a k with rfl | hne
  · simp
  · simp [hne, hne.symm]

/-- The keys left after removing one. -/
theorem TreeMap.mem_erase (m : TreeMap κ α) (k a : κ) : a ∈ m.erase k ↔ a ≠ k ∧ a ∈ m := by
  rw [Std.ExtTreeMap.mem_erase, ne_eq, Std.compare_eq_iff_eq, eq_comm]

variable {k : κ} {m : TreeMap κ α}

/-- Removing a key that is not there changes nothing. -/
theorem TreeMap.erase_of_notMem (h : k ∉ m) : m.erase k = m := by
  classical
  refine Std.ExtTreeMap.ext_getElem? fun a => ?_
  rw [TreeMap.getElem?_erase]
  split
  · rename_i heq
    rw [heq, Std.ExtTreeMap.getElem?_eq_none h]
  · rfl

/-- Lookup after a filter on the keys. -/
theorem TreeMap.getElem?_filter_key (m : TreeMap κ α) (stays : κ → Bool) (k : κ) :
    (m.filter fun key _ => stays key)[k]? = if stays k = true then m[k]? else none := by
  rw [Std.ExtTreeMap.getElem?_filter']
  cases m[k]? with
  | none => exact (ite_self _).symm
  | some value => exact Option.filter_some

/-- The keys left by a filter on the keys. -/
theorem TreeMap.mem_filter_key (m : TreeMap κ α) (stays : κ → Bool) (k : κ) :
    k ∈ m.filter (fun key _ => stays key) ↔ k ∈ m ∧ stays k = true := by
  rw [TreeMap.mem_iff, TreeMap.mem_iff, TreeMap.getElem?_filter_key]
  cases stays k <;> simp

/-- Removing a key is a filter. -/
theorem TreeMap.erase_eq_filter [DecidableEq κ] (m : TreeMap κ α) (k : κ) :
    m.erase k = m.filter fun key _ => key ≠ k := by
  refine Std.ExtTreeMap.ext_getElem? fun a => ?_
  rw [TreeMap.getElem?_erase, TreeMap.getElem?_filter_key]
  simp only [ne_eq, decide_not, Bool.not_eq_true', decide_eq_false_iff_not, ite_not]

/-- Put an erased entry back. -/
theorem TreeMap.insert_erase (m : TreeMap κ α) {v : α} (h : m[k]? = some v) :
    (m.erase k).insert k v = m := by
  classical
  refine Std.ExtTreeMap.ext_getElem? fun a => ?_
  rw [TreeMap.getElem?_insert, TreeMap.getElem?_erase]
  rcases eq_or_ne a k with rfl | hne
  · simp [h]
  · simp [hne]

/-! ## Totals -/

omit [Std.LawfulEqOrd κ] in
/-- The sum of the values of all entries. -/
def mapTotal (value : α → ℕ) (m : TreeMap κ α) : ℕ := (m.toList.map fun e => value e.2).sum

variable (value : α → ℕ)

omit [Std.LawfulEqOrd κ] in
/-- The empty map has no value. -/
@[simp] theorem mapTotal_empty : mapTotal value (∅ : TreeMap κ α) = 0 := by
  have hnil : (∅ : TreeMap κ α).toList = [] := Std.ExtTreeMap.toList_eq_nil_iff.mpr rfl
  simp [mapTotal, hnil]

/-- A new entry adds its value. -/
theorem mapTotal_insert (v : α) (hk : k ∉ m) :
    mapTotal value (m.insert k v) = value v + mapTotal value m := by
  have hperm := (TreeMap.toList_insert_perm m k v hk).map fun e => value e.2
  rw [mapTotal, hperm.sum_eq, map_cons, sum_cons, mapTotal]

/-- A removed entry takes its value with it. -/
theorem mapTotal_erase {v : α} (hk : m[k]? = some v) :
    value v + mapTotal value (m.erase k) = mapTotal value m := by
  have hfresh : k ∉ m.erase k := by simp
  rw [← mapTotal_insert value v hfresh, TreeMap.insert_erase m hk]

/-! ## Lists of keys and entries -/

/-- Take the listed keys out. -/
def eraseAll (m : TreeMap κ α) (keys : List κ) : TreeMap κ α :=
  keys.foldl (fun m k => m.erase k) m

/-- Put the listed entries in. -/
def insertAll (m : TreeMap κ α) (entries : List (κ × α)) : TreeMap κ α :=
  entries.foldl (fun m e => m.insert e.1 e.2) m

omit [Std.LawfulEqOrd κ] in
/-- Removing no key. -/
@[simp] theorem eraseAll_nil (m : TreeMap κ α) : eraseAll m [] = m := rfl

omit [Std.LawfulEqOrd κ] in
/-- Removing a first key. -/
@[simp] theorem eraseAll_cons (m : TreeMap κ α) (k : κ) (keys : List κ) :
    eraseAll m (k :: keys) = eraseAll (m.erase k) keys := rfl

omit [Std.LawfulEqOrd κ] in
/-- Adding no entry. -/
@[simp] theorem insertAll_nil (m : TreeMap κ α) : insertAll m [] = m := rfl

omit [Std.LawfulEqOrd κ] in
/-- Adding a first entry. -/
@[simp] theorem insertAll_cons (m : TreeMap κ α) (e : κ × α) (entries : List (κ × α)) :
    insertAll m (e :: entries) = insertAll (m.insert e.1 e.2) entries := rfl

omit [Std.LawfulEqOrd κ] in
/-- Adding two lists of entries. -/
theorem insertAll_append (m : TreeMap κ α) (entries others : List (κ × α)) :
    insertAll m (entries ++ others) = insertAll (insertAll m entries) others :=
  foldl_append

/-- Lookup after removing keys. -/
theorem getElem?_eraseAll [DecidableEq κ] (m : TreeMap κ α) (keys : List κ) (a : κ) :
    (eraseAll m keys)[a]? = if a ∈ keys then none else m[a]? := by
  induction keys generalizing m with
  | nil => simp
  | cons k keys ih =>
    rw [eraseAll_cons, ih, TreeMap.getElem?_erase]
    by_cases hk : a = k <;> by_cases hdistinct : a ∈ keys <;> simp [hk, hdistinct]

/-- The keys left after removing some. -/
theorem mem_eraseAll (m : TreeMap κ α) (keys : List κ) (a : κ) :
    a ∈ eraseAll m keys ↔ a ∉ keys ∧ a ∈ m := by
  classical
  rw [TreeMap.mem_iff, TreeMap.mem_iff, getElem?_eraseAll]
  by_cases h : a ∈ keys <;> simp [h]

variable {entries : List (κ × α)}

/-- Other keys keep their values. -/
theorem getElem?_insertAll_of_notMem (m : TreeMap κ α) {a : κ} (ha : a ∉ entries.map Prod.fst) :
    (insertAll m entries)[a]? = m[a]? := by
  classical
  induction entries generalizing m with
  | nil => rfl
  | cons e entries ih =>
    rw [map_cons, mem_cons, not_or] at ha
    rw [insertAll_cons, ih _ ha.2, TreeMap.getElem?_insert, if_neg ha.1]

/-- With distinct keys every entry is stored. -/
theorem getElem?_insertAll_of_mem (m : TreeMap κ α) {a : κ} {v : α}
    (hdistinct : (entries.map Prod.fst).Nodup) (ha : (a, v) ∈ entries) :
    (insertAll m entries)[a]? = some v := by
  classical
  induction entries generalizing m with
  | nil => simp at ha
  | cons e entries ih =>
    rw [map_cons, nodup_cons] at hdistinct
    rw [insertAll_cons]
    rcases mem_cons.mp ha with rfl | ha
    · rw [getElem?_insertAll_of_notMem _ hdistinct.1, TreeMap.getElem?_insert, if_pos rfl]
    · exact ih _ hdistinct.2 ha

/-- Looking up a key after distinct fresh entries have been put in. -/
theorem getElem?_insertAll_eq_some (m : TreeMap κ α) (hdistinct : (entries.map Prod.fst).Nodup)
    (hfresh : ∀ e ∈ entries, e.1 ∉ m) (a : κ) (v : α) :
    (insertAll m entries)[a]? = some v ↔ (a, v) ∈ entries ∨ m[a]? = some v := by
  by_cases ha : a ∈ entries.map Prod.fst
  · obtain ⟨⟨k, w⟩, he, rfl⟩ := mem_map.mp ha
    have hnone : m[k]? = none := Std.ExtTreeMap.getElem?_eq_none (hfresh _ he)
    constructor
    · intro h
      rw [getElem?_insertAll_of_mem m hdistinct he] at h
      exact .inl (Option.some.inj h ▸ he)
    · rintro (h | h)
      · exact getElem?_insertAll_of_mem m hdistinct h
      · rw [hnone] at h
        exact absurd h (by simp)
  · rw [getElem?_insertAll_of_notMem m ha]
    refine (or_iff_right fun he => ha ?_).symm
    exact mem_map_of_mem (f := Prod.fst) he

/-- The keys after adding entries. -/
theorem mem_insertAll (m : TreeMap κ α) (entries : List (κ × α)) (a : κ) :
    a ∈ insertAll m entries ↔ a ∈ entries.map Prod.fst ∨ a ∈ m := by
  induction entries generalizing m with
  | nil => simp
  | cons e entries ih =>
    rw [insertAll_cons, ih, TreeMap.mem_insert, map_cons, mem_cons]
    tauto

/-- `retain`: the entries whose keys are in a set. -/
def retainKeys (m : TreeMap κ α) (keys : TreeSet κ) : TreeMap κ α :=
  insertAll ∅ (m.toList.filter fun e => e.1 ∈ keys)

/-- Lookup after keeping some keys. -/
theorem getElem?_retainKeys (m : TreeMap κ α) (keys : TreeSet κ) (a : κ) :
    (retainKeys m keys)[a]? = if a ∈ keys then m[a]? else none := by
  have hdistinct : ((m.toList.filter fun e => e.1 ∈ keys).map Prod.fst).Nodup := by
    refine List.Nodup.sublist (filter_sublist.map Prod.fst) ?_
    rw [Std.ExtTreeMap.map_fst_toList_eq_keys]
    exact Std.ExtTreeMap.nodup_keys
  ext v
  rw [retainKeys, getElem?_insertAll_eq_some _ hdistinct fun _ _ => Std.ExtTreeMap.not_mem_empty]
  simp only [mem_filter, TreeMap.mem_toList, decide_eq_true_eq]
  by_cases ha : a ∈ keys <;> simp [ha]

/-- Putting in the entries of a map, in whatever order they are listed, gives the map. -/
theorem insertAll_of_perm_toList (h : entries.Perm m.toList) : insertAll ∅ entries = m := by
  have hdistinct : (entries.map Prod.fst).Nodup := by
    rw [(h.map Prod.fst).nodup_iff, Std.ExtTreeMap.map_fst_toList_eq_keys]
    exact Std.ExtTreeMap.nodup_keys
  refine Std.ExtTreeMap.ext_getElem? fun k => Option.ext fun v => ?_
  rw [getElem?_insertAll_eq_some _ hdistinct fun _ _ => Std.ExtTreeMap.not_mem_empty, h.mem_iff,
    TreeMap.mem_toList]
  simp

/-- Taking out distinct present keys lowers the total by their values. -/
theorem mapTotal_eraseAll {coins : List (κ × α)} (hdistinct : (coins.map Prod.fst).Nodup)
    (hcoins : ∀ e ∈ coins, m[e.1]? = some e.2) :
    (coins.map fun e => value e.2).sum + mapTotal value (eraseAll m (coins.map Prod.fst)) =
      mapTotal value m := by
  classical
  induction coins generalizing m with
  | nil => simp
  | cons e coins ih =>
    rw [map_cons, nodup_cons] at hdistinct
    have herase := mapTotal_erase value (hcoins e mem_cons_self)
    have hrest := ih (m := m.erase e.1) hdistinct.2 fun x hx => by
      have hne : x.1 ≠ e.1 := fun heq => hdistinct.1 (heq ▸ mem_map_of_mem (f := Prod.fst) hx)
      rw [TreeMap.getElem?_erase, if_neg hne]
      exact hcoins x (mem_cons_of_mem _ hx)
    rw [map_cons, map_cons, sum_cons, eraseAll_cons]
    omega

/-- Putting in distinct fresh entries raises the total by their values. -/
theorem mapTotal_insertAll (hdistinct : (entries.map Prod.fst).Nodup)
    (hfresh : ∀ e ∈ entries, e.1 ∉ m) :
    mapTotal value (insertAll m entries) =
      (entries.map fun e => value e.2).sum + mapTotal value m := by
  induction entries generalizing m with
  | nil => simp
  | cons e entries ih =>
    rw [map_cons, nodup_cons] at hdistinct
    have hinsert := mapTotal_insert value e.2 (hfresh e mem_cons_self)
    have hrest := ih (m := m.insert e.1 e.2) hdistinct.2 fun x hx => by
      have hne : x.1 ≠ e.1 := fun heq => hdistinct.1 (heq ▸ mem_map_of_mem (f := Prod.fst) hx)
      rw [TreeMap.mem_insert, not_or]
      exact ⟨hne, hfresh x (mem_cons_of_mem _ hx)⟩
    rw [insertAll_cons, map_cons, sum_cons]
    omega

end

end PulseDag
