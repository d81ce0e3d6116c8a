import PulseDag.Lib.HeaviestPrefix
import PulseDag.Wallet.Transfer

/-!
# Coin selection of the wallet

`select_utxos` orders the candidates from the largest amount down and takes them until the target is
reached. Duplicate outpoints are looked for among neighbours only, so they are found when entries
with one outpoint have one amount. Two entries that give one outpoint different amounts can both be
selected, exactly when other entries keep them apart and the target is reached (`Overlooked`,
`selectUtxos_minimal`, `selectUtxos_spends_twice`).
-/

namespace PulseDag

open List

/-- The candidates in the order in which they are taken. -/
def sortCandidates (utxos : List Utxo) : List Utxo :=
  utxos.insertionSort fun left right => compareCandidates left right ≠ .gt

/-- The check, then the loop. -/
theorem selectUtxos_eq (utxos : List Utxo) (target : UInt64) :
    selectUtxos utxos target = (do
      ensure ((sortCandidates utxos).IsChain fun left right => left.outpoint ≠ right.outpoint)
        (.invalidTransaction "duplicate UTXO outpoint")
      takeCandidates target (sortCandidates utxos) [] 0) :=
  rfl

/-- The amounts of some coins together. -/
def sumAmounts (coins : List Utxo) : ℕ := (coins.map fun coin => coin.amount.toNat).sum

/-! ## The order of the candidates -/

instance : Std.TransCmp fun left right : Utxo => compare right.amount left.amount :=
  inferInstanceAs (Std.TransCmp fun a b => compareOn Utxo.amount b a)

instance : Std.TransCmp compareCandidates :=
  inferInstanceAs (Std.TransCmp (compareLex
    (fun left right : Utxo => compare right.amount left.amount)
    (compareLex (compareOn fun utxo : Utxo => utxo.outpoint.txid)
      (compareOn fun utxo : Utxo => utxo.outpoint.index))))

variable {a b : Utxo} {rest selected : List Utxo} {target total : UInt64}

/-- When two candidates tie. -/
theorem compareCandidates_eq_eq :
    compareCandidates a b = .eq ↔ a.amount = b.amount ∧ a.outpoint = b.outpoint := by
  simp only [compareCandidates, Ordering.then_eq_eq, Std.compare_eq_iff_eq]
  constructor
  · rintro ⟨hamount, htxid, hindex⟩
    refine ⟨hamount.symm, ?_⟩
    cases hab : a.outpoint
    cases hbb : b.outpoint
    simp_all
  · rintro ⟨hamount, houtpoint⟩
    exact ⟨hamount.symm, houtpoint ▸ rfl, houtpoint ▸ rfl⟩

/-- A candidate that is not behind another has at least its amount. -/
theorem amount_le_of_isLE (h : (compareCandidates a b).isLE) : b.amount.toNat ≤ a.amount.toNat := by
  rw [compareCandidates, Ordering.isLE_then_iff_and] at h
  exact UInt64.le_iff_toNat_le.mp (Std.isLE_compare.mp h.1)

/-- Candidates are sorted. -/
theorem pairwise_sortCandidates (utxos : List Utxo) :
    (sortCandidates utxos).Pairwise fun a b => (compareCandidates a b).isLE := by
  have hsort : sortCandidates utxos = utxos.insertionSort fun a b =>
      (compareCandidates a b).isLE := by
    unfold sortCandidates
    congr 1
    funext a b
    exact propext Ordering.isLE_iff_ne_gt.symm
  rw [hsort]
  exact pairwise_insertionSort_isLE compareCandidates utxos

/-- Sorting keeps the candidates. -/
theorem perm_sortCandidates (utxos : List Utxo) : (sortCandidates utxos).Perm utxos :=
  perm_insertionSort _ utxos

/-! ## The check for duplicates -/

section

variable {utxos : List Utxo}

/-- Neighbours with different outpoints are strictly ordered. -/
theorem pairwise_lt_sortCandidates
    (h : (sortCandidates utxos).IsChain fun a b => a.outpoint ≠ b.outpoint) :
    (sortCandidates utxos).Pairwise fun a b => compareCandidates a b = .lt := by
  have : IsTrans Utxo fun a b => compareCandidates a b = .lt := ⟨fun _ _ _ => Std.TransCmp.lt_trans⟩
  refine isChain_iff_pairwise.mp ?_
  refine isChain_iff_getElem.mpr fun i hi => ?_
  have hne := isChain_iff_getElem.mp h i hi
  have hle := pairwise_iff_getElem.mp (pairwise_sortCandidates utxos) i (i + 1) (by omega) hi
    (by omega)
  cases hcmp : compareCandidates (sortCandidates utxos)[i] (sortCandidates utxos)[i + 1] with
  | lt => rfl
  | eq => exact absurd (compareCandidates_eq_eq.mp hcmp).2 hne
  | gt =>
    rw [hcmp] at hle
    cases hle

/-- If entries with one outpoint have one amount, then duplicates are neighbours. -/
theorem isChain_sortCandidates_iff
    (hamounts : ∀ a ∈ utxos, ∀ b ∈ utxos, a.outpoint = b.outpoint → a.amount = b.amount) :
    ((sortCandidates utxos).IsChain fun a b => a.outpoint ≠ b.outpoint) ↔
      (utxos.map Utxo.outpoint).Nodup := by
  have hperm := perm_sortCandidates utxos
  rw [← (hperm.map Utxo.outpoint).nodup_iff, List.Nodup, pairwise_map]
  constructor
  · intro hchain
    refine (pairwise_lt_sortCandidates hchain).imp_of_mem fun {a b} ha hb hlt heq => ?_
    have hamount := hamounts a (hperm.subset ha) b (hperm.subset hb) heq
    rw [compareCandidates_eq_eq.mpr ⟨hamount, heq⟩] at hlt
    cases hlt
  · exact List.Pairwise.isChain

/-- Without duplicates the order of the candidates is determined by the set of entries. -/
theorem sortCandidates_eq_of_perm {utxos' : List Utxo} (hperm : utxos'.Perm utxos)
    (hnodup : (utxos.map Utxo.outpoint).Nodup) : sortCandidates utxos' = sortCandidates utxos := by
  have hsame : (sortCandidates utxos').Perm (sortCandidates utxos) :=
    (perm_sortCandidates utxos').trans (hperm.trans (perm_sortCandidates utxos).symm)
  refine hsame.eq_of_pairwise (fun a b ha hb hab hba => ?_) (pairwise_sortCandidates utxos')
    (pairwise_sortCandidates utxos)
  have hcmp : compareCandidates a b = .eq := Std.OrientedCmp.isLE_antisymm hab hba
  have ha' := (perm_sortCandidates utxos).subset (hsame.subset ha)
  have hb' := (perm_sortCandidates utxos).subset hb
  exact inj_on_of_nodup_map hnodup ha' hb' (compareCandidates_eq_eq.mp hcmp).2

end

/-! ## What is selected -/

/-- The loop takes a nonempty beginning of the remaining candidates: its amounts reach the target,
and they do not without its last entry. -/
theorem takeCandidates_eq_ok {total' : UInt64} {selected' : List Utxo}
    (h : takeCandidates target rest selected total = .ok (selected', total'))
    (hlow : total < target) :
    ∃ taken last left, rest = taken ++ last :: left ∧ selected' = selected ++ (taken ++ [last]) ∧
      total'.toNat = total.toNat + sumAmounts (taken ++ [last]) ∧ target ≤ total' ∧
      total.toNat + sumAmounts taken < target.toNat := by
  induction rest generalizing selected total with
  | nil => cases h
  | cons utxo rest ih =>
    simp only [takeCandidates, ok_iff, checkedAdd_eq_some] at h
    obtain ⟨next, hnext, h⟩ := h
    split at h
    · rename_i hreached
      simp only [ok_iff, Prod.mk.injEq] at h
      obtain ⟨rfl, rfl⟩ := h
      refine ⟨[], utxo, rest, rfl, rfl, ?_, hreached, UInt64.lt_iff_toNat_lt.mp hlow⟩
      rw [hnext, nil_append, sumAmounts, map_singleton, sum_singleton]
    · rename_i hreached
      obtain ⟨taken, last, left, rfl, rfl, htotal, htarget, hbelow⟩ :=
        ih h (UInt64.not_le.mp hreached)
      refine ⟨utxo :: taken, last, left, rfl, ?_, ?_, htarget, ?_⟩
      · rw [append_assoc, singleton_append, cons_append]
      · rw [htotal, hnext, cons_append, sumAmounts, sumAmounts, map_cons, sum_cons,
          Nat.add_assoc]
      · rw [hnext] at hbelow
        rw [sumAmounts, map_cons, sum_cons, ← Nat.add_assoc]
        exact hbelow

/-- The loop succeeds when a beginning of the remaining candidates reaches the target without
overflow. -/
theorem exists_takeCandidates_eq_ok {taken : List Utxo} (hlow : total < target)
    (htaken : taken <+: rest) (hreached : target.toNat ≤ total.toNat + sumAmounts taken)
    (hbound : total.toNat + sumAmounts taken < 2 ^ 64) :
    ∃ result, takeCandidates target rest selected total = .ok result := by
  induction rest generalizing selected total taken with
  | nil =>
    rw [prefix_nil.mp htaken] at hreached
    exact absurd hreached (not_le.mpr (UInt64.lt_iff_toNat_lt.mp hlow))
  | cons utxo rest ih =>
    rcases prefix_cons_iff.mp htaken with rfl | ⟨more, rfl, hmore⟩
    · exact absurd hreached (not_le.mpr (UInt64.lt_iff_toNat_lt.mp hlow))
    · rw [sumAmounts, map_cons, sum_cons, ← Nat.add_assoc] at hreached hbound
      have hnext : (total + utxo.amount).toNat = total.toNat + utxo.amount.toNat := by
        rw [UInt64.toNat_add, Nat.mod_eq_of_lt (by omega)]
      rw [takeCandidates, checkedAdd_eq_some.mpr hnext, okOr_some, ok_bind]
      split_ifs with hdone
      · exact ⟨_, rfl⟩
      · rw [← hnext] at hreached hbound
        exact ih (UInt64.not_le.mp hdone) hmore hreached hbound

/-- What a successful selection says, whether or not outpoints are listed twice: the total is the
sum of the selected amounts, the target is reached with the last entry only, and no choice of fewer
entries reaches it. -/
theorem selectUtxos_eq_ok {utxos : List Utxo} (htarget : 0 < target)
    (h : selectUtxos utxos target = .ok (selected, total)) :
    selected.Subperm utxos ∧ total.toNat = sumAmounts selected ∧ target ≤ total ∧
      sumAmounts selected.dropLast < target.toNat ∧
      ∀ fewer : List Utxo, fewer.Subperm utxos → fewer.length < selected.length →
        sumAmounts fewer < target.toNat := by
  simp only [selectUtxos_eq, bind_eq_ok, ensure_eq_ok, exists_const] at h
  obtain ⟨-, hselect⟩ := h
  obtain ⟨taken, last, left, hsorted, hselected, htotal, hreached, hbelow⟩ :=
    takeCandidates_eq_ok hselect htarget
  have hperm := perm_sortCandidates utxos
  rw [nil_append] at hselected
  rw [UInt64.toNat_zero, Nat.zero_add] at htotal hbelow
  subst hselected
  refine ⟨?_, htotal, hreached, by rwa [dropLast_concat], fun fewer hsub hlength => ?_⟩
  · refine (List.Sublist.subperm ?_).trans hperm.subperm
    rw [hsorted, append_cons taken last left]
    exact sublist_append_left _ _
  · have hdescending := (pairwise_sortCandidates utxos).imp fun h => amount_le_of_isLE h
    have hle := sum_subperm_le_sum_take hdescending (hsub.trans hperm.symm.subperm)
      (k := taken.length) (by rw [length_append, length_singleton] at hlength; omega)
    rw [hsorted, take_left] at hle
    exact lt_of_le_of_lt hle hbelow

/-- A duplicate outpoint that the check overlooks in a selection: no two neighbours of the sorted
entries have one outpoint, and a beginning of them reaches the target without overflow. -/
def Overlooked (utxos : List Utxo) (target : UInt64) : Prop :=
  ¬(utxos.map Utxo.outpoint).Nodup ∧
    ((sortCandidates utxos).IsChain fun a b => a.outpoint ≠ b.outpoint) ∧
    ∃ taken ∈ (sortCandidates utxos).inits,
      target.toNat ≤ sumAmounts taken ∧ sumAmounts taken < 2 ^ 64

instance (utxos : List Utxo) (target : UInt64) : Decidable (Overlooked utxos target) := by
  unfold Overlooked
  infer_instance

/-- No duplicate is overlooked when entries with one outpoint have one amount. -/
theorem not_overlooked {utxos : List Utxo}
    (hamounts : ∀ a ∈ utxos, ∀ b ∈ utxos, a.outpoint = b.outpoint → a.amount = b.amount) :
    ¬Overlooked utxos target := by
  rintro ⟨hduplicate, hchain, -⟩
  exact hduplicate ((isChain_sortCandidates_iff hamounts).mp hchain)

/-- A selection from entries with a duplicate outpoint succeeds exactly when the duplicate is
overlooked. -/
theorem exists_selectUtxos_eq_ok_iff {utxos : List Utxo} (htarget : 0 < target)
    (hduplicate : ¬(utxos.map Utxo.outpoint).Nodup) :
    (∃ result, selectUtxos utxos target = .ok result) ↔ Overlooked utxos target := by
  simp only [selectUtxos_eq, bind_eq_ok, ensure_eq_ok, exists_const]
  constructor
  · rintro ⟨⟨selected, total⟩, hchain, hselect⟩
    obtain ⟨taken, last, left, hsorted, -, htotal, hreached, -⟩ :=
      takeCandidates_eq_ok hselect htarget
    rw [UInt64.toNat_zero, Nat.zero_add] at htotal
    refine ⟨hduplicate, hchain, taken ++ [last], (mem_inits _ _).mpr ⟨left, ?_⟩, ?_, ?_⟩
    · rw [hsorted, append_assoc, singleton_append]
    · exact htotal ▸ UInt64.le_iff_toNat_le.mp hreached
    · exact htotal ▸ total.toNat_lt
  · rintro ⟨-, hchain, taken, htaken, hreached, hbound⟩
    obtain ⟨result, hresult⟩ := exists_takeCandidates_eq_ok htarget ((mem_inits _ _).mp htaken)
      (by rwa [UInt64.toNat_zero, Nat.zero_add]) (by rwa [UInt64.toNat_zero, Nat.zero_add])
    exact ⟨result, hchain, hresult⟩

/-- A duplicate outpoint is an error exactly when it is not overlooked, and without one the result
does not depend on the order of the entries. A successful selection has the exact total, reaches the
target with its last entry only, and has the least number of entries. -/
theorem selectUtxos_minimal (utxos : List Utxo) (target : UInt64) (htarget : 0 < target) :
    ((¬(utxos.map Utxo.outpoint).Nodup → ∃ error, selectUtxos utxos target = .error error) ↔
      ¬Overlooked utxos target) ∧
    ((utxos.map Utxo.outpoint).Nodup →
      (∀ utxos' : List Utxo, utxos'.Perm utxos →
        selectUtxos utxos' target = selectUtxos utxos target) ∧
      ∀ selected total, selectUtxos utxos target = .ok (selected, total) →
        selected.Subperm utxos ∧ total.toNat = sumAmounts selected ∧ target ≤ total ∧
          sumAmounts selected.dropLast < target.toNat ∧
          ∀ fewer : List Utxo, fewer.Subperm utxos → fewer.length < selected.length →
            sumAmounts fewer < target.toNat) := by
  refine ⟨⟨fun hfails hoverlooked => ?_, fun hfound hduplicate => ?_⟩,
    fun hnodup => ⟨fun utxos' hperm => ?_, fun _ _ h => ?_⟩⟩
  · obtain ⟨error, herror⟩ := hfails hoverlooked.1
    obtain ⟨result, hok⟩ := (exists_selectUtxos_eq_ok_iff htarget hoverlooked.1).mpr hoverlooked
    rw [hok] at herror
    cases herror
  · rw [← exists_selectUtxos_eq_ok_iff htarget hduplicate] at hfound
    cases hrun : selectUtxos utxos target with
    | error error => exact ⟨error, rfl⟩
    | ok result => exact absurd ⟨result, hrun⟩ hfound
  · rw [selectUtxos_eq, selectUtxos_eq, sortCandidates_eq_of_perm hperm hnodup]
  · exact selectUtxos_eq_ok htarget h

/-- Three coins of one wallet. -/
def threeCoins : List Utxo :=
  [⟨⟨"a", 0⟩, "wallet", 3, false, 1⟩, ⟨⟨"b", 0⟩, "wallet", 5, false, 1⟩,
    ⟨⟨"c", 0⟩, "wallet", 4, false, 1⟩]

/-- One outpoint listed with two amounts. -/
def twoAmounts : List Utxo :=
  [⟨⟨"a", 0⟩, "wallet", 5, false, 1⟩, ⟨⟨"b", 0⟩, "wallet", 4, false, 1⟩,
    ⟨⟨"a", 0⟩, "wallet", 3, false, 1⟩]

/-- Two of three coins reach 8, no single one does; a target that the coins do not reach is refused
whatever their outpoints. -/
theorem selectUtxos_minimal_threeCoins :
    (∃ selected, selectUtxos threeCoins 8 = .ok (selected, 9) ∧
      ∀ fewer : List Utxo, fewer.Subperm threeCoins → fewer.length < selected.length →
        sumAmounts fewer < 8) ∧
    ∃ error, selectUtxos twoAmounts 20 = .error error := by
  refine ⟨?_, (selectUtxos_minimal twoAmounts 20 (by decide)).1.mpr (by decide +kernel)
    (by decide +kernel)⟩
  have hrun : ((selectUtxos threeCoins 8).toOption.map Prod.snd) = some 9 := by decide +kernel
  obtain ⟨⟨selected, _⟩, hselect, rfl⟩ := Option.map_eq_some_iff.mp hrun
  have hselect := eq_ok_of_toOption hselect
  have hdistinct := (selectUtxos_minimal threeCoins 8 (by decide)).2 (by decide +kernel)
  obtain ⟨-, -, -, -, hleast⟩ := hdistinct.2 selected 9 hselect
  exact ⟨selected, hselect, hleast⟩

/-- An entry between the two keeps them from being neighbours: both are selected. -/
theorem selectUtxos_spends_twice :
    ¬(twoAmounts.map Utxo.outpoint).Nodup ∧ selectUtxos twoAmounts 12 = .ok (twoAmounts, 12) :=
  ⟨by decide +kernel, eq_ok_of_toOption (by decide +kernel)⟩

end PulseDag
