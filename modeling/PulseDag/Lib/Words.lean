import Mathlib

/-!
# Machine words

Saturating and checked arithmetic on 64-bit words, described by the natural numbers the
words stand for.
-/

namespace PulseDag

/-- `u64::saturating_add`. -/
def saturatingAdd (a b : UInt64) : UInt64 :=
  UInt64.ofNat (min (a.toNat + b.toNat) (2 ^ 64 - 1))

/-- `u64::saturating_sub`. -/
def saturatingSub (a b : UInt64) : UInt64 := if a ≤ b then 0 else a - b

/-- The sum up to the greatest word. -/
theorem saturatingAdd_toNat (a b : UInt64) :
    (saturatingAdd a b).toNat = min (a.toNat + b.toNat) (2 ^ 64 - 1) := by
  rw [saturatingAdd, UInt64.toNat_ofNat']
  exact Nat.mod_eq_of_lt (by omega)

/-- `u64::saturating_mul`. -/
def saturatingMul (a b : UInt64) : UInt64 := UInt64.ofNat (min (a.toNat * b.toNat) (2 ^ 64 - 1))

/-- The product up to the greatest word. -/
theorem saturatingMul_toNat (a b : UInt64) :
    (saturatingMul a b).toNat = min (a.toNat * b.toNat) (2 ^ 64 - 1) := by
  rw [saturatingMul, UInt64.toNat_ofNat']
  exact Nat.mod_eq_of_lt (by omega)

/-- `u32::saturating_sub`. -/
def saturatingSubU32 (a b : UInt32) : UInt32 := if a ≤ b then 0 else a - b

/-- The truncated difference. -/
theorem saturatingSubU32_toNat (a b : UInt32) :
    (saturatingSubU32 a b).toNat = a.toNat - b.toNat := by
  unfold saturatingSubU32
  split
  · rename_i hle
    rw [UInt32.le_iff_toNat_le] at hle
    rw [UInt32.toNat_zero]
    omega
  · rename_i hle
    rw [UInt32.le_iff_toNat_le] at hle
    exact UInt32.toNat_sub_of_le _ _ (UInt32.le_iff_toNat_le.mpr (by omega))

/-- The maximum as a number. -/
theorem toNat_max (a b : UInt64) : (max a b).toNat = max a.toNat b.toNat := by
  rw [UInt64.max_def]
  split <;> rename_i h <;> rw [UInt64.le_iff_toNat_le] at h <;> omega

/-- The minimum as a number. -/
theorem toNat_min (a b : UInt64) : (min a b).toNat = min a.toNat b.toNat := by
  rw [UInt64.min_def]
  split <;> rename_i h <;> rw [UInt64.le_iff_toNat_le] at h <;> omega

/-- `u64::checked_add`. -/
def checkedAdd (a b : UInt64) : Option UInt64 :=
  if a.toNat + b.toNat < 2 ^ 64 then some (a + b) else none

/-- A checked sum is exact. -/
theorem checkedAdd_eq_some {a b c : UInt64} :
    checkedAdd a b = some c ↔ c.toNat = a.toNat + b.toNat := by
  have hadd : a.toNat + b.toNat < 2 ^ 64 → (a + b).toNat = a.toNat + b.toNat := fun h => by
    rw [UInt64.toNat_add, Nat.mod_eq_of_lt h]
  unfold checkedAdd
  constructor
  · intro h
    split at h
    · rename_i hlt
      rw [← Option.some.inj h, hadd hlt]
    · simp at h
  · intro h
    have hlt : a.toNat + b.toNat < 2 ^ 64 := h ▸ UInt64.toNat_lt c
    rw [if_pos hlt, Option.some.injEq, ← UInt64.toNat_inj, hadd hlt, h]

/-- `u64::checked_sub`. -/
def checkedSub (a b : UInt64) : Option UInt64 := if b ≤ a then some (a - b) else none

/-- A checked difference is exact. -/
theorem checkedSub_eq_some {a b c : UInt64} :
    checkedSub a b = some c ↔ a.toNat = b.toNat + c.toNat := by
  unfold checkedSub
  constructor
  · intro h
    split at h
    · rename_i hle
      rw [← Option.some.inj h, UInt64.toNat_sub_of_le _ _ hle]
      rw [UInt64.le_iff_toNat_le] at hle
      omega
    · simp at h
  · intro h
    have hle : b ≤ a := UInt64.le_iff_toNat_le.mpr (by omega)
    rw [if_pos hle, Option.some.injEq, ← UInt64.toNat_inj, UInt64.toNat_sub_of_le _ _ hle]
    omega

/-- `u64::try_from` on a wider unsigned integer. -/
def u64TryFrom (value : ℕ) : Option UInt64 :=
  if value < 2 ^ 64 then some (UInt64.ofNat value) else none

/-- A conversion is exact. -/
theorem u64TryFrom_eq_some {value : ℕ} {word : UInt64} :
    u64TryFrom value = some word ↔ word.toNat = value := by
  unfold u64TryFrom
  constructor
  · intro h
    split at h
    · rename_i hlt
      rw [← Option.some.inj h, UInt64.toNat_ofNat', Nat.mod_eq_of_lt hlt]
    · simp at h
  · rintro rfl
    rw [if_pos word.toNat_lt, UInt64.ofNat_toNat]

/-- A sum that is a word is computed. -/
theorem exists_checkedAdd {a b : UInt64} (h : a.toNat + b.toNat < 2 ^ 64) :
    ∃ c, checkedAdd a b = some c ∧ c.toNat = a.toNat + b.toNat := by
  have hadd : (a + b).toNat = a.toNat + b.toNat := by
    rw [UInt64.toNat_add, Nat.mod_eq_of_lt h]
  exact ⟨a + b, checkedAdd_eq_some.mpr hadd, hadd⟩

/-- A difference that is not negative is computed. -/
theorem exists_checkedSub {a b : UInt64} (h : b.toNat ≤ a.toNat) :
    ∃ c, checkedSub a b = some c ∧ c.toNat = a.toNat - b.toNat := by
  have hsub : (a - b).toNat = a.toNat - b.toNat :=
    UInt64.toNat_sub_of_le _ _ (UInt64.le_iff_toNat_le.mpr h)
  exact ⟨a - b, checkedSub_eq_some.mpr (by omega), hsub⟩

/-- A number below the bound is converted. -/
theorem exists_u64TryFrom {value : ℕ} (h : value < 2 ^ 64) :
    ∃ word, u64TryFrom value = some word ∧ word.toNat = value := by
  have hword : (UInt64.ofNat value).toNat = value := by
    rw [UInt64.toNat_ofNat', Nat.mod_eq_of_lt h]
  exact ⟨UInt64.ofNat value, u64TryFrom_eq_some.mpr hword, hword⟩

/-- `try_fold` with `checked_add`. -/
def checkedSum (start : UInt64) (values : List UInt64) : Option UInt64 :=
  values.foldlM checkedAdd start

/-- A checked sum over a list is exact. -/
theorem checkedSum_eq_some {start total : UInt64} {values : List UInt64} :
    checkedSum start values = some total ↔
      total.toNat = start.toNat + (values.map UInt64.toNat).sum := by
  induction values generalizing start with
  | nil => simp [checkedSum, ← UInt64.toNat_inj, eq_comm]
  | cons value rest ih =>
    have hstep : checkedSum start (value :: rest) =
        (checkedAdd start value).bind fun next => checkedSum next rest := rfl
    rw [hstep, Option.bind_eq_some_iff, List.map_cons, List.sum_cons]
    constructor
    · rintro ⟨next, hnext, hrest⟩
      rw [checkedAdd_eq_some] at hnext
      rw [ih] at hrest
      omega
    · intro h
      have hlt := UInt64.toNat_lt total
      have hnext : (UInt64.ofNat (start.toNat + value.toNat)).toNat =
          start.toNat + value.toNat := by
        rw [UInt64.toNat_ofNat', Nat.mod_eq_of_lt (by omega)]
      refine ⟨UInt64.ofNat (start.toNat + value.toNat), checkedAdd_eq_some.mpr hnext, ih.mpr ?_⟩
      omega

end PulseDag
