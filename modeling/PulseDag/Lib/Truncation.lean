import Mathlib

/-!
# Rounding down to a few digits

A number format with a mantissa of `places` digits in a base, of which the top one is kept below
`base / reserve`, and an unbounded exponent. Rounding down gives the largest representable number
that is not above the given one (`isGreatest_truncated`). So it is monotone and leaves representable
numbers as they are.
-/

namespace PulseDag

/-- A mantissa times `reserve` has `places` digits at most. -/
structure DigitFormat where
  base : ℕ
  places : ℕ
  reserve : ℕ
  one_lt_base : 1 < base
  places_pos : 0 < places
  reserve_pos : 0 < reserve
  reserve_dvd : reserve ∣ base ^ (places - 1)

namespace DigitFormat

variable (f : DigitFormat) {t s d e : ℕ}

/-- The numbers of the format. -/
def Representable (d : ℕ) : Prop := ∃ m k, f.reserve * m < f.base ^ f.places ∧ d = m * f.base ^ k

/-- The number of digits of `reserve * t`. -/
def width (t : ℕ) : ℕ := Nat.clog f.base (f.reserve * t + 1)

/-- The number of digits that are dropped. -/
def dropped (t : ℕ) : ℕ := f.width t - f.places

/-- The number without the digits that are dropped. -/
def truncated (t : ℕ) : ℕ := t / f.base ^ f.dropped t * f.base ^ f.dropped t

/-- Which numbers have at most a given width. -/
theorem width_le_iff : f.width t ≤ e ↔ f.reserve * t < f.base ^ e := by
  rw [width, Nat.clog_le_iff_le_pow f.one_lt_base, Nat.succ_le_iff]

/-- Which numbers have more than a given width. -/
theorem lt_width_iff : e < f.width t ↔ f.base ^ e ≤ f.reserve * t := by
  rw [← not_le, width_le_iff, not_lt]

/-- Greater numbers are at least as wide. -/
theorem width_mono (h : t ≤ s) : f.width t ≤ f.width s :=
  f.width_le_iff.mpr ((Nat.mul_le_mul_left _ h).trans_lt (f.width_le_iff.mp le_rfl))

/-- Powers of the base are positive. -/
theorem base_pow_pos (k : ℕ) : 0 < f.base ^ k := Nat.pow_pos (Nat.zero_lt_of_lt f.one_lt_base)

/-- The mantissa of a number fits. -/
theorem reserve_mul_div_lt (t : ℕ) :
    f.reserve * (t / f.base ^ f.dropped t) < f.base ^ f.places := by
  have hdigits : f.reserve * t < f.base ^ (f.places + f.dropped t) :=
    f.width_le_iff.mp (by rw [dropped]; omega)
  refine lt_of_mul_lt_mul_right ?_ (f.base_pow_pos (f.dropped t)).le
  calc f.reserve * (t / f.base ^ f.dropped t) * f.base ^ f.dropped t
      = f.reserve * (t / f.base ^ f.dropped t * f.base ^ f.dropped t) := Nat.mul_assoc _ _ _
    _ ≤ f.reserve * t := Nat.mul_le_mul_left _ (Nat.div_mul_le_self _ _)
    _ < f.base ^ f.places * f.base ^ f.dropped t := by rwa [← pow_add]

/-- Truncation gives a representable number. -/
theorem representable_truncated (t : ℕ) : f.Representable (f.truncated t) :=
  ⟨_, _, f.reserve_mul_div_lt t, rfl⟩

/-- Truncation rounds down. -/
theorem truncated_le (t : ℕ) : f.truncated t ≤ t := Nat.div_mul_le_self _ _

/-- If digits are dropped, then the number that is left still has the top digit. -/
theorem top_le_truncated (h : 0 < f.dropped t) :
    f.base ^ (f.width t - 1) ≤ f.reserve * f.truncated t := by
  obtain ⟨q, hq⟩ := f.reserve_dvd
  have hplaces := f.places_pos
  have hwidth : f.width t - 1 = f.places - 1 + f.dropped t := by
    rw [dropped] at h ⊢
    omega
  have htop : f.base ^ (f.width t - 1) ≤ f.reserve * t :=
    f.lt_width_iff.mp (by rw [dropped] at h; omega)
  have hsplit : f.base ^ (f.width t - 1) = f.reserve * (q * f.base ^ f.dropped t) := by
    rw [hwidth, pow_add, hq, Nat.mul_assoc]
  rw [hsplit] at htop ⊢
  refine Nat.mul_le_mul_left _ (Nat.mul_le_mul_right _ ?_)
  exact (Nat.le_div_iff_mul_le (f.base_pow_pos _)).mpr
    (Nat.le_of_mul_le_mul_left htop f.reserve_pos)

/-- A representable number below `t` is not above what is left of `t`. -/
theorem le_truncated (hd : f.Representable d) (h : d ≤ t) : d ≤ f.truncated t := by
  obtain ⟨m, k, hm, rfl⟩ := hd
  by_cases hk : f.dropped t ≤ k
  · -- The number is a multiple of the unit that is left.
    obtain ⟨j, rfl⟩ := Nat.exists_eq_add_of_le hk
    rw [pow_add, Nat.mul_left_comm, Nat.mul_comm] at h ⊢
    exact Nat.mul_le_mul_right _ ((Nat.le_div_iff_mul_le (f.base_pow_pos _)).mpr h)
  · -- The number has fewer digits.
    have htop := f.top_le_truncated (t := t) (by omega)
    have hfew : f.reserve * (m * f.base ^ k) < f.base ^ (f.places + k) := by
      rw [← Nat.mul_assoc, pow_add]
      exact Nat.mul_lt_mul_of_pos_right hm (f.base_pow_pos k)
    have hexponent : f.places + k ≤ f.width t - 1 := by
      rw [dropped] at hk
      omega
    have hle :=
      hfew.le.trans ((Nat.pow_le_pow_right (Nat.zero_lt_of_lt f.one_lt_base) hexponent).trans htop)
    exact Nat.le_of_mul_le_mul_left hle f.reserve_pos

/-- Truncation keeps the order. -/
theorem truncated_mono (h : t ≤ s) : f.truncated t ≤ f.truncated s :=
  f.le_truncated (f.representable_truncated t) ((f.truncated_le t).trans h)

/-- Representable numbers are kept. -/
theorem truncated_of_representable (h : f.Representable d) : f.truncated d = d :=
  le_antisymm (f.truncated_le d) (f.le_truncated h le_rfl)

/-- Truncation keeps the width. -/
theorem width_truncated (t : ℕ) : f.width (f.truncated t) = f.width t := by
  refine le_antisymm (f.width_mono (f.truncated_le t)) ?_
  by_cases h : 0 < f.dropped t
  · have hlt := f.lt_width_iff.mpr (f.top_le_truncated h)
    omega
  · rw [truncated, Nat.eq_zero_of_not_pos h]
    simp

/-- Less than a unit of the last place is dropped. -/
theorem lt_truncated_add (t : ℕ) : t < f.truncated t + f.base ^ f.dropped t :=
  Nat.lt_div_mul_add (f.base_pow_pos _)

/-- If digits are dropped, then a unit of the last place is small. -/
theorem unit_le (h : 0 < f.dropped t) :
    f.base ^ (f.places - 1) * f.base ^ f.dropped t ≤ f.reserve * t := by
  have hwidth : f.places - 1 + f.dropped t < f.width t := by
    have hplaces := f.places_pos
    rw [dropped] at h ⊢
    omega
  rw [← pow_add]
  exact f.lt_width_iff.mp hwidth

end DigitFormat

end PulseDag
