import PulseDag.Lib.Truncation
import PulseDag.Network.Pow

/-!
# Compact targets

Compact bits hold the number of bytes of a target and its three leading bytes, with a zero byte in
front of a top byte above `0x7f`. So encoding and decoding rounds a target down to such a mantissa
(`targetFromBits_bitsFromTarget`), except for the targets from `2 ^ 255` on, for which the decoder
reads the mantissa one byte too low.
-/

namespace PulseDag

/-- Three bytes, the top one below `0x80`. -/
def compactFormat : DigitFormat where
  base := 256
  places := 3
  reserve := 2
  one_lt_base := by decide
  places_pos := by decide
  reserve_pos := by decide
  reserve_dvd := by decide

/-! ## Encoding -/

variable {count target : ℕ}

/-- The leading zero bytes bound a target. -/
theorem lt_of_leading_zeros (htarget : target < 256 ^ 32) (hcount : count ≤ 32)
    (hzero : ∀ index < count, targetByte target index = 0) : target < 256 ^ (32 - count) := by
  induction count with
  | zero => exact htarget
  | succ count ih =>
    have hbefore := ih (by omega) fun index hindex => hzero index (by omega)
    have hbyte := hzero count (Nat.lt_succ_self count)
    have hexponent : 32 - count = 31 - count + 1 := by omega
    rw [targetByte] at hbyte
    rw [hexponent, pow_succ] at hbefore
    have hdiv : target / 256 ^ (31 - count) < 256 := Nat.div_lt_of_lt_mul hbefore
    rw [Nat.mod_eq_of_lt hdiv, Nat.div_eq_zero_iff] at hbyte
    have hlast : 32 - (count + 1) = 31 - count := by omega
    rw [hlast]
    exact hbyte.resolve_left (by positivity)

/-- The first byte that is not zero, counted from the end. -/
theorem exists_firstNonzero (hpos : 0 < target) (htarget : target < 256 ^ 32) :
    ∃ count, (List.range 32).find? (fun index => targetByte target index ≠ 0) = some (32 - count) ∧
      0 < count ∧ count ≤ 32 ∧ target < 256 ^ count ∧ 256 ^ (count - 1) ≤ target := by
  cases hfind : (List.range 32).find? fun index => targetByte target index ≠ 0 with
  | none =>
    rw [List.find?_eq_none] at hfind
    have hbound := lt_of_leading_zeros htarget le_rfl fun index hindex => by
      simpa using hfind index (List.mem_range.mpr hindex)
    omega
  | some first =>
    obtain ⟨hbyte, hmem, hbefore⟩ := List.find?_range_eq_some.mp hfind
    rw [List.mem_range] at hmem
    have hbound := lt_of_leading_zeros htarget hmem.le fun index hindex => by
      simpa using hbefore index hindex
    refine ⟨32 - first, by rw [Nat.sub_sub_self hmem.le], by omega, by omega, hbound, ?_⟩
    by_contra hsmall
    have hexponent : 32 - first - 1 = 31 - first := by omega
    rw [hexponent, not_le] at hsmall
    rw [targetByte, Nat.div_eq_of_lt hsmall] at hbyte
    simp at hbyte

/-- The bytes from the first one on, as many as a mantissa has, zeros after the last one. -/
theorem leadingByte_eq {offset : ℕ} (hcount : 0 < count) (hle : count ≤ 32) (hoffset : offset ≤ 2) :
    (if 32 - count + offset < 32 then targetByte target (32 - count + offset) else 0) =
      target * 256 ^ 3 / 256 ^ count / 256 ^ (2 - offset) % 256 := by
  rw [Nat.div_div_eq_div_mul, ← pow_add]
  split
  · next hinside =>
    have hexponent : count + (2 - offset) = 31 - (32 - count + offset) + 3 := by omega
    rw [targetByte, hexponent, pow_add, Nat.mul_div_mul_right _ _ (by positivity)]
  · next houtside =>
    obtain ⟨rest, hrest⟩ := Nat.exists_eq_add_of_le (show count ≤ offset by omega)
    have hexponent : (256 : ℕ) ^ 3 = 256 ^ (rest + 1) * 256 ^ (count + (2 - offset)) := by
      rw [← pow_add]
      congr 1
      omega
    rw [hexponent, ← Nat.mul_assoc, Nat.mul_div_cancel _ (by positivity), pow_succ, ← Nat.mul_assoc,
      Nat.mul_mod_left]

/-- The width of a target with a given number of bytes. -/
theorem width_eq (hcount : 0 < count) (hupper : target < 256 ^ count)
    (hlower : 256 ^ (count - 1) ≤ target) :
    compactFormat.width target = if 2 * target < 256 ^ count then count else count + 1 := by
  have hpow : (256 : ℕ) ^ (count + 1) = 256 * 256 ^ count := pow_succ' 256 count
  have hle : ∀ e, compactFormat.width target ≤ e ↔ 2 * target < 256 ^ e := fun _ =>
    compactFormat.width_le_iff
  have hlt : ∀ e, e < compactFormat.width target ↔ 256 ^ e ≤ 2 * target := fun _ =>
    compactFormat.lt_width_iff
  split
  · next hshort =>
    have hmost := (hle count).mpr hshort
    have hleast := (hlt (count - 1)).mpr (by omega)
    omega
  · next hlong =>
    have hmost := (hle (count + 1)).mpr (by omega)
    have hleast := (hlt count).mpr (by omega)
    omega

/-- The bits hold the width of the target and its mantissa. -/
theorem toNat_bitsFromTarget (hpos : 0 < target) (htarget : target < 256 ^ 32) :
    (bitsFromTarget target).toNat = 2 ^ 24 * compactFormat.width target +
      target * 256 ^ 3 / 256 ^ compactFormat.width target := by
  obtain ⟨count, hfind, hcount, hle, hupper, hlower⟩ := exists_firstNonzero hpos htarget
  have hbyte : ∀ offset ≤ 2,
      (if 32 - count + offset < 32 then targetByte target (32 - count + offset) else 0) =
        target * 256 ^ 3 / 256 ^ count / 256 ^ (2 - offset) % 256 := fun _ hoffset =>
    leadingByte_eq hcount hle hoffset
  have hlead : target * 256 ^ 3 / 256 ^ count < 2 ^ 24 := by
    refine Nat.div_lt_of_lt_mul ?_
    have hcube : (256 : ℕ) ^ 3 = 2 ^ 24 := by norm_num
    rw [hcube]
    exact Nat.mul_lt_mul_of_pos_right hupper (by positivity)
  have hshort : 2 * target < 256 ^ count ↔ target * 256 ^ 3 / 256 ^ count < 2 ^ 23 := by
    rw [Nat.div_lt_iff_lt_mul (by positivity)]
    omega
  have htop := hbyte 0 (by decide)
  have hnext := hbyte 1 (by decide)
  have hlast := hbyte 2 (by decide)
  have hlong : target * 256 ^ 3 / 256 ^ (count + 1) = target * 256 ^ 3 / 256 ^ count / 256 := by
    rw [Nat.div_div_eq_div_mul, pow_succ 256 count]
  rw [if_pos (by omega), Nat.add_zero] at htop
  rw [width_eq hcount hupper hlower, bitsFromTarget, hfind]
  dsimp only
  rw [hnext, hlast, htop, UInt32.toNat_ofNat']
  norm_num only at hlead hshort ⊢
  by_cases hsmall : 2 * target < 256 ^ count
  · have hlead' := hshort.mp hsmall
    rw [if_pos hsmall]
    generalize target * 16777216 / 256 ^ count = lead at hlead hlead' ⊢
    rw [if_neg (by omega)]
    omega
  · have hlead' := (not_congr hshort).mp hsmall
    norm_num only at hlong
    rw [if_neg hsmall, hlong]
    generalize target * 16777216 / 256 ^ count = lead at hlead hlead' ⊢
    rw [if_pos (by omega)]
    omega

/-! ## Decoding -/

/-- What bits with an exponent decode to. -/
theorem targetFromBits_eq {bits : UInt32} (h : bits.toNat / 2 ^ 24 ≠ 0) :
    targetFromBits bits =
      if bits.toNat / 2 ^ 24 ≤ 3 then bits.toNat % 2 ^ 23 / 256 ^ (3 - bits.toNat / 2 ^ 24)
      else bits.toNat % 2 ^ 23 * 256 ^ (min (bits.toNat / 2 ^ 24) 32 - 3) := by
  have hpow : ∀ k, (2 : ℕ) ^ (8 * k) = 256 ^ k := fun k => by rw [pow_mul]; norm_num
  rw [targetFromBits, if_neg h]
  generalize bits.toNat / 2 ^ 24 = exponent at *
  generalize bits.toNat % 2 ^ 23 = mantissa at *
  by_cases hzero : mantissa = 0
  · simp [hzero]
  · rw [if_neg hzero]
    split
    · rw [hpow]
    · have hstart : ¬(32 - exponent ≥ 32 ∨ 32 - exponent + 3 > 32) := by omega
      have hshift : 29 - (32 - exponent) = min exponent 32 - 3 := by omega
      rw [if_neg hstart, hpow, hshift]

/-- Numbers of at most 23 bits are mantissas. -/
theorem reserve_mul_lt {m : ℕ} (h : m < 2 ^ 23) :
    compactFormat.reserve * m < compactFormat.base ^ compactFormat.places := by
  show 2 * m < 256 ^ 3
  omega

/-- What is decoded is representable. -/
theorem representable_targetFromBits {bits : UInt32} (h : bits.toNat / 2 ^ 24 ≠ 0) :
    compactFormat.Representable (targetFromBits bits) := by
  have hmantissa : bits.toNat % 2 ^ 23 < 2 ^ 23 := Nat.mod_lt _ (by decide)
  rw [targetFromBits_eq h]
  split
  · exact ⟨_, 0, reserve_mul_lt ((Nat.div_le_self _ _).trans_lt hmantissa), (Nat.mul_one _).symm⟩
  · exact ⟨_, _, reserve_mul_lt hmantissa, rfl⟩

/-- The mantissa of a target. -/
theorem mantissa_lt (target : ℕ) :
    target * 256 ^ 3 / 256 ^ compactFormat.width target < 2 ^ 23 := by
  have hwidth : 2 * target < 256 ^ compactFormat.width target :=
    compactFormat.width_le_iff.mp le_rfl
  refine Nat.div_lt_of_lt_mul ?_
  omega

/-- Encoding and decoding rounds down, for the targets below `2 ^ 255`. -/
theorem targetFromBits_bitsFromTarget (hpos : 0 < target) (htarget : target < 2 ^ 255) :
    targetFromBits (bitsFromTarget target) = compactFormat.truncated target := by
  have hbits := toNat_bitsFromTarget hpos (by omega)
  have hmantissa := mantissa_lt target
  have hmost : compactFormat.width target ≤ 32 := compactFormat.width_le_iff.mpr (by
    show 2 * target < 256 ^ 32
    omega)
  have hleast : 0 < compactFormat.width target := compactFormat.lt_width_iff.mpr (by
    show 256 ^ 0 ≤ 2 * target
    omega)
  have hdropped : compactFormat.dropped target = compactFormat.width target - 3 := rfl
  have hbase : compactFormat.base = 256 := rfl
  rw [DigitFormat.truncated, hdropped, hbase]
  generalize compactFormat.width target = width at *
  have hsplit : (bitsFromTarget target).toNat / 2 ^ 24 = width ∧
      (bitsFromTarget target).toNat % 2 ^ 23 = target * 256 ^ 3 / 256 ^ width := by
    generalize target * 256 ^ 3 / 256 ^ width = mantissa at hbits hmantissa ⊢
    omega
  obtain ⟨hexponent, hlow⟩ := hsplit
  rw [targetFromBits_eq (by omega), hexponent, hlow]
  split
  · next hshort =>
    have hcube : (256 : ℕ) ^ 3 = 256 ^ (3 - width) * 256 ^ width := by
      rw [← pow_add, Nat.sub_add_cancel hshort]
    rw [Nat.sub_eq_zero_of_le hshort, hcube, ← Nat.mul_assoc, Nat.mul_div_cancel _ (by positivity),
      Nat.mul_div_cancel _ (by positivity)]
    simp
  · next hlong =>
    have hpow : (256 : ℕ) ^ width = 256 ^ (width - 3) * 256 ^ 3 := by
      rw [← pow_add, Nat.sub_add_cancel (by omega)]
    rw [min_eq_left hmost, hpow, Nat.mul_div_mul_right _ _ (by positivity)]

/-- A target has the bits of what is left of it. -/
theorem bitsFromTarget_truncated (hpos : 0 < target) (htarget : target < 256 ^ 32) :
    bitsFromTarget (compactFormat.truncated target) = bitsFromTarget target := by
  have hone : compactFormat.Representable 1 := ⟨1, 0, by decide, rfl⟩
  have hleft : 0 < compactFormat.truncated target := compactFormat.le_truncated hone hpos
  have hle := compactFormat.truncated_le target
  refine UInt32.toNat_inj.mp ?_
  rw [toNat_bitsFromTarget hleft (hle.trans_lt htarget), toNat_bitsFromTarget hpos htarget,
    compactFormat.width_truncated]
  have hdropped : compactFormat.dropped target = compactFormat.width target - 3 := rfl
  have hbase : compactFormat.base = 256 := rfl
  rw [DigitFormat.truncated, hdropped, hbase, Nat.add_left_cancel_iff]
  generalize compactFormat.width target = width
  rcases Nat.le_total width 3 with hshort | hlong
  · rw [Nat.sub_eq_zero_of_le hshort]
    simp
  · have hpow : (256 : ℕ) ^ width = 256 ^ (width - 3) * 256 ^ 3 := by
      rw [← pow_add, Nat.sub_add_cancel hlong]
    rw [hpow, Nat.mul_div_mul_right _ _ (by positivity), Nat.mul_div_mul_right _ _ (by positivity),
      Nat.mul_div_cancel _ (by positivity)]

/-- A larger exponent outweighs the mantissa. -/
theorem encoded_le {e e' m m' : ℕ} (h : e < e') (hm : m < 2 ^ 23) :
    2 ^ 24 * e + m ≤ 2 ^ 24 * e' + m' := by
  omega

/-- Larger targets have larger bits. -/
theorem bitsFromTarget_mono {other : ℕ} (hpos : 0 < target) (h : target ≤ other)
    (hother : other < 256 ^ 32) : bitsFromTarget target ≤ bitsFromTarget other := by
  have hwidth := compactFormat.width_mono h
  have hmantissa := mantissa_lt target
  rw [UInt32.le_iff_toNat_le, toNat_bitsFromTarget hpos (h.trans_lt hother),
    toNat_bitsFromTarget (hpos.trans_le h) hother]
  rcases hwidth.eq_or_lt with heq | hlt
  · have hscaled : target * 256 ^ 3 / 256 ^ compactFormat.width target ≤
        other * 256 ^ 3 / 256 ^ compactFormat.width target :=
      Nat.div_le_div_right (Nat.mul_le_mul_right _ h)
    rw [← heq]
    omega
  · exact encoded_le hlt hmantissa

/-- The targets that bits with an exponent decode to. -/
def compactTargets : Set ℕ := {d | ∃ bits : UInt32, bits.toNat / 2 ^ 24 ≠ 0 ∧
    targetFromBits bits = d}

/-- A target from `2 ^ 255` on has an exponent of 33, which is decoded as if it were 32. -/
theorem targetFromBits_bitsFromTarget_lt (htop : 2 ^ 255 ≤ target) (htarget : target < 2 ^ 256) :
    targetFromBits (bitsFromTarget target) < 0x7fffff * 256 ^ 29 := by
  have hbits := toNat_bitsFromTarget (by omega) htarget
  have hwidth : compactFormat.width target = 33 := by
    refine le_antisymm (compactFormat.width_le_iff.mpr ?_) (compactFormat.lt_width_iff.mpr ?_)
    · show 2 * target < 256 ^ 33
      omega
    · show 256 ^ 32 ≤ 2 * target
      omega
  have hmantissa : target * 256 ^ 3 / 256 ^ 33 < 2 ^ 16 := Nat.div_lt_of_lt_mul (by omega)
  rw [hwidth] at hbits
  generalize target * 256 ^ 3 / 256 ^ 33 = mantissa at hbits hmantissa
  have hexponent : (bitsFromTarget target).toNat / 2 ^ 24 = 33 := by omega
  have hlow : (bitsFromTarget target).toNat % 2 ^ 23 = mantissa := by omega
  rw [targetFromBits_eq (by omega), hexponent, hlow]
  exact Nat.mul_lt_mul_of_pos_right (by omega) (by decide)

/-- Below `2 ^ 255` a target is decoded to at most itself, in the order of the targets, and to what
is encoded alike. -/
theorem decoded_below {target : ℕ} (hpos : 0 < target) (htarget : target < 2 ^ 255) :
    targetFromBits (bitsFromTarget target) ≤ target ∧
      (∀ other, target ≤ other → other < 2 ^ 255 →
        targetFromBits (bitsFromTarget target) ≤ targetFromBits (bitsFromTarget other)) ∧
      bitsFromTarget (targetFromBits (bitsFromTarget target)) = bitsFromTarget target := by
  have hdecoded := targetFromBits_bitsFromTarget hpos htarget
  refine ⟨hdecoded ▸ compactFormat.truncated_le target, fun other hother hbound => ?_, ?_⟩
  · rw [hdecoded, targetFromBits_bitsFromTarget (hpos.trans_le hother) hbound]
    exact compactFormat.truncated_mono hother
  · rw [hdecoded]
    exact bitsFromTarget_truncated hpos (by omega)

/-- The law of compact targets: it holds for the targets below `2 ^ 255`, and for no others. -/
theorem compactTarget_law {target : ℕ} (hpos : 0 < target) (htarget : target < 2 ^ 256) :
    (IsGreatest {d | d ≤ target ∧ d ∈ compactTargets} (targetFromBits (bitsFromTarget target)) ↔
      target < 2 ^ 255) ∧
    (target < 2 ^ 255 → targetFromBits (bitsFromTarget target) ≤ target ∧
      (∀ other, target ≤ other → other < 2 ^ 255 →
        targetFromBits (bitsFromTarget target) ≤ targetFromBits (bitsFromTarget other)) ∧
      bitsFromTarget (targetFromBits (bitsFromTarget target)) = bitsFromTarget target) := by
  refine ⟨⟨fun hgreatest => ?_, fun hlow => ?_⟩, decoded_below hpos⟩
  · -- what the largest exponent decodes to is not above a target from `2 ^ 255` on
    by_contra htop
    have hlimit : targetFromBits 0x207fffff = 0x7fffff * 256 ^ 29 := by decide +kernel
    have hbest := hgreatest.2 ⟨show 0x7fffff * 256 ^ 29 ≤ target by omega, 0x207fffff, by decide,
      hlimit⟩
    exact absurd (targetFromBits_bitsFromTarget_lt (not_lt.mp htop) htarget) (not_lt.mpr hbest)
  · have hdecoded := targetFromBits_bitsFromTarget hpos hlow
    refine ⟨⟨(decoded_below hpos hlow).1, bitsFromTarget target, ?_, rfl⟩, ?_⟩
    · have hbits := toNat_bitsFromTarget hpos htarget
      have hleast : 0 < compactFormat.width target := compactFormat.lt_width_iff.mpr (by
        show 256 ^ 0 ≤ 2 * target
        omega)
      generalize target * 256 ^ 3 / 256 ^ compactFormat.width target = mantissa at hbits
      omega
    · rintro d ⟨hd, bits, hbits, rfl⟩
      rw [hdecoded]
      exact compactFormat.le_truncated (representable_targetFromBits hbits) hd

/-- The law at a target with all kinds of bytes. -/
theorem compactTarget_law_sample : 0 < 0x80ff01 * 256 ^ 20 ∧ 0x80ff01 * 256 ^ 20 < 2 ^ 255 ∧
    targetFromBits (bitsFromTarget (0x80ff01 * 256 ^ 20)) = 0x80ff * 256 ^ 21 ∧
    IsGreatest {d | d ≤ 0x80ff01 * 256 ^ 20 ∧ d ∈ compactTargets}
      (targetFromBits (bitsFromTarget (0x80ff01 * 256 ^ 20))) :=
  ⟨by norm_num, by norm_num, by decide +kernel,
    (compactTarget_law (by norm_num) (by norm_num)).1.mpr (by norm_num)⟩

/-- The target `2 ^ 255` is decoded 256 times too small, below what smaller targets are decoded
to. -/
theorem compactTarget_topBit :
    targetFromBits (bitsFromTarget (2 ^ 255)) = 2 ^ 247 ∧
      ¬IsGreatest {d | d ≤ 2 ^ 255 ∧ d ∈ compactTargets}
      (targetFromBits (bitsFromTarget (2 ^ 255))) ∧
      targetFromBits (bitsFromTarget (2 ^ 255)) < targetFromBits
      (bitsFromTarget (2 ^ 255 - 1)) := by
  have hdecoded : targetFromBits (bitsFromTarget (2 ^ 255)) = 2 ^ 247 := by decide +kernel
  have hlimit : targetFromBits 0x207fffff = 0x7fffff * 256 ^ 29 := by decide +kernel
  have hbelow : targetFromBits (bitsFromTarget (2 ^ 255 - 1)) = 0x7fffff * 256 ^ 29 := by
    decide +kernel
  refine ⟨hdecoded, fun hgreatest => ?_, ?_⟩
  · have hle := hgreatest.2 ⟨by norm_num, 0x207fffff, by decide, hlimit⟩
    rw [hdecoded] at hle
    norm_num at hle
  · rw [hdecoded, hbelow]
    norm_num

end PulseDag
