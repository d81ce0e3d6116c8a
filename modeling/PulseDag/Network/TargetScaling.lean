import PulseDag.Lib.Digits
import PulseDag.Network.Pow

/-!
# Scaling a target

`scale_target_ratio` multiplies the limbs of a target and divides by long division; the version 3
variant rounds up by a carry through the bytes. Both are exact, and the overflow flag says that the
result does not fit into 256 bits (`scaleTargetRatio_eq`, `scaleTargetRatioCeilV3_eq`).
-/

namespace PulseDag

open List

/-! ## The loops over the limbs -/

variable {target numerator : ℕ}

/-- The limbs have the value of the target. -/
theorem digitsValue_targetToLimbs (h : target < 2 ^ 256) :
    digitsValue (2 ^ 64) (targetToLimbs target) = target := by
  simp only [digitsValue, targetToLimbs, foldl_cons, foldl_nil]
  omega

/-- The product of the limbs, with the carry in front. -/
theorem scaleLimbs_spec (numerator : ℕ) (limbs : List ℕ) :
    (scaleLimbs numerator limbs).1.length = limbs.length ∧
      (∀ limb ∈ (scaleLimbs numerator limbs).1, limb < 2 ^ 64) ∧
      (scaleLimbs numerator limbs).2 * (2 ^ 64) ^ limbs.length +
          digitsValue (2 ^ 64) (scaleLimbs numerator limbs).1 =
        digitsValue (2 ^ 64) limbs * numerator := by
  induction limbs with
  | nil => simp [scaleLimbs]
  | cons limb rest ih =>
    obtain ⟨hlength, hsmall, hvalue⟩ := ih
    rw [scaleLimbs]
    generalize hscaled : scaleLimbs numerator rest = scaled at *
    refine ⟨by simp [hlength], ?_, ?_⟩
    · exact forall_mem_cons.mpr ⟨Nat.mod_lt _ (by positivity), hsmall⟩
    · dsimp only
      rw [digitsValue_cons, digitsValue_cons, hlength, length_cons, divMod_mul_pow,
        Nat.add_mul, Nat.add_mul, ← hvalue, Nat.mul_right_comm, Nat.add_assoc]

/-- The quotient of the limbs behind a remainder. -/
theorem divideLimbs_spec {divisor : ℕ} (hdivisor : 0 < divisor) {limbs : List ℕ} {remainder : ℕ}
    (hsmall : ∀ limb ∈ limbs, limb < 2 ^ 64) (hremainder : remainder < divisor) :
    (divideLimbs divisor limbs remainder).length = limbs.length ∧
      (∀ limb ∈ divideLimbs divisor limbs remainder, limb < 2 ^ 64) ∧
      digitsValue (2 ^ 64) (divideLimbs divisor limbs remainder) =
        (remainder * (2 ^ 64) ^ limbs.length + digitsValue (2 ^ 64) limbs) / divisor := by
  induction limbs generalizing remainder with
  | nil => simp [divideLimbs, Nat.div_eq_of_lt hremainder]
  | cons limb rest ih =>
    obtain ⟨hlimb, hrest⟩ := forall_mem_cons.mp hsmall
    let dividend := remainder * 2 ^ 64 + limb
    obtain ⟨hlength, hdigits, hvalue⟩ := ih hrest (Nat.mod_lt dividend hdivisor)
    have hdigit : dividend / divisor < 2 ^ 64 := by
      refine Nat.div_lt_of_lt_mul ?_
      have hsum : (remainder + 1) * 2 ^ 64 ≤ divisor * 2 ^ 64 := Nat.mul_le_mul_right _ hremainder
      show remainder * 2 ^ 64 + limb < _
      omega
    have hstep : divideLimbs divisor (limb :: rest) remainder =
        dividend / divisor % 2 ^ 64 :: divideLimbs divisor rest (dividend % divisor) := rfl
    rw [hstep, Nat.mod_eq_of_lt hdigit]
    refine ⟨by simp [hlength], forall_mem_cons.mpr ⟨hdigit, hdigits⟩, ?_⟩
    have hdivMod := Nat.div_add_mod dividend divisor
    rw [digitsValue_cons, hlength, hvalue, digitsValue_cons, length_cons]
    calc _ = (divisor * (dividend / divisor * (2 ^ 64) ^ rest.length) +
          (dividend % divisor * (2 ^ 64) ^ rest.length + digitsValue (2 ^ 64) rest)) / divisor := by
            rw [Nat.mul_add_div hdivisor]
      _ = _ := by
        have hdividend : dividend = remainder * 2 ^ 64 + limb := rfl
        rw [← Nat.add_assoc, ← Nat.mul_assoc, ← Nat.add_mul, hdivMod,
          pow_succ' (2 ^ 64) rest.length, hdividend, Nat.add_mul, Nat.mul_assoc, Nat.add_assoc]

/-- `scale_target_ratio` rounds the exact result down. -/
theorem scaleTargetRatio_eq (htarget : target < 2 ^ 256) (hnumerator : numerator < 2 ^ 64)
    (denominator : ℕ) :
    scaleTargetRatio target numerator denominator =
      (target * numerator / max denominator 1 % 2 ^ 256,
        decide (2 ^ 256 ≤ target * numerator / max denominator 1)) := by
  have hlimbs := digitsValue_targetToLimbs htarget
  obtain ⟨hlength, hsmall, hvalue⟩ := scaleLimbs_spec numerator (targetToLimbs target)
  have hfour : (targetToLimbs target).length = 4 := rfl
  rw [hfour] at hlength
  rw [hlimbs, hfour] at hvalue
  rw [scaleTargetRatio]
  generalize scaleLimbs numerator (targetToLimbs target) = scaled at *
  have hcarry : scaled.2 < 2 ^ 64 := by
    by_contra hbig
    have hlarge : 2 ^ 64 * (2 ^ 64) ^ 4 ≤ scaled.2 * (2 ^ 64) ^ 4 :=
      Nat.mul_le_mul_right _ (not_lt.mp hbig)
    have hproduct : target * numerator ≤ 2 ^ 256 * numerator := Nat.mul_le_mul_right _ htarget.le
    omega
  rw [Nat.mod_eq_of_lt hcarry]
  have hproduct : digitsValue (2 ^ 64) (scaled.2 :: scaled.1) = target * numerator := by
    rw [digitsValue_cons, hlength, hvalue]
  have hdivisor : 0 < max denominator 1 := by omega
  obtain ⟨hquotientLength, hdigits, hquotient⟩ :=
    divideLimbs_spec hdivisor (forall_mem_cons.mpr ⟨hcarry, hsmall⟩) hdivisor
  rw [Nat.zero_mul, Nat.zero_add, hproduct] at hquotient
  generalize divideLimbs (max denominator 1) (scaled.2 :: scaled.1) 0 = quotient at *
  obtain ⟨top, rest, rfl⟩ := exists_cons_of_length_pos
    (by rw [hquotientLength]; simp : 0 < quotient.length)
  obtain ⟨hdiv, hmod⟩ := digitsValue_divMod (forall_mem_cons.mp hdigits).2
  have hrest : rest.length = 4 := by simpa [hlength] using hquotientLength
  have hpow : ((2 : ℕ) ^ 64) ^ 4 = 2 ^ 256 := by norm_num
  rw [hrest, hpow, hquotient] at hdiv hmod
  refine Prod.ext ?_ ?_
  · rw [hmod]
    rfl
  · have hoverflow : top ≠ 0 ↔ 2 ^ 256 ≤ target * numerator / max denominator 1 := by
      rw [← hdiv, ne_eq, Nat.div_eq_zero_iff]
      omega
    simp only [headD_cons, hoverflow]

/-! ## Rounding up -/

/-- The 32 bytes of a target, most significant first. -/
def targetBytes (target : ℕ) : List ℕ := (List.range 32).map (targetByte target)

/-- The target with these bytes. -/
def bytesToTarget (bytes : List ℕ) : ℕ := digitsValue 256 bytes

/-- The carry through the bytes of `scale_target_ratio_ceil_v3`, from the last one on, and whether
it leaves the first one. -/
def incrementBytes : List ℕ → List ℕ × Bool
  | [] => ([], true)
  | byte :: rest =>
    if byte + 1 < 256 then ((byte + 1) :: rest, false)
    else
      let carried := incrementBytes rest
      ((byte + 1) % 256 :: carried.1, carried.2)

/-- `scale_target_ratio_ceil_v3`. The source divides by the denominator, which is not zero. -/
def scaleTargetRatioCeilV3 (target numerator denominator : ℕ) : ℕ × Bool :=
  let scaled := scaleTargetRatio target numerator denominator
  let targetRemainder := (targetBytes target).foldl
    (fun remainder byte => (remainder * 256 + byte) % denominator) 0
  if targetRemainder * numerator % denominator ≠ 0 then
    let next := incrementBytes (targetBytes scaled.1).reverse
    (bytesToTarget next.1.reverse, scaled.2 || next.2)
  else scaled

/-- The bytes of a target are bytes. -/
theorem targetBytes_lt (target : ℕ) : ∀ byte ∈ targetBytes target, byte < 256 := by
  intro byte hbyte
  obtain ⟨index, -, rfl⟩ := mem_map.mp hbyte
  exact Nat.mod_lt _ (by decide)

/-- The first bytes of a target. -/
theorem digitsValue_range (target count : ℕ) (hcount : count ≤ 32) (htarget : target < 256 ^ 32) :
    digitsValue 256 ((List.range count).map (targetByte target)) = target / 256 ^ (32 - count) := by
  induction count with
  | zero => exact (Nat.div_eq_of_lt htarget).symm
  | succ count ih =>
    have hexponent : 32 - count = 32 - (count + 1) + 1 := by omega
    have hindex : 31 - count = 32 - (count + 1) := by omega
    rw [range_succ, map_append, map_singleton, digitsValue_append_singleton, ih (by omega),
      targetByte, hexponent, pow_succ, ← Nat.div_div_eq_div_mul, hindex, Nat.mul_comm]
    exact Nat.div_add_mod _ 256

/-- The bytes have the value of the target. -/
theorem bytesToTarget_targetBytes (h : target < 2 ^ 256) :
    bytesToTarget (targetBytes target) = target := by
  rw [bytesToTarget, targetBytes, digitsValue_range target 32 le_rfl (by omega)]
  simp

/-- The carry adds one, and leaves the first byte if all bytes are full. -/
theorem incrementBytes_spec {bytes : List ℕ} (h : ∀ byte ∈ bytes, byte < 256) :
    bytesToTarget (incrementBytes bytes.reverse).1.reverse =
    (bytesToTarget bytes + 1) % 256 ^ bytes.length ∧
      ((incrementBytes bytes.reverse).2 = true ↔ bytesToTarget bytes + 1 = 256 ^ bytes.length) := by
  induction bytes using List.reverseRecOn with
  | nil => simp [incrementBytes, bytesToTarget]
  | append_singleton bytes byte ih =>
    obtain ⟨hbytes, hbyte⟩ := forall_mem_append.mp h
    obtain ⟨hvalue, hflag⟩ := ih hbytes
    have hlast : byte < 256 := hbyte byte mem_cons_self
    have hlt : bytesToTarget bytes < 256 ^ bytes.length := digitsValue_lt hbytes
    have hsum : bytesToTarget (bytes ++ [byte]) = bytesToTarget bytes * 256 + byte :=
      digitsValue_append_singleton _ _
    rw [reverse_append, reverse_singleton, singleton_append, incrementBytes, hsum,
      length_append, length_singleton, pow_succ]
    split
    · next hroom =>
      have hreturn : bytesToTarget ((byte + 1) :: bytes.reverse).reverse =
          bytesToTarget bytes * 256 + (byte + 1) := by
        rw [reverse_cons, reverse_reverse]
        exact digitsValue_append_singleton _ _
      refine ⟨?_, ?_⟩
      · rw [hreturn, Nat.mod_eq_of_lt (by omega)]
        omega
      · simp only [Bool.false_eq_true, false_iff]
        omega
    · next hfull =>
      have hwrap : (byte + 1) % 256 = 0 := by omega
      have hreturn : ∀ carried : List ℕ, bytesToTarget ((byte + 1) % 256 :: carried).reverse =
          bytesToTarget carried.reverse * 256 := fun carried => by
        rw [reverse_cons, hwrap]
        exact (digitsValue_append_singleton _ _).trans (Nat.add_zero _)
      dsimp only
      rw [hreturn, hvalue, hflag]
      have hmul : bytesToTarget bytes * 256 + byte + 1 = (bytesToTarget bytes + 1) * 256 := by omega
      rw [hmul, Nat.mul_mod_mul_right]
      exact ⟨rfl, by omega⟩

/-- The remainder that decides about rounding up. -/
theorem remainder_eq (htarget : target < 2 ^ 256) (numerator denominator : ℕ) :
    (targetBytes target).foldl (fun remainder byte => (remainder * 256 + byte) % denominator) 0 *
      numerator % denominator = target * numerator % denominator := by
  have hvalue : digitsValue 256 (targetBytes target) = target := bytesToTarget_targetBytes htarget
  rw [foldl_mod_eq, hvalue, Nat.mod_mul_mod]

/-- `scale_target_ratio_ceil_v3` rounds the exact result up. -/
theorem scaleTargetRatioCeilV3_eq {denominator : ℕ} (htarget : target < 2 ^ 256)
    (hnumerator : numerator < 2 ^ 64) (hdenominator : 0 < denominator) :
    scaleTargetRatioCeilV3 target numerator denominator =
      (target * numerator ⌈/⌉ denominator % 2 ^ 256,
        decide (2 ^ 256 ≤ target * numerator ⌈/⌉ denominator)) := by
  have hmax : max denominator 1 = denominator := by omega
  rw [scaleTargetRatioCeilV3, remainder_eq htarget, scaleTargetRatio_eq htarget hnumerator, hmax,
    ceilDiv_eq_div_add hdenominator]
  by_cases hexact : target * numerator % denominator = 0
  · rw [if_neg (not_not.mpr hexact), if_pos hexact, Nat.add_zero]
  · have hbytes : (targetBytes (target * numerator / denominator % 2 ^ 256)).length = 32 := by
      simp [targetBytes]
    have hpow : (256 : ℕ) ^ 32 = 2 ^ 256 := by norm_num
    obtain ⟨hvalue, hflag⟩ :=
      incrementBytes_spec (targetBytes_lt (target * numerator / denominator % 2 ^ 256))
    rw [hbytes, hpow, bytesToTarget_targetBytes (Nat.mod_lt _ (by positivity))] at hvalue hflag
    rw [if_pos hexact, if_neg hexact]
    generalize target * numerator / denominator = quotient at hvalue hflag ⊢
    dsimp only
    rw [hvalue, Nat.mod_add_mod]
    refine Prod.ext rfl ?_
    rw [Bool.eq_iff_iff, Bool.or_eq_true, hflag, decide_eq_true_iff, decide_eq_true_iff]
    omega

end PulseDag
