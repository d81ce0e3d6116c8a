import PulseDag.Lib.Words

/-!
# Decimal numerals

Reading a word from decimal digits, with checked arithmetic for every digit. It succeeds exactly
when the value of the digits fits into the word (`parseU64_eq_some`).
-/

namespace PulseDag

/-- `u64::checked_mul`. -/
def checkedMul (a b : UInt64) : Option UInt64 :=
  if a.toNat * b.toNat < 2 ^ 64 then some (a * b) else none

/-- A checked product is exact. -/
theorem checkedMul_eq_some {a b c : UInt64} :
    checkedMul a b = some c ↔ c.toNat = a.toNat * b.toNat := by
  have hmul : a.toNat * b.toNat < 2 ^ 64 → (a * b).toNat = a.toNat * b.toNat := fun h => by
    rw [UInt64.toNat_mul, Nat.mod_eq_of_lt h]
  unfold checkedMul
  constructor
  · intro h
    split at h
    · next hlt => rw [← Option.some.inj h, hmul hlt]
    · cases h
  · intro h
    have hlt : a.toNat * b.toNat < 2 ^ 64 := h ▸ UInt64.toNat_lt c
    rw [if_pos hlt, Option.some.injEq, ← UInt64.toNat_inj, hmul hlt, h]

/-- `u64::checked_pow`. -/
def checkedPow (base : UInt64) (exponent : ℕ) : Option UInt64 := u64TryFrom (base.toNat ^ exponent)

/-- One digit of a numeral. -/
def pushDigit (value : UInt64) (c : Char) : Option UInt64 :=
  if c.isDigit then do
    let scaled ← checkedMul value 10
    checkedAdd scaled (UInt64.ofNat (c.toNat - '0'.toNat))
  else none

/-- `str::parse::<u64>`: digits after an optional plus sign. -/
def parseU64 (text : List Char) : Option UInt64 :=
  let digits := if text.head? = some '+' then text.tail else text
  if digits = [] then none else digits.foldlM pushDigit 0

/-- The codes of the digits. -/
theorem toNat_of_isDigit {c : Char} (h : c.isDigit = true) : 48 ≤ c.toNat ∧ c.toNat ≤ 57 := by
  simp only [Char.isDigit, Bool.and_eq_true, decide_eq_true_eq] at h
  exact ⟨UInt32.le_iff_toNat_le.mp h.1, UInt32.le_iff_toNat_le.mp h.2⟩

/-- One more digit, if the value is a word. -/
theorem pushDigit_eq_some {value next : UInt64} {c : Char} (hc : c.isDigit = true) :
    pushDigit value c = some next ↔ next.toNat = 10 * value.toNat + (c.toNat - '0'.toNat) := by
  obtain ⟨hzero, hnine⟩ := toNat_of_isDigit hc
  have hdigit : (UInt64.ofNat (c.toNat - '0'.toNat)).toNat = c.toNat - '0'.toNat := by
    rw [UInt64.toNat_ofNat']
    exact Nat.mod_eq_of_lt (by omega)
  have hten : (10 : UInt64).toNat = 10 := rfl
  rw [pushDigit, if_pos hc, Option.bind_eq_bind, Option.bind_eq_some_iff]
  simp only [checkedMul_eq_some, checkedAdd_eq_some, hdigit, hten]
  constructor
  · rintro ⟨scaled, hscaled, hnext⟩
    omega
  · intro hnext
    have hlt := next.toNat_lt
    refine ⟨UInt64.ofNat (value.toNat * 10), ?_, ?_⟩ <;>
      rw [UInt64.toNat_ofNat', Nat.mod_eq_of_lt (by omega)]
    omega

/-- A value does not get smaller when digits are appended. -/
theorem le_ofDigitChars (digits : List Char) (value : ℕ) :
    value ≤ Nat.ofDigitChars 10 digits value := by
  rw [Nat.ofDigitChars_eq_ofDigitChars_zero]
  exact le_add_right (Nat.le_mul_of_pos_left _ (by positivity))

/-- Reading digits gives the value they stand for. -/
theorem foldlM_pushDigit_eq_some {digits : List Char} {value last : UInt64}
    (hdigits : ∀ c ∈ digits, c.isDigit = true) :
    digits.foldlM pushDigit value = some last ↔
      last.toNat = Nat.ofDigitChars 10 digits value.toNat := by
  induction digits generalizing value with
  | nil => simp [UInt64.toNat_inj, eq_comm]
  | cons c rest ih =>
    obtain ⟨hc, hrest⟩ := List.forall_mem_cons.mp hdigits
    rw [List.foldlM_cons, Option.bind_eq_bind, Option.bind_eq_some_iff, Nat.ofDigitChars_cons]
    simp only [pushDigit_eq_some hc, ih hrest]
    constructor
    · rintro ⟨next, hnext, hlast⟩
      rw [hlast, hnext]
    · intro hlast
      have hle := le_ofDigitChars rest (10 * value.toNat + (c.toNat - '0'.toNat))
      have hlt := last.toNat_lt
      have hnext : (UInt64.ofNat (10 * value.toNat + (c.toNat - '0'.toNat))).toNat =
          10 * value.toNat + (c.toNat - '0'.toNat) := by
        rw [UInt64.toNat_ofNat']
        exact Nat.mod_eq_of_lt (by omega)
      exact ⟨_, hnext, by rw [hnext, hlast]⟩

/-- Digits are read exactly, if their value fits. -/
theorem parseU64_eq_some {text : List Char} {value : UInt64} (hne : text ≠ [])
    (hdigits : ∀ c ∈ text, c.isDigit = true) :
    parseU64 text = some value ↔ value.toNat = Nat.ofDigitChars 10 text 0 := by
  have hplus : text.head? ≠ some '+' := fun hhead =>
    absurd (hdigits '+' (List.mem_of_mem_head? hhead)) (by decide)
  rw [parseU64, if_neg hplus, if_neg hne, foldlM_pushDigit_eq_some hdigits]
  rfl

/-- A number in decimal, filled up with zeros. -/
def zeroPadded (width n : ℕ) : List Char := (Nat.toDigits 10 n).leftpad width '0'

/-- A padded numeral has digits only. -/
theorem isDigit_of_mem_zeroPadded {width n : ℕ} : ∀ c ∈ zeroPadded width n, c.isDigit = true := by
  intro c hc
  rw [zeroPadded, List.leftpad, List.mem_append] at hc
  rcases hc with hzero | hdigit
  · rw [List.eq_of_mem_replicate hzero]
    decide
  · exact Nat.isDigit_of_mem_toDigits (by decide) (by decide) hdigit

/-- Padding keeps the value. -/
theorem ofDigitChars_zeroPadded (width n : ℕ) : Nat.ofDigitChars 10 (zeroPadded width n) 0 = n := by
  rw [zeroPadded, List.leftpad, Nat.ofDigitChars_append, Nat.ofDigitChars_replicate_zero,
    Nat.mul_zero, Nat.ofDigitChars_ten_toDigits]

/-- A padded numeral has the width. -/
theorem length_zeroPadded {width n : ℕ} (hwidth : 0 < width) (hn : n < 10 ^ width) :
    (zeroPadded width n).length = width := by
  rw [zeroPadded, List.length_leftpad]
  exact max_eq_left ((Nat.length_toDigits_le_iff (by decide) hwidth).mpr hn)

end PulseDag
