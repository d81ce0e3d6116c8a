import Mathlib

/-!
# Digits in a base

The value of a list of digits, most significant first, and what follows for digits that fit the
base.
-/

namespace PulseDag

open List

/-- The number with these digits. -/
def digitsValue (base : ℕ) (digits : List ℕ) : ℕ :=
  digits.foldl (fun value digit => value * base + digit) 0

variable {base : ℕ}

/-- Reading digits from a start value. -/
theorem foldl_digits (digits : List ℕ) (start : ℕ) :
    digits.foldl (fun value digit => value * base + digit) start =
      start * base ^ digits.length + digitsValue base digits := by
  induction digits generalizing start with
  | nil => simp [digitsValue]
  | cons digit rest ih =>
    have hrest : digitsValue base (digit :: rest) = (0 * base + digit) * base ^ rest.length +
        digitsValue base rest := ih (0 * base + digit)
    rw [foldl_cons, ih, hrest, length_cons, pow_succ']
    ring

/-- A value is its quotient one place up and its remainder. -/
theorem divMod_mul_pow (value k rest : ℕ) :
    value / base * base ^ (k + 1) + (value % base * base ^ k + rest) = value * base ^ k + rest := by
  have hdivMod := Nat.div_add_mod value base
  calc _ = (base * (value / base) + value % base) * base ^ k + rest := by ring
    _ = _ := by rw [hdivMod]

/-- No digits. -/
@[simp] theorem digitsValue_nil : digitsValue base [] = 0 := rfl

/-- The value of a first digit. -/
theorem digitsValue_cons (digit : ℕ) (rest : List ℕ) :
    digitsValue base (digit :: rest) = digit * base ^ rest.length + digitsValue base rest := by
  rw [digitsValue, foldl_cons, foldl_digits, Nat.zero_mul, Nat.zero_add]

/-- The value of one more digit. -/
theorem digitsValue_append_singleton (digits : List ℕ) (digit : ℕ) :
    digitsValue base (digits ++ [digit]) = digitsValue base digits * base + digit := by
  rw [digitsValue, foldl_append]
  rfl

/-- The value is below the power of the base. -/
theorem digitsValue_lt {digits : List ℕ} (h : ∀ digit ∈ digits, digit < base) :
    digitsValue base digits < base ^ digits.length := by
  induction digits with
  | nil => simp
  | cons digit rest ih =>
    obtain ⟨hdigit, hrest⟩ := forall_mem_cons.mp h
    have hsum : digit * base ^ rest.length + base ^ rest.length ≤ base * base ^ rest.length := by
      rw [← Nat.succ_mul]
      exact Nat.mul_le_mul_right _ hdigit
    rw [digitsValue_cons, length_cons, pow_succ']
    exact (Nat.add_lt_add_left (ih hrest) _).trans_le hsum

/-- The top digit and the others. -/
theorem digitsValue_divMod {digit : ℕ} {rest : List ℕ} (h : ∀ d ∈ rest, d < base) :
    digitsValue base (digit :: rest) / base ^ rest.length = digit ∧
      digitsValue base (digit :: rest) % base ^ rest.length = digitsValue base rest := by
  have hlt := digitsValue_lt h
  have hpos : 0 < base ^ rest.length := Nat.zero_lt_of_lt hlt
  rw [digitsValue_cons]
  exact ⟨by rw [Nat.mul_comm, Nat.mul_add_div hpos, Nat.div_eq_of_lt hlt, Nat.add_zero],
    by rw [Nat.mul_comm, Nat.mul_add_mod, Nat.mod_eq_of_lt hlt]⟩

/-- A remainder can be taken digit by digit. -/
theorem foldl_mod_eq (modulus : ℕ) (digits : List ℕ) :
    digits.foldl (fun remainder digit => (remainder * base + digit) % modulus) 0 =
      digitsValue base digits % modulus := by
  induction digits using List.reverseRecOn with
  | nil => simp
  | append_singleton digits digit ih =>
    rw [foldl_append, ih, digitsValue_append_singleton, foldl_cons, foldl_nil,
      Nat.add_mod, Nat.mul_mod, Nat.mod_mod, ← Nat.mul_mod, ← Nat.add_mod]

/-- A quotient rounded up. -/
theorem ceilDiv_eq_div_add {a d : ℕ} (hd : 0 < d) :
    a ⌈/⌉ d = a / d + if a % d = 0 then 0 else 1 := by
  have hdivMod : a / d * d + a % d = a := Nat.div_add_mod' a d
  have hmod := Nat.mod_lt a hd
  have hnext : (a / d + 1) * d = a / d * d + d := Nat.succ_mul _ _
  have hafter : (a / d + 1 + 1) * d = (a / d + 1) * d + d := Nat.succ_mul _ _
  rw [Nat.ceilDiv_eq_add_pred_div]
  split
  · refine Nat.div_eq_of_lt_le ?_ ?_
    · rw [Nat.add_zero]
      omega
    · rw [Nat.add_zero]
      omega
  · exact Nat.div_eq_of_lt_le (by omega) (by omega)

end PulseDag
