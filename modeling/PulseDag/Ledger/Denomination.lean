import PulseDag.Ledger.RewardsV3
import PulseDag.Lib.Numerals

/-!
# Amounts as text

`denomination_v3.rs`. An amount in atoms is shown with eight decimal places. The parser accepts
exactly the plain decimals with at most eight places whose value fits into a word, and reads them
exactly (`parsePdgDecimalV3_exact`).
-/

namespace PulseDag

open List

/-- `ATOMS_PER_COIN`. -/
def atomsPerCoin : UInt64 := 100000000

/-- `PDG_DECIMALS_V3`. -/
def pdgDecimalsV3 : ℕ := 8

/-- `DenominationV3Error`. -/
inductive DenominationV3Error
  | empty
  | invalidSyntax
  | tooManyDecimalPlaces
  | overflow
  deriving DecidableEq, Repr

/-- `format_pdg_atoms_v3`. -/
def formatPdgAtomsV3 (atoms : UInt64) : String :=
  let whole := atoms / atomsPerCoin
  let fraction := atoms % atomsPerCoin
  String.ofList (Nat.toDigits 10 whole.toNat ++ '.' :: zeroPadded 8 fraction.toNat)

/-- `str::trim`. -/
def trim (text : List Char) : List Char := (text.dropWhile isWhitespace).rdropWhile isWhitespace

/-- The atoms of the places after the dot. All bytes of a text are digits if its characters are, and
then the text has as many bytes. -/
def parseFractionV3 : Option (List Char) → Except DenominationV3Error UInt64
  | none => .ok 0
  | some fraction => do
    ensure (fraction ≠ [] ∧ ∀ c ∈ fraction, c.isDigit = true) .invalidSyntax
    ensure (fraction.length ≤ pdgDecimalsV3) .tooManyDecimalPlaces
    let raw ← okOr (parseU64 fraction) .overflow
    let padding := pdgDecimalsV3 - fraction.length
    let scale ← okOr (checkedPow 10 padding) .overflow
    okOr (checkedMul raw scale) .overflow

/-- `parse_pdg_decimal_v3`. -/
def parsePdgDecimalV3 (value : String) : Except DenominationV3Error UInt64 := do
  let text := value.toList
  ensure (text ≠ []) .empty
  ensure (trim text = text ∧ text.head? ≠ some '+' ∧ text.head? ≠ some '-' ∧ 'e' ∉ text ∧
    'E' ∉ text) .invalidSyntax
  let parts := text.splitOn '.'
  let whole ← okOr parts[0]? .invalidSyntax
  let fraction := parts[1]?
  ensure (parts[2]? = none ∧ whole ≠ [] ∧ ∀ c ∈ whole, c.isDigit = true) .invalidSyntax
  let wholeValue ← okOr (parseU64 whole) .overflow
  let wholeAtoms ← okOr (checkedMul wholeValue atomsPerCoin) .overflow
  let fractionAtoms ← parseFractionV3 fraction
  okOr (checkedAdd wholeAtoms fractionAtoms) .overflow

/-! ## Plain decimals -/

/-- Digits, and after them a dot with one to eight digits if there is a fraction. -/
structure PlainDecimal (text whole fraction : List Char) : Prop where
  whole_ne_nil : whole ≠ []
  whole_digits : ∀ c ∈ whole, c.isDigit = true
  fraction_digits : ∀ c ∈ fraction, c.isDigit = true
  fraction_length : fraction.length ≤ 8
  text_eq : text = if fraction = [] then whole else whole ++ '.' :: fraction

/-- The exact value of a decimal in atoms. -/
def decimalAtoms (whole fraction : List Char) : ℚ :=
  (Nat.ofDigitChars 10 whole 0 + Nat.ofDigitChars 10 fraction 0 / 10 ^ fraction.length) * 10 ^ 8

/-- The atoms of a decimal, as one number. -/
theorem decimalAtoms_eq {whole fraction : List Char} (h : fraction.length ≤ 8) :
    decimalAtoms whole fraction = (Nat.ofDigitChars 10 whole 0 * 100000000 +
      Nat.ofDigitChars 10 fraction 0 * 10 ^ (8 - fraction.length) : ℕ) := by
  have hpow : (10 : ℚ) ^ 8 = 10 ^ fraction.length * 10 ^ (8 - fraction.length) := by
    rw [← pow_add, Nat.add_sub_cancel' h]
  have hscaled : (Nat.ofDigitChars 10 fraction 0 / 10 ^ fraction.length : ℚ) * 10 ^ 8 =
      Nat.ofDigitChars 10 fraction 0 * 10 ^ (8 - fraction.length) := by
    rw [hpow]
    field_simp
  rw [decimalAtoms, add_mul, hscaled]
  push_cast
  norm_num

/-- Digits contain no dot. -/
theorem dot_notMem {digits : List Char} (h : ∀ c ∈ digits, c.isDigit = true) : '.' ∉ digits :=
  fun hmem => absurd (h '.' hmem) (by decide)

namespace PlainDecimal

variable {text whole fraction : List Char}

/-- The parts between the dots. -/
theorem splitOn_eq (h : PlainDecimal text whole fraction) :
    text.splitOn '.' = if fraction = [] then [whole] else [whole, fraction] := by
  have hwhole := dot_notMem h.whole_digits
  rw [h.text_eq]
  split
  · exact splitOn_eq_singleton hwhole
  · rw [splitOn_append_cons_self_of_not_mem hwhole,
      splitOn_eq_singleton (dot_notMem h.fraction_digits)]

/-- A plain decimal has digits and a dot. -/
theorem digit_or_dot (h : PlainDecimal text whole fraction) :
    ∀ c ∈ text, c.isDigit = true ∨ c = '.' := by
  intro c hc
  rw [h.text_eq] at hc
  split at hc
  · exact .inl (h.whole_digits c hc)
  · rcases mem_append.mp hc with hc | hc
    · exact .inl (h.whole_digits c hc)
    · rcases mem_cons.mp hc with hc | hc
      · exact .inr hc
      · exact .inl (h.fraction_digits c hc)

/-- A plain decimal is not empty. -/
theorem ne_nil (h : PlainDecimal text whole fraction) : text ≠ [] := by
  rw [h.text_eq]
  split
  · exact h.whole_ne_nil
  · simp

/-- A plain decimal has no sign. -/
theorem head?_ne (h : PlainDecimal text whole fraction) {c : Char} (hc : c.isDigit = false)
    (hdot : c ≠ '.') : c ∉ text ∧ text.head? ≠ some c := by
  have hnot : c ∉ text := fun hmem =>
    (h.digit_or_dot c hmem).elim (fun hdigit => by simp [hc] at hdigit) hdot
  exact ⟨hnot, fun hhead => hnot (mem_of_mem_head? hhead)⟩

/-- A plain decimal has no blanks to trim. -/
theorem trim_eq (h : PlainDecimal text whole fraction) : trim text = text := by
  have hplain : ∀ c ∈ text, isWhitespace c ≠ true := fun c hc => by
    rcases h.digit_or_dot c hc with hdigit | rfl
    · obtain ⟨hzero, hnine⟩ := toNat_of_isDigit hdigit
      intro hspace
      simp only [isWhitespace, Bool.or_eq_true, Bool.and_eq_true, decide_eq_true_eq,
        beq_iff_eq] at hspace
      omega
    · decide
  have hstart : text.dropWhile isWhitespace = text :=
    dropWhile_eq_self_iff.mpr fun hl => hplain _ (getElem_mem hl)
  rw [trim, hstart]
  exact rdropWhile_eq_self_iff.mpr fun hl => hplain _ (getLast_mem hl)

end PlainDecimal

/-! ## The parser -/

/-- One to eight digits. -/
def IsPlaces (fraction : List Char) : Prop :=
  fraction ≠ [] ∧ (∀ c ∈ fraction, c.isDigit = true) ∧ fraction.length ≤ 8

/-- Which fractions are read, and as what. -/
theorem parseFractionV3_eq_ok {fraction : Option (List Char)} {atoms : UInt64} :
    parseFractionV3 fraction = .ok atoms ↔ (∀ places ∈ fraction, IsPlaces places) ∧
      atoms.toNat = Nat.ofDigitChars 10 (fraction.getD []) 0 *
      10 ^ (8 - (fraction.getD []).length) := by
  cases fraction with
  | none => simp [parseFractionV3, ← UInt64.toNat_inj, eq_comm]
  | some fraction =>
    have hpow : ∀ scale : UInt64, checkedPow 10 (pdgDecimalsV3 - fraction.length) = some scale ↔
        scale.toNat = 10 ^ (8 - fraction.length) := fun _ => u64TryFrom_eq_some
    simp only [parseFractionV3, bind_eq_ok, ensure_eq_ok, okOr_eq_ok, hpow, checkedMul_eq_some,
      Option.mem_some_iff, forall_eq', Option.getD_some]
    constructor
    · rintro ⟨-, ⟨hne, hdigits⟩, -, hlength, raw, hraw, scale, hscale, hatoms⟩
      rw [parseU64_eq_some hne hdigits] at hraw
      exact ⟨⟨hne, hdigits, hlength⟩, by rw [hatoms, hraw, hscale]⟩
    · rintro ⟨⟨hne, hdigits, hlength⟩, hatoms⟩
      have hpositive : 0 < 10 ^ (8 - fraction.length) := by positivity
      have hraw : Nat.ofDigitChars 10 fraction 0 < 2 ^ 64 :=
        (Nat.le_mul_of_pos_right _ hpositive).trans_lt (hatoms ▸ atoms.toNat_lt)
      have hscale : 10 ^ (8 - fraction.length) < 2 ^ 64 :=
        (Nat.pow_le_pow_right (by decide) (Nat.sub_le 8 _)).trans_lt (by decide)
      obtain ⟨raw, -, hrawEq⟩ := exists_u64TryFrom hraw
      obtain ⟨scale, -, hscaleEq⟩ := exists_u64TryFrom hscale
      exact ⟨(), ⟨hne, hdigits⟩, (), hlength, raw, (parseU64_eq_some hne hdigits).mpr hrawEq, scale,
        hscaleEq, by rw [hrawEq, hscaleEq, hatoms]⟩

/-- The parts of an accepted text make a plain decimal. -/
theorem plainDecimal_of_parts {text whole : List Char} {fraction : Option (List Char)}
    (hwhole : (text.splitOn '.')[0]? = some whole) (hfraction : (text.splitOn '.')[1]? = fraction)
    (hlast : (text.splitOn '.')[2]? = none) (hne : whole ≠ [])
    (hdigits : ∀ c ∈ whole, c.isDigit = true) (hplaces : ∀ places ∈ fraction, IsPlaces places) :
    PlainDecimal text whole (fraction.getD []) := by
  have htext : ['.'].intercalate (text.splitOn '.') = text := intercalate_splitOn '.'
  generalize text.splitOn '.' = parts at *
  match parts, hwhole, hfraction, hlast with
  | [only], hwhole, hfraction, _ =>
    obtain rfl : only = whole := by simpa using hwhole
    obtain rfl : none = fraction := by simpa using hfraction
    refine ⟨hne, hdigits, by simp, by simp, ?_⟩
    simpa using htext.symm
  | [first, places], hwhole, hfraction, _ =>
    obtain rfl : first = whole := by simpa using hwhole
    obtain rfl : some places = fraction := by simpa using hfraction
    obtain ⟨hplacesNe, hplacesDigits, hlength⟩ := hplaces places rfl
    refine ⟨hne, hdigits, hplacesDigits, hlength, ?_⟩
    rw [Option.getD_some, if_neg hplacesNe, ← htext]
    simp [List.intercalate]
  | _ :: _ :: _ :: _, _, _, hlast => simp at hlast

/-- The parser accepts plain decimals and reads them exactly. -/
theorem parsePdgDecimalV3_eq_ok {value : String} {atoms : UInt64} :
    parsePdgDecimalV3 value = .ok atoms ↔ ∃ whole fraction,
      PlainDecimal value.toList whole fraction ∧ atoms.toNat = decimalAtoms whole fraction := by
  have hcoin : atomsPerCoin.toNat = 100000000 := rfl
  simp only [parsePdgDecimalV3, bind_eq_ok, ensure_eq_ok, okOr_eq_ok, checkedMul_eq_some,
    checkedAdd_eq_some, parseFractionV3_eq_ok, hcoin]
  constructor
  · rintro ⟨-, -, -, -, whole, hwhole, -, ⟨hlast, hne, hdigits⟩, wholeValue, hvalue, wholeAtoms,
      hwholeAtoms, places, ⟨hplaces, hplacesAtoms⟩, hatoms⟩
    have hplain := plainDecimal_of_parts hwhole rfl hlast hne hdigits hplaces
    refine ⟨whole, _, hplain, ?_⟩
    rw [parseU64_eq_some hne hdigits] at hvalue
    rw [decimalAtoms_eq hplain.fraction_length, hatoms, hwholeAtoms, hvalue, hplacesAtoms]
  · rintro ⟨whole, fraction, hplain, hatoms⟩
    rw [decimalAtoms_eq hplain.fraction_length, Nat.cast_inj] at hatoms
    have hlt := atoms.toNat_lt
    obtain ⟨wholeValue, -, hvalue⟩ :=
      exists_u64TryFrom (show Nat.ofDigitChars 10 whole 0 < 2 ^ 64 by omega)
    obtain ⟨wholeAtoms, -, hwholeAtoms⟩ :=
      exists_u64TryFrom (show Nat.ofDigitChars 10 whole 0 * 100000000 < 2 ^ 64 by omega)
    obtain ⟨places, -, hplaces⟩ := exists_u64TryFrom
      (show Nat.ofDigitChars 10 fraction 0 * 10 ^ (8 - fraction.length) < 2 ^ 64 by omega)
    have hparts := hplain.splitOn_eq
    have hfraction : (value.toList.splitOn '.')[1]?.getD [] = fraction ∧
        ∀ found ∈ (value.toList.splitOn '.')[1]?, IsPlaces found := by
      rw [hparts]
      by_cases hempty : fraction = []
      · simp [hempty]
      · simpa [hempty] using ⟨hempty, hplain.fraction_digits, hplain.fraction_length⟩
    refine ⟨(), hplain.ne_nil, (), ⟨hplain.trim_eq, (hplain.head?_ne rfl (by decide)).2,
      (hplain.head?_ne rfl (by decide)).2, (hplain.head?_ne rfl (by decide)).1,
      (hplain.head?_ne rfl (by decide)).1⟩, whole, ?_, (),
      ⟨?_, hplain.whole_ne_nil, hplain.whole_digits⟩,
      wholeValue, (parseU64_eq_some hplain.whole_ne_nil hplain.whole_digits).mpr hvalue, wholeAtoms,
      by rw [hwholeAtoms, hvalue], places, ⟨hfraction.2, by rw [hfraction.1, hplaces]⟩, by omega⟩
    · rw [hparts]
      split <;> rfl
    · rw [hparts]
      split <;> rfl

/-- The shown amount is a plain decimal with the value of the amount. -/
theorem formatPdgAtomsV3_plain (atoms : UInt64) : ∃ whole fraction,
    PlainDecimal (formatPdgAtomsV3 atoms).toList whole fraction ∧
      atoms.toNat = decimalAtoms whole fraction := by
  have hcoin : atomsPerCoin.toNat = 10 ^ 8 := rfl
  have hsmall : (atoms % atomsPerCoin).toNat < 10 ^ 8 := by
    rw [UInt64.toNat_mod, hcoin]
    exact Nat.mod_lt _ (by decide)
  have hlength := length_zeroPadded (by decide) hsmall
  refine ⟨Nat.toDigits 10 (atoms / atomsPerCoin).toNat, zeroPadded 8 (atoms % atomsPerCoin).toNat,
    ⟨Nat.toDigits_ne_nil, fun c hc => Nat.isDigit_of_mem_toDigits (by decide) (by decide) hc,
      isDigit_of_mem_zeroPadded, hlength.le, ?_⟩, ?_⟩
  · rw [if_neg (ne_nil_of_length_pos (by omega)), formatPdgAtomsV3, String.toList_ofList]
  · rw [decimalAtoms_eq hlength.le, hlength, ofDigitChars_zeroPadded, Nat.ofDigitChars_ten_toDigits,
      UInt64.toNat_div, UInt64.toNat_mod, hcoin, Nat.cast_inj]
    omega

/-- Shown amounts are read back, and the parser accepts exactly the plain decimals whose value fits
into a word, which it reads exactly. -/
theorem parsePdgDecimalV3_exact :
    (∀ atoms : UInt64, parsePdgDecimalV3 (formatPdgAtomsV3 atoms) = .ok atoms) ∧
      ∀ (value : String) (atoms : UInt64), parsePdgDecimalV3 value = .ok atoms ↔
        ∃ whole fraction, PlainDecimal value.toList whole fraction ∧
          atoms.toNat = decimalAtoms whole fraction :=
  ⟨fun atoms => parsePdgDecimalV3_eq_ok.mpr (formatPdgAtomsV3_plain atoms), fun _ _ =>
    parsePdgDecimalV3_eq_ok⟩

end PulseDag
