import PulseDag.Core.State

/-!
# Monetary policy

`monetary_v3.rs`. Scores are positions in the canonical order. A cadence turns a score into
economic time, and the supply follows a curve that halves what remains every three economic
years. Intermediate `u128` values are natural numbers whose bound is checked where the source
checks it; scores are natural numbers.
-/

namespace PulseDag

/-- `MAX_SUPPLY_ATOMS`. -/
def maxSupplyAtoms : UInt64 := 100000000000000000

/-- `HALF_LIFE_NS`: three economic years of 31 536 000 seconds. -/
def halfLifeNs : ℕ := 3 * 31536000 * 1000000000

/-- `EMISSION_QUANTUM_NS`: six hours. -/
def emissionQuantumNs : ℕ := 21600 * 1000000000

/-- `HALF_LIFE_QUANTA`. -/
def halfLifeQuanta : ℕ := 4380

/-- `Q64_ONE`. -/
def q64One : ℕ := 2 ^ 64

/-- `DECAY_FACTOR_Q64`. -/
def decayFactorQ64 : ℕ := 18443825056137834748

/-- `HALF_LIFE_END_FACTOR_Q64`. -/
def halfLifeEndFactorQ64 : ℕ := 9223372036854774856

/-- `TERMINAL_HALF_LIVES`. -/
def terminalHalfLives : ℕ := 57

/-- `COINBASE_MATURITY_NS`: 3 600 seconds. -/
def coinbaseMaturityNs : ℕ := 3600 * 1000000000

/-- `MonetaryCadenceSegment`. -/
structure MonetaryCadenceSegment where
  activationScore : UInt64
  targetIntervalNs : UInt64
  deriving DecidableEq, Repr

/-- `PRODUCTION_CADENCE_V3`. -/
def productionCadenceV3 : List MonetaryCadenceSegment := [⟨0, 500000000⟩]

/-- `MonetaryV3Error`. -/
inductive MonetaryV3Error
  | emptyCadenceSchedule
  | firstCadenceMustStartAtZero
  | zeroCadenceInterval
  | nonIncreasingCadenceActivation
  | nonMonotonicScoreRange
  | arithmeticOverflow
  deriving DecidableEq, Repr

/-- The `Display` text of a monetary error. -/
def MonetaryV3Error.display : MonetaryV3Error → String
  | .emptyCadenceSchedule => "monetary cadence schedule is empty"
  | .firstCadenceMustStartAtZero => "first monetary cadence segment must activate at score 0"
  | .zeroCadenceInterval => "monetary cadence target interval must be non-zero"
  | .nonIncreasingCadenceActivation =>
    "monetary cadence activation scores must be strictly increasing"
  | .nonMonotonicScoreRange => "monetary score range must be monotonic"
  | .arithmeticOverflow => "monetary arithmetic overflow"

/-- A `u128` operation that is checked for overflow. -/
def u128Checked (value : ℕ) : Except MonetaryV3Error ℕ := do
  ensure (value ≤ u128Max) .arithmeticOverflow
  pure value

/-- The loop of `validate_cadence_segments` over neighbouring segments. -/
def validateCadencePairs : List MonetaryCadenceSegment → Except MonetaryV3Error Unit
  | previous :: next :: rest => do
    ensure (previous.activationScore < next.activationScore) .nonIncreasingCadenceActivation
    ensure (next.targetIntervalNs ≠ 0) .zeroCadenceInterval
    validateCadencePairs (next :: rest)
  | _ => .ok ()

/-- `validate_cadence_segments`. -/
def validateCadenceSegments (segments : List MonetaryCadenceSegment) :
    Except MonetaryV3Error Unit := do
  let first ← okOr segments.head? .emptyCadenceSchedule
  ensure (first.activationScore = 0) .firstCadenceMustStartAtZero
  ensure (first.targetIntervalNs ≠ 0) .zeroCadenceInterval
  validateCadencePairs segments

/-- The loop of `economic_time_ns_for_score`. -/
def economicTimeFrom (score : ℕ) : List MonetaryCadenceSegment → ℕ → Except MonetaryV3Error ℕ
  | [], economicTimeNs => .ok economicTimeNs
  | segment :: rest, economicTimeNs =>
    let activation := segment.activationScore.toNat
    if score ≤ activation then .ok economicTimeNs
    else
      let nextActivation := (rest.head?.map fun next => next.activationScore.toNat).getD score
      let endScore := min score nextActivation
      if endScore ≤ activation then economicTimeFrom score rest economicTimeNs
      else do
        let contribution ← u128Checked ((endScore - activation) * segment.targetIntervalNs.toNat)
        let extended ← u128Checked (economicTimeNs + contribution)
        if endScore = score then pure extended else economicTimeFrom score rest extended

/-- `economic_time_ns_for_score`. -/
def economicTimeNsForScore (score : ℕ) (segments : List MonetaryCadenceSegment) :
    Except MonetaryV3Error ℕ := do
  validateCadenceSegments segments
  economicTimeFrom score segments 0

/-- `ceil_div_u128`. -/
def ceilDivU128 (numerator denominator : ℕ) : ℕ :=
  numerator / denominator + if numerator % denominator = 0 then 0 else 1

/-- `q64_mul`. -/
def q64Mul (lhs rhs : ℕ) : Except MonetaryV3Error ℕ := do
  let product ← u128Checked (lhs * rhs)
  pure (product >>> 64)

/-- The loop of `q64_pow`: an exponent below `2 ^ fuel` is used up. -/
def q64PowLoop : ℕ → ℕ → ℕ → ℕ → Except MonetaryV3Error ℕ
  | 0, _, result, _ => .ok result
  | fuel + 1, exponent, result, base =>
    if exponent = 0 then .ok result
    else do
      let result ← (if exponent % 2 = 1 then q64Mul result base else pure result)
      let exponent := exponent / 2
      let base ← (if exponent ≠ 0 then q64Mul base base else pure base)
      q64PowLoop fuel exponent result base

/-- `q64_pow`; the exponent is a `u64`. -/
def q64Pow (exponent : ℕ) : Except MonetaryV3Error ℕ := q64PowLoop 64 exponent q64One decayFactorQ64

/-- `remaining_atoms_at_half_life_boundary`. -/
def remainingAtomsAtHalfLifeBoundary (completedHalfLives : ℕ) : Except MonetaryV3Error UInt64 :=
  if terminalHalfLives ≤ completedHalfLives then pure 0
  else do
    -- `checked_shl` on a `u128`
    ensure (completedHalfLives < 128) .arithmeticOverflow
    let remaining := ceilDivU128 maxSupplyAtoms.toNat (2 ^ completedHalfLives)
    okOr (u64TryFrom remaining) .arithmeticOverflow

/-- `issuance_within_half_life_at_quantum`. -/
def issuanceWithinHalfLifeAtQuantum (halfLifeBudgetAtoms : UInt64) (quantum : ℕ) :
    Except MonetaryV3Error UInt64 := do
  ensure (quantum ≤ halfLifeQuanta) .arithmeticOverflow
  let factor ← q64Pow quantum
  ensure (factor ≤ q64One) .arithmeticOverflow
  let progress := q64One - factor
  ensure (halfLifeEndFactorQ64 ≤ q64One) .arithmeticOverflow
  let normalization := q64One - halfLifeEndFactorQ64
  let product ← u128Checked (halfLifeBudgetAtoms.toNat * progress)
  okOr (u64TryFrom (product / normalization)) .arithmeticOverflow

/-- `target_issuance_atoms`. -/
def targetIssuanceAtoms (economicTimeNs : ℕ) : Except MonetaryV3Error UInt64 :=
  let completedHalfLives := economicTimeNs / halfLifeNs
  if terminalHalfLives ≤ completedHalfLives then pure maxSupplyAtoms
  else do
    ensure (completedHalfLives < 2 ^ 32) .arithmeticOverflow
    let withinHalfLifeNs := economicTimeNs % halfLifeNs
    let startRemaining ← remainingAtomsAtHalfLifeBoundary completedHalfLives
    let endRemaining ← remainingAtomsAtHalfLifeBoundary (completedHalfLives + 1)
    let halfLifeBudgetAtoms ← okOr (checkedSub startRemaining endRemaining) .arithmeticOverflow
    let baseIssuedAtoms ← okOr (checkedSub maxSupplyAtoms startRemaining) .arithmeticOverflow
    let quantum := withinHalfLifeNs / emissionQuantumNs
    ensure (quantum < 2 ^ 64) .arithmeticOverflow
    let withinQuantumNs := withinHalfLifeNs % emissionQuantumNs
    let issuedAtQuantum ← issuanceWithinHalfLifeAtQuantum halfLifeBudgetAtoms quantum
    let issuedAtNext ← issuanceWithinHalfLifeAtQuantum halfLifeBudgetAtoms (quantum + 1)
    let quantumDelta ← okOr (checkedSub issuedAtNext issuedAtQuantum) .arithmeticOverflow
    let product ← u128Checked (quantumDelta.toNat * withinQuantumNs)
    let part ← okOr (u64TryFrom (product / emissionQuantumNs)) .arithmeticOverflow
    let issued ← okOr (checkedAdd baseIssuedAtoms issuedAtQuantum) .arithmeticOverflow
    okOr (checkedAdd issued part) .arithmeticOverflow

/-- `total_supply_atoms_for_score`. -/
def totalSupplyAtomsForScore (score : ℕ) (segments : List MonetaryCadenceSegment) :
    Except MonetaryV3Error UInt64 := do
  let economicTimeNs ← economicTimeNsForScore score segments
  targetIssuanceAtoms economicTimeNs

/-- `subsidy_atoms_for_score`. -/
def subsidyAtomsForScore (score : ℕ) (segments : List MonetaryCadenceSegment) :
    Except MonetaryV3Error UInt64 :=
  if score = 0 then pure 0
  else do
    let previous ← totalSupplyAtomsForScore (score - 1) segments
    let current ← totalSupplyAtomsForScore score segments
    okOr (checkedSub current previous) .arithmeticOverflow

/-- `authorized_issuance_atoms`. -/
def authorizedIssuanceAtoms (fromScore toScore : ℕ) (segments : List MonetaryCadenceSegment) :
    Except MonetaryV3Error UInt64 := do
  ensure (fromScore ≤ toScore) .nonMonotonicScoreRange
  let issuedBefore ← totalSupplyAtomsForScore fromScore segments
  let issuedAfter ← totalSupplyAtomsForScore toScore segments
  okOr (checkedSub issuedAfter issuedBefore) .arithmeticOverflow

/-- `max_coinbase_claim_atoms`. -/
def maxCoinbaseClaimAtoms (score : ℕ) (eligibleFeesAtoms : UInt64)
    (segments : List MonetaryCadenceSegment) : Except MonetaryV3Error UInt64 := do
  let subsidy ← subsidyAtomsForScore score segments
  okOr (checkedAdd subsidy eligibleFeesAtoms) .arithmeticOverflow

/-- `economic_maturity_reached`. -/
def economicMaturityReached (rewardScore currentScore : ℕ)
    (segments : List MonetaryCadenceSegment) : Except MonetaryV3Error Bool :=
  if currentScore < rewardScore then pure false
  else do
    let rewardTime ← economicTimeNsForScore rewardScore segments
    let currentTime ← economicTimeNsForScore currentScore segments
    pure (decide (coinbaseMaturityNs ≤ currentTime - rewardTime))

/-! ## Economic time -/

variable {result score a b currentScore rewardScore base exponent fuel : ℕ}
  {segments : List MonetaryCadenceSegment}

/-- A checked value is kept. -/
theorem u128Checked_eq_ok {value : ℕ} :
    u128Checked value = .ok result ↔ value ≤ u128Max ∧ result = value := by
  rw [u128Checked, bind_eq_ok]
  simp only [ensure_eq_ok, pure_eq_ok, Except.ok.injEq, exists_const]
  rw [eq_comm (a := result)]

/-- The score at which a segment ends for the time of a score. -/
def segmentEnd (score : ℕ) (rest : List MonetaryCadenceSegment) : ℕ :=
  min score ((rest.head?.map fun next => next.activationScore.toNat).getD score)

/-- The economic time of a score as the sum over all segments. -/
def economicTime (score : ℕ) : List MonetaryCadenceSegment → ℕ
  | [] => 0
  | segment :: rest =>
    (segmentEnd score rest - segment.activationScore.toNat) * segment.targetIntervalNs.toNat +
      economicTime score rest

/-- The checks of a first segment. -/
theorem validateCadencePairs_cons {segment : MonetaryCadenceSegment}
    {rest : List MonetaryCadenceSegment} (h : validateCadencePairs (segment :: rest) = .ok ()) :
    validateCadencePairs rest = .ok () ∧
      ∀ next ∈ rest.head?, segment.activationScore.toNat < next.activationScore.toNat := by
  cases rest with
  | nil => simp [validateCadencePairs]
  | cons next rest =>
    simp only [validateCadencePairs, bind_eq_ok, ensure_eq_ok] at h
    obtain ⟨-, hlt, -, -, hrest⟩ := h
    refine ⟨hrest, fun other hother => ?_⟩
    obtain rfl := Option.some.inj hother
    exact UInt64.lt_iff_toNat_lt.mp hlt

/-- Segments that start at the score or later contribute nothing. -/
theorem economicTime_eq_zero (hpairs : validateCadencePairs segments = .ok ())
    (hfirst : ∀ first ∈ segments.head?, score ≤ first.activationScore.toNat) :
    economicTime score segments = 0 := by
  induction segments with
  | nil => rfl
  | cons segment rest ih =>
    obtain ⟨hrest, hnext⟩ := validateCadencePairs_cons hpairs
    have hscore := hfirst segment rfl
    have hzero := ih hrest fun next hmem => hscore.trans (hnext next hmem).le
    have hend : segmentEnd score rest - segment.activationScore.toNat = 0 := by
      unfold segmentEnd
      omega
    rw [economicTime, hzero, hend, Nat.zero_mul]

variable {start lower upper quantum : ℕ} {atoms : UInt64}

/-- The loop adds the time of all segments and fails exactly when the sum is no `u128`. -/
theorem economicTimeFrom_eq (hpairs : validateCadencePairs segments = .ok ())
    (hstart : start ≤ u128Max) :
    economicTimeFrom score segments start = u128Checked (start + economicTime score segments) := by
  induction segments generalizing start with
  | nil => exact (u128Checked_eq_ok.mpr ⟨hstart, rfl⟩).symm
  | cons segment rest ih =>
    obtain ⟨hrest, hnext⟩ := validateCadencePairs_cons hpairs
    rw [economicTimeFrom]
    by_cases hscore : score ≤ segment.activationScore.toNat
    · rw [if_pos hscore, economicTime_eq_zero hpairs fun first hfirst =>
        Option.some.inj hfirst ▸ hscore]
      exact (u128Checked_eq_ok.mpr ⟨hstart, rfl⟩).symm
    · rw [if_neg hscore]
      -- the next segment starts later, so this one is never skipped
      have hpos : segment.activationScore.toNat < segmentEnd score rest := by
        unfold segmentEnd
        cases hhead : rest.head? with
        | none =>
          rw [Option.map_none, Option.getD_none, Nat.min_self]
          omega
        | some next =>
          have := hnext next hhead
          rw [Option.map_some, Option.getD_some]
          omega
      change (if segmentEnd score rest ≤ _ then _ else _) = _
      rw [if_neg (not_le.mpr hpos), economicTime]
      set contribution := (segmentEnd score rest - segment.activationScore.toNat) *
        segment.targetIntervalNs.toNat
      by_cases hfits : start + contribution ≤ u128Max
      · have hpart : u128Checked contribution = .ok contribution :=
          u128Checked_eq_ok.mpr ⟨by omega, rfl⟩
        have hsum : u128Checked (start + contribution) = .ok (start + contribution) :=
          u128Checked_eq_ok.mpr ⟨hfits, rfl⟩
        change (u128Checked contribution >>= _) = _
        rw [hpart, ok_bind, hsum, ok_bind]
        change (if segmentEnd score rest = score then _ else _) = _
        by_cases hend : segmentEnd score rest = score
        · have hzero : economicTime score rest = 0 := by
            apply economicTime_eq_zero hrest
            intro next hmem
            have hmin : segmentEnd score rest = min score next.activationScore.toNat := by
              rw [segmentEnd, hmem, Option.map_some, Option.getD_some]
            omega
          rw [if_pos hend, hzero]
          exact hsum.symm
        · rw [if_neg hend, ih hrest hfits, Nat.add_assoc]
      · -- too much already, whatever the later segments add
        have hover : ∀ more, u128Checked (start + (contribution + more)) =
            .error .arithmeticOverflow := by
          intro more
          rw [u128Checked, ensure, if_neg (by omega)]
          rfl
        rw [hover]
        change (u128Checked contribution >>= _) = _
        by_cases hpart : contribution ≤ u128Max
        · rw [u128Checked_eq_ok.mpr ⟨hpart, rfl⟩, ok_bind, ← Nat.add_zero contribution, hover]
          rfl
        · rw [u128Checked, ensure, if_neg hpart]
          rfl

/-- Later scores have a later time. -/
theorem economicTime_mono (h : a ≤ b) (segments : List MonetaryCadenceSegment) :
    economicTime a segments ≤ economicTime b segments := by
  induction segments with
  | nil => exact le_rfl
  | cons segment rest ih =>
    have hend : segmentEnd a rest ≤ segmentEnd b rest := by
      unfold segmentEnd
      cases rest.head? with
      | none => simpa using h
      | some next =>
        rw [Option.map_some, Option.getD_some, Option.getD_some]
        omega
    unfold economicTime
    gcongr

/-- The checks of a schedule. -/
theorem validateCadenceSegments_eq_ok :
    validateCadenceSegments segments = .ok () ↔
      (∃ first, segments.head? = some first ∧ first.activationScore = 0 ∧
        first.targetIntervalNs ≠ 0) ∧ validateCadencePairs segments = .ok () := by
  simp only [validateCadenceSegments, bind_eq_ok, okOr_eq_ok, ensure_eq_ok, exists_const]
  constructor
  · rintro ⟨first, hfirst, hzero, hinterval, hpairs⟩
    exact ⟨⟨first, hfirst, hzero, hinterval⟩, hpairs⟩
  · rintro ⟨⟨first, hfirst, hzero, hinterval⟩, hpairs⟩
    exact ⟨first, hfirst, hzero, hinterval, hpairs⟩

/-- The economic time of a score under an accepted cadence. -/
theorem economicTimeNsForScore_eq (hvalid : validateCadenceSegments segments = .ok ()) :
    economicTimeNsForScore score segments = u128Checked (economicTime score segments) := by
  have hpairs := (validateCadenceSegments_eq_ok.mp hvalid).2
  rw [economicTimeNsForScore, hvalid, ok_bind, economicTimeFrom_eq hpairs (Nat.zero_le _),
    Nat.zero_add]

/-- A time that is computed is exact. -/
theorem economicTimeNsForScore_eq_ok (h : economicTimeNsForScore score segments = .ok result) :
    result = economicTime score segments := by
  obtain ⟨⟨⟩, hvalid, -⟩ := bind_eq_ok.mp h
  rw [economicTimeNsForScore_eq hvalid, u128Checked_eq_ok] at h
  exact h.2

/-- The rewards that are mature at a score. -/
def Matured (rewardScore currentScore : ℕ) (segments : List MonetaryCadenceSegment) : Prop :=
  rewardScore ≤ currentScore ∧
    coinbaseMaturityNs ≤ economicTime currentScore segments - economicTime rewardScore segments

/-- An answer about maturity is right. -/
theorem economicMaturityReached_eq_ok {answer : Bool}
    (h : economicMaturityReached rewardScore currentScore segments = .ok answer) :
    answer = true ↔ Matured rewardScore currentScore segments := by
  unfold economicMaturityReached at h
  unfold Matured
  by_cases hlt : currentScore < rewardScore
  · rw [if_pos hlt] at h
    obtain rfl := Except.ok.inj h
    constructor
    · intro hfalse
      cases hfalse
    · intro hmatured
      omega
  · rw [if_neg hlt] at h
    simp only [ok_iff] at h
    obtain ⟨rewardTime, hreward, currentTime, hcurrent, rfl⟩ := h
    rw [decide_eq_true_iff, economicTimeNsForScore_eq_ok hreward,
      economicTimeNsForScore_eq_ok hcurrent]
    exact ⟨fun hmature => ⟨not_lt.mp hlt, hmature⟩, fun hmature => hmature.2⟩

/-- Older rewards have matured as well. -/
theorem Matured.of_le (hle : a ≤ b) (h : Matured b currentScore segments) :
    Matured a currentScore segments := by
  have htime := economicTime_mono hle segments
  exact ⟨hle.trans h.1, h.2.trans (by omega)⟩

/-- A matured reward stays so. -/
theorem Matured.mono (hle : a ≤ b) (h : Matured rewardScore a segments) :
    Matured rewardScore b segments := by
  have htime := economicTime_mono hle segments
  exact ⟨h.1.trans hle, h.2.trans (by omega)⟩

/-- A reward is not mature at its own score. -/
theorem Matured.lt (h : Matured rewardScore currentScore segments) :
    rewardScore < currentScore := by
  refine lt_of_le_of_ne h.1 fun heq => ?_
  have hmature := h.2
  rw [heq, Nat.sub_self] at hmature
  exact absurd hmature (by decide)

/-! ## The supply curve -/

/-- `q64_pow` without its overflow checks. -/
def q64PowFloor : ℕ → ℕ → ℕ → ℕ → ℕ
  | 0, _, result, _ => result
  | fuel + 1, exponent, result, base =>
    if exponent = 0 then result
    else
      q64PowFloor fuel (exponent / 2)
        (if exponent % 2 = 1 then result * base / 2 ^ 64 else result) (base * base / 2 ^ 64)

/-- A product that is computed is exact. -/
theorem q64Mul_eq_ok {lhs rhs : ℕ} (h : q64Mul lhs rhs = .ok result) :
    result = lhs * rhs / 2 ^ 64 := by
  simp only [q64Mul, ok_iff, u128Checked_eq_ok] at h
  obtain ⟨product, ⟨-, rfl⟩, rfl⟩ := h
  exact Nat.shiftRight_eq_div_pow _ _

/-- The power with exponent zero. -/
theorem q64PowFloor_zero (fuel result base : ℕ) : q64PowFloor fuel 0 result base = result := by
  cases fuel <;> rfl

/-- A power that is computed is exact. -/
theorem q64PowLoop_eq_ok (h : q64PowLoop fuel exponent start base = .ok result) :
    result = q64PowFloor fuel exponent start base := by
  induction fuel generalizing exponent start base with
  | zero =>
    obtain rfl := Except.ok.inj h
    rfl
  | succ fuel ih =>
    rw [q64PowLoop] at h
    by_cases hzero : exponent = 0
    · rw [if_pos hzero] at h
      obtain rfl := Except.ok.inj h
      rw [hzero, q64PowFloor_zero]
    · rw [if_neg hzero] at h
      simp only [bind_eq_ok] at h
      obtain ⟨next, hnext, square, hsquare, hrest⟩ := h
      have hnextEq : next = if exponent % 2 = 1 then start * base / 2 ^ 64 else start := by
        by_cases hodd : exponent % 2 = 1
        · rw [if_pos hodd] at hnext ⊢
          exact q64Mul_eq_ok hnext
        · rw [if_neg hodd] at hnext ⊢
          exact (Except.ok.inj hnext).symm
      rw [ih hrest, q64PowFloor, if_neg hzero, hnextEq]
      by_cases hlast : exponent / 2 = 0
      · -- the base is not squared for an exponent that is used up
        rw [hlast, q64PowFloor_zero, q64PowFloor_zero]
      · rw [if_pos hlast] at hsquare
        rw [q64Mul_eq_ok hsquare]

/-- Multiplying by a fraction does not grow. -/
theorem mul_div_le_self (hbase : base ≤ 2 ^ 64) : result * base / 2 ^ 64 ≤ result := by
  calc result * base / 2 ^ 64 ≤ result * 2 ^ 64 / 2 ^ 64 := by gcongr
    _ = result := Nat.mul_div_cancel _ (by decide)

/-- Powers of a fraction do not grow. -/
theorem q64PowFloor_le (hbase : base ≤ 2 ^ 64) :
    q64PowFloor fuel exponent result base ≤ result := by
  induction fuel generalizing exponent result base with
  | zero => exact le_rfl
  | succ fuel ih =>
    rw [q64PowFloor]
    split
    · exact le_rfl
    · refine (ih ((mul_div_le_self hbase).trans hbase)).trans ?_
      split
      · exact mul_div_le_self hbase
      · exact le_rfl

/-- A greater start gives a greater result. -/
theorem q64PowFloor_mono (h : lower ≤ upper) :
    q64PowFloor fuel exponent lower base ≤ q64PowFloor fuel exponent upper base := by
  induction fuel generalizing exponent lower upper base with
  | zero => exact h
  | succ fuel ih =>
    rw [q64PowFloor, q64PowFloor]
    split
    · exact h
    · apply ih
      split
      · gcongr
      · exact h

/-- Counting an exponent up by one clears its trailing ones and sets the digit above them. The
check says that for up to `digits` trailing ones this makes the partial result smaller. -/
def carryShrinks : ℕ → ℕ → ℕ → ℕ → Bool
  | 0, _, _, _ => true
  | digits + 1, upper, lower, base =>
    decide (lower * base / 2 ^ 64 ≤ upper) &&
      carryShrinks digits (upper * base / 2 ^ 64) lower (base * base / 2 ^ 64)

/-- One more factor does not grow, carries included. -/
theorem q64PowFloor_succ_le {digits : ℕ} (hcarry : carryShrinks digits upper lower base = true)
    (hexponent : exponent + 1 < 2 ^ digits) (hfuel : digits ≤ fuel) :
    q64PowFloor fuel (exponent + 1) lower base ≤ q64PowFloor fuel exponent upper base := by
  induction digits generalizing fuel exponent upper base with
  | zero => omega
  | succ digits ih =>
    obtain ⟨fuel, rfl⟩ : ∃ rest, fuel = rest + 1 := ⟨fuel - 1, by omega⟩
    rw [carryShrinks, Bool.and_eq_true, decide_eq_true_iff] at hcarry
    rw [Nat.pow_succ] at hexponent
    rw [q64PowFloor, if_neg (Nat.succ_ne_zero exponent)]
    rcases Nat.even_or_odd exponent with heven | hodd
    · -- the last digit is set, and the digits above it stay
      have hhalf : (exponent + 1) / 2 = exponent / 2 := by grind
      have hodd : (exponent + 1) % 2 = 1 := by grind
      rw [if_pos hodd, hhalf]
      by_cases hzero : exponent = 0
      · rw [hzero, Nat.zero_div, q64PowFloor_zero, q64PowFloor_zero]
        exact hcarry.1
      · rw [q64PowFloor, if_neg hzero, if_neg (by grind)]
        exact q64PowFloor_mono hcarry.1
    · -- the last digit is cleared and carried to the next
      have hhalf : (exponent + 1) / 2 = exponent / 2 + 1 := by grind
      have hlast : exponent % 2 = 1 := by grind
      rw [if_neg (by grind), hhalf, q64PowFloor, if_neg (by grind), if_pos hlast]
      exact ih hcarry.2 (by omega) (by omega)

/-- The decay over a number of quanta. -/
def decayPower (quantum : ℕ) : ℕ := q64PowFloor 64 quantum q64One decayFactorQ64

/-- The decay is at most one. -/
theorem decayPower_le (quantum : ℕ) : decayPower quantum ≤ q64One := q64PowFloor_le (by decide)

/-- The decay at the end of a half-life. -/
theorem decayPower_halfLife : decayPower halfLifeQuanta = halfLifeEndFactorQ64 := by decide +kernel

/-- The decay goes down. -/
theorem decayPower_antitone (hab : a ≤ b) (hb : b ≤ halfLifeQuanta) :
    decayPower b ≤ decayPower a := by
  have hcarry : carryShrinks 13 q64One q64One decayFactorQ64 = true := by decide +kernel
  induction b, hab using Nat.le_induction with
  | base => exact le_rfl
  | succ b _ ih =>
    have hsmall : b + 1 < 2 ^ 13 := by
      unfold halfLifeQuanta at hb
      omega
    exact (q64PowFloor_succ_le hcarry hsmall (by decide)).trans (ih (by omega))

/-- The decay over at most one half-life stays above its end factor. -/
theorem halfLifeEndFactorQ64_le_decayPower (h : quantum ≤ halfLifeQuanta) :
    halfLifeEndFactorQ64 ≤ decayPower quantum :=
  decayPower_halfLife ▸ decayPower_antitone h le_rfl

/-- Within a half-life the curve never passes the budget of the half-life. -/
theorem issuanceWithinHalfLifeAtQuantum_le {budget issued : UInt64}
    (h : issuanceWithinHalfLifeAtQuantum budget quantum = .ok issued) :
    issued.toNat ≤ budget.toNat := by
  simp only [issuanceWithinHalfLifeAtQuantum, bind_eq_ok, ensure_eq_ok, u128Checked_eq_ok,
    okOr_eq_ok, u64TryFrom_eq_some] at h
  obtain ⟨-, hquantum, factor, hfactor, -, -, -, -, product, ⟨-, rfl⟩, hissued⟩ := h
  have hend := halfLifeEndFactorQ64_le_decayPower hquantum
  rw [decayPower, ← q64PowLoop_eq_ok hfactor] at hend
  have hprogress : q64One - factor ≤ q64One - halfLifeEndFactorQ64 := by omega
  rw [hissued]
  calc budget.toNat * (q64One - factor) / (q64One - halfLifeEndFactorQ64)
      ≤ budget.toNat * (q64One - halfLifeEndFactorQ64) / (q64One - halfLifeEndFactorQ64) := by
        gcongr
    _ = budget.toNat := Nat.mul_div_cancel _ (by decide)

/-- The curve never passes the maximal supply. -/
theorem targetIssuanceAtoms_le {economicTimeNs : ℕ}
    (h : targetIssuanceAtoms economicTimeNs = .ok atoms) : atoms.toNat ≤ maxSupplyAtoms.toNat := by
  simp only [targetIssuanceAtoms] at h
  split at h
  · rw [← Except.ok.inj h]
  · simp only [ok_iff, checkedSub_eq_some, checkedAdd_eq_some, u128Checked_eq_ok,
      u64TryFrom_eq_some] at h
    obtain ⟨-, -, start, -, final, -, budget, hbudget, base, hbase, -, -, issued, -, next, hnext,
      delta, hdelta, product, ⟨-, rfl⟩, part, hpart, sum, hsum, hatoms⟩ := h
    have hle := issuanceWithinHalfLifeAtQuantum_le hnext
    have hpartLe : part.toNat ≤ delta.toNat := by
      have hwithin : economicTimeNs % halfLifeNs % emissionQuantumNs ≤ emissionQuantumNs :=
        (Nat.mod_lt _ (by decide)).le
      rw [hpart]
      calc delta.toNat * (economicTimeNs % halfLifeNs % emissionQuantumNs) / emissionQuantumNs
          ≤ delta.toNat * emissionQuantumNs / emissionQuantumNs := by gcongr
        _ = delta.toNat := Nat.mul_div_cancel _ (by decide)
    omega

/-- The supply is bounded. -/
theorem totalSupplyAtomsForScore_le (h : totalSupplyAtomsForScore score segments = .ok atoms) :
    atoms.toNat ≤ maxSupplyAtoms.toNat := by
  simp only [totalSupplyAtomsForScore, bind_eq_ok] at h
  obtain ⟨time, -, htarget⟩ := h
  exact targetIssuanceAtoms_le htarget

/-- Nothing is issued at the genesis. -/
theorem totalSupplyAtomsForScore_zero (hvalid : validateCadenceSegments segments = .ok ()) :
    totalSupplyAtomsForScore 0 segments = .ok 0 := by
  have htime : economicTimeFrom 0 segments 0 = .ok 0 := by
    cases segments with
    | nil => rfl
    | cons segment rest => rw [economicTimeFrom, if_pos (Nat.zero_le _)]
  have htarget : targetIssuanceAtoms 0 = .ok 0 := by decide +kernel
  rw [totalSupplyAtomsForScore, economicTimeNsForScore, hvalid, ok_bind, htime, ok_bind, htarget]

/-- The subsidies add up along the curve. -/
theorem subsidyAtomsForScore_succ {subsidy previous : UInt64}
    (h : subsidyAtomsForScore (score + 1) segments = .ok subsidy)
    (hprevious : totalSupplyAtomsForScore score segments = .ok previous) :
    ∃ current, totalSupplyAtomsForScore (score + 1) segments = .ok current ∧
      current.toNat = previous.toNat + subsidy.toNat := by
  rw [subsidyAtomsForScore, if_neg (Nat.succ_ne_zero score)] at h
  simp only [ok_iff, checkedSub_eq_some, Nat.add_sub_cancel] at h
  obtain ⟨before, hbefore, current, hcurrent, hsum⟩ := h
  rw [hprevious] at hbefore
  obtain rfl := Except.ok.inj hbefore
  exact ⟨current, hcurrent, hsum⟩

end PulseDag
