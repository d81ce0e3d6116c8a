import PulseDag.Network.CompactTarget
import PulseDag.Network.TargetScaling

/-!
# Retargeting with subsecond timestamps

`retarget_v3.rs`. The average interval of a window of timestamps gives a multiplier for the work,
and its reciprocal one for the target, which is rounded down when it gets smaller and up when it
gets larger. The result is bounded and made compact.
-/

namespace PulseDag

/-! ## The model -/

/-- `PRODUCTION_CADENCE_TARGET_INTERVAL_NS_V3`. -/
def productionCadenceTargetIntervalNsV3 : ℕ := 500000000

/-- `PRODUCTION_V3_RETARGET_WINDOW`. -/
def productionV3RetargetWindow : ℕ := 20

/-- `V3RetargetSample`. -/
structure V3RetargetSample where
  timestampNs : UInt64
  bits : UInt32
  deriving DecidableEq, Repr

/-- `V3RetargetDecision`. -/
structure V3RetargetDecision where
  expectedBits : UInt32
  observedIntervals : ℕ
  averageIntervalNs : ℕ
  workMultiplierBps : ℕ
  deriving DecidableEq, Repr

/-- `V3SubsecondConsensusError`, the variants of the retarget. -/
inductive V3SubsecondConsensusError
  | emptyWindow
  | windowTooLarge
  | zeroTimestamp
  | nonMonotonicWindow
  deriving DecidableEq, Repr

/-- The work multiplier before the deadband and the damping, in basis points. -/
def rawWorkMultiplierBps (averageIntervalNs : ℕ) : ℕ :=
  productionCadenceTargetIntervalNsV3 * 10000 / max averageIntervalNs 1

/-- `retarget_work_multiplier_bps`. -/
def retargetWorkMultiplierBps (averageIntervalNs : ℕ) : ℕ :=
  let raw := rawWorkMultiplierBps averageIntervalNs
  let lower := 10000 - 800
  let upper := 10000 + 800
  if lower ≤ raw ∧ raw ≤ upper then 10000
  else
    let damped : ℤ := 10000 + ((raw : ℤ) - 10000).tdiv 2
    min (max damped.toNat 8000) 12500

/-- The sum of the intervals between neighbours of a window. -/
def totalIntervalNs : List V3RetargetSample → Except V3SubsecondConsensusError ℕ
  | newer :: older :: rest => do
    ensure (older.timestampNs < newer.timestampNs) .nonMonotonicWindow
    let further ← totalIntervalNs (older :: rest)
    pure ((newer.timestampNs.toNat - older.timestampNs.toNat) + further)
  | _ => .ok 0

/-- `consensus_pow_limit_target`. -/
def consensusPowLimitTarget : ℕ := targetFromBits consensusPowLimitBits

/-- `consensus_min_target`. -/
def consensusMinTarget : ℕ := targetFromBits consensusMinTargetBits

/-- A scaled target within the bounds, for a target and whether it overflowed. -/
def boundScaledV3 (scaled : ℕ × Bool) : ℕ :=
  if scaled.2 = true ∨ scaled.1 > consensusPowLimitTarget then consensusPowLimitTarget
  else if scaled.1 < consensusMinTarget then consensusMinTarget
  else scaled.1

/-- The target after the current one, for a work multiplier. -/
def nextTargetV3 (currentBits : UInt32) (workMultiplierBps : ℕ) : ℕ :=
  let currentTarget := targetFromBits currentBits
  let boundedCurrent := max consensusMinTarget (min currentTarget consensusPowLimitTarget)
  let targetMultiplierBps := consensusTargetMultiplierBpsFromWorkMultiplier workMultiplierBps
  boundScaledV3 <|
    if targetMultiplierBps > 10000 then
      scaleTargetRatioCeilV3 boundedCurrent targetMultiplierBps 10000
    else scaleTargetRatio boundedCurrent targetMultiplierBps 10000

/-- `expected_difficulty_for_v3_window_ns`. -/
def expectedDifficultyForV3WindowNs (newestFirst : List V3RetargetSample) :
    Except V3SubsecondConsensusError V3RetargetDecision :=
  match newestFirst with
  | [] => .error .emptyWindow
  | newest :: _ => do
    ensure (newestFirst.length ≤ productionV3RetargetWindow) .windowTooLarge
    ensure (∀ sample ∈ newestFirst, sample.timestampNs ≠ 0) .zeroTimestamp
    let total ← totalIntervalNs newestFirst
    let intervals := newestFirst.length - 1
    let averageIntervalNs :=
      if intervals = 0 then productionCadenceTargetIntervalNsV3 else total / intervals % 2 ^ 64
    let workMultiplierBps := retargetWorkMultiplierBps averageIntervalNs
    pure
      { expectedBits := bitsFromTarget (nextTargetV3 newest.bits workMultiplierBps)
        observedIntervals := intervals
        averageIntervalNs := averageIntervalNs
        workMultiplierBps := workMultiplierBps }

/-! ## The multipliers -/

variable {average average' multiplier : ℕ}

/-- Longer intervals ask for less work. -/
theorem rawWorkMultiplierBps_anti (h : average ≤ average') :
    rawWorkMultiplierBps average' ≤ rawWorkMultiplierBps average :=
  Nat.div_le_div_left (by omega) (by omega)

/-- What the deadband and the damping make of the raw multiplier. -/
theorem retargetWorkMultiplierBps_eq (average : ℕ) :
    retargetWorkMultiplierBps average =
      if rawWorkMultiplierBps average < 9200 then
        max (10000 - (10000 - rawWorkMultiplierBps average) / 2) 8000
      else if rawWorkMultiplierBps average ≤ 10800 then 10000
      else min (10000 + (rawWorkMultiplierBps average - 10000) / 2) 12500 := by
  rw [retargetWorkMultiplierBps]
  generalize rawWorkMultiplierBps average = raw
  dsimp only
  rcases Nat.lt_or_ge raw 9200 with hlow | hlow
  · have hdamped : ((raw : ℤ) - 10000).tdiv 2 = -((10000 - raw : ℕ) / 2 : ℕ) := by
      rw [show ((raw : ℤ) - 10000) = -((10000 - raw : ℕ) : ℤ) by omega, Int.neg_tdiv]
      rfl
    rw [if_neg (by omega), if_pos hlow, hdamped]
    omega
  · rw [if_neg (by omega : ¬raw < 9200)]
    rcases Nat.lt_or_ge 10800 raw with hhigh | hhigh
    · have hdamped : ((raw : ℤ) - 10000).tdiv 2 = ((raw - 10000 : ℕ) / 2 : ℕ) := by
        rw [show ((raw : ℤ) - 10000) = ((raw - 10000 : ℕ) : ℤ) by omega]
        rfl
      rw [if_neg (by omega), if_neg (by omega), hdamped]
      omega
    · rw [if_pos (by omega), if_pos hhigh]

/-- The bounds of the work multiplier. -/
theorem retargetWorkMultiplierBps_mem (average : ℕ) :
    8000 ≤ retargetWorkMultiplierBps average ∧ retargetWorkMultiplierBps average ≤ 12500 := by
  rw [retargetWorkMultiplierBps_eq]
  split_ifs <;> omega

/-- It falls with the interval. -/
theorem retargetWorkMultiplierBps_anti (h : average ≤ average') :
    retargetWorkMultiplierBps average' ≤ retargetWorkMultiplierBps average := by
  have hraw := rawWorkMultiplierBps_anti h
  rw [retargetWorkMultiplierBps_eq, retargetWorkMultiplierBps_eq]
  split_ifs <;> omega

/-- The reciprocal of a multiplier, rounded to the nearest. -/
theorem targetMultiplierBps_eq (h : 0 < multiplier) :
    consensusTargetMultiplierBpsFromWorkMultiplier multiplier =
      (200000000 + multiplier) / (2 * multiplier) := by
  have hmax : max multiplier 1 = multiplier := by omega
  rw [consensusTargetMultiplierBpsFromWorkMultiplier, hmax, bpsDenominator]
  refine eq_of_forall_le_iff fun q => ?_
  have hdouble : q * (2 * multiplier) = 2 * (q * multiplier) := Nat.mul_left_comm _ _ _
  rw [Nat.le_div_iff_mul_le h, Nat.le_div_iff_mul_le (by omega), hdouble]
  omega

/-- More work means a smaller target. -/
theorem targetMultiplierBps_anti {multiplier' : ℕ} (hpos : 0 < multiplier)
    (h : multiplier ≤ multiplier') :
    consensusTargetMultiplierBpsFromWorkMultiplier multiplier' ≤
      consensusTargetMultiplierBpsFromWorkMultiplier multiplier := by
  rw [targetMultiplierBps_eq hpos, targetMultiplierBps_eq (hpos.trans_le h),
    Nat.le_div_iff_mul_le (by omega)]
  have hquotient := Nat.div_mul_le_self (200000000 + multiplier') (2 * multiplier')
  cases hq : (200000000 + multiplier') / (2 * multiplier') with
  | zero => omega
  | succ q =>
    rw [hq] at hquotient
    have hscaled : (2 * q + 1) * multiplier ≤ (2 * q + 1) * multiplier' := Nat.mul_le_mul_left _ h
    have hsum : (q + 1) * (2 * multiplier) = (2 * q + 1) * multiplier + multiplier := by ring
    have hsum' : (q + 1) * (2 * multiplier') = (2 * q + 1) * multiplier' + multiplier' := by ring
    omega

/-- The multiplier for the target, for the average interval of a window. -/
def targetMultiplierV3 (average : ℕ) : ℕ :=
  consensusTargetMultiplierBpsFromWorkMultiplier (retargetWorkMultiplierBps average)

/-- The target multiplier grows with the interval. -/
theorem targetMultiplierV3_mono (h : average ≤ average') :
    targetMultiplierV3 average ≤ targetMultiplierV3 average' :=
  targetMultiplierBps_anti (Nat.zero_lt_of_lt (retargetWorkMultiplierBps_mem average').1)
    (retargetWorkMultiplierBps_anti h)

/-- Its upper bound. -/
theorem targetMultiplierV3_le (average : ℕ) : targetMultiplierV3 average ≤ 12500 :=
  targetMultiplierBps_anti (by decide) (retargetWorkMultiplierBps_mem average).1

/-- The multiplier inside the deadband, for slower blocks and for faster ones. -/
theorem targetMultiplierV3_cases (average : ℕ) :
    (9200 ≤ rawWorkMultiplierBps average ∧ rawWorkMultiplierBps average ≤ 10800 →
      targetMultiplierV3 average = 10000) ∧
    (rawWorkMultiplierBps average < 9200 → 10417 ≤ targetMultiplierV3 average) ∧
    (10800 < rawWorkMultiplierBps average → targetMultiplierV3 average ≤ 9615) := by
  have hwork := retargetWorkMultiplierBps_eq average
  have hpos := Nat.zero_lt_of_lt (retargetWorkMultiplierBps_mem average).1
  refine ⟨fun hinside => ?_, fun hslow => ?_, fun hfast => ?_⟩
  · rw [if_neg (by omega), if_pos hinside.2] at hwork
    rw [targetMultiplierV3, hwork]
    decide
  · rw [if_pos hslow] at hwork
    have hle : retargetWorkMultiplierBps average ≤ 9600 := by omega
    exact targetMultiplierBps_anti hpos hle
  · rw [if_neg (by omega), if_neg (by omega)] at hwork
    have hle : 10400 ≤ retargetWorkMultiplierBps average := by omega
    exact targetMultiplierBps_anti (by decide) hle

/-! ## The next target -/

/-- The current target within its bounds. -/
def boundedTargetV3 (bits : UInt32) : ℕ :=
  max consensusMinTarget (min (targetFromBits bits) consensusPowLimitTarget)

/-- The exact next target: rounded up when it gets larger, and down otherwise. -/
def exactTargetV3 (current multiplier : ℕ) : ℕ :=
  if multiplier > 10000 then current * multiplier ⌈/⌉ 10000 else current * multiplier / 10000

/-- The least target. -/
theorem consensusMinTarget_eq : consensusMinTarget = 1 := by decide +kernel

/-- The greatest target. -/
theorem consensusPowLimitTarget_eq : consensusPowLimitTarget = 0x7fffff * 256 ^ 29 := by
  decide +kernel

/-- A bounded target is in range. -/
theorem boundedTargetV3_mem (bits : UInt32) :
    1 ≤ boundedTargetV3 bits ∧ boundedTargetV3 bits ≤ consensusPowLimitTarget := by
  have hlimit := consensusPowLimitTarget_eq
  rw [boundedTargetV3, consensusMinTarget_eq]
  omega

/-- The next target is the exact one within the bounds. -/
theorem nextTargetV3_eq (bits : UInt32) (average : ℕ) :
    nextTargetV3 bits (retargetWorkMultiplierBps average) = max consensusMinTarget
      (min (exactTargetV3 (boundedTargetV3 bits) (targetMultiplierV3 average))
        consensusPowLimitTarget) := by
  have hbounded := (boundedTargetV3_mem bits).2
  have hmultiplier := targetMultiplierV3_le average
  have hlimit := consensusPowLimitTarget_eq
  have hmin := consensusMinTarget_eq
  have hscaled : (if targetMultiplierV3 average > 10000 then
        scaleTargetRatioCeilV3 (boundedTargetV3 bits) (targetMultiplierV3 average) 10000
      else scaleTargetRatio (boundedTargetV3 bits) (targetMultiplierV3 average) 10000) =
      (exactTargetV3 (boundedTargetV3 bits) (targetMultiplierV3 average) % 2 ^ 256,
        decide (2 ^ 256 ≤ exactTargetV3 (boundedTargetV3 bits) (targetMultiplierV3 average))) := by
    rw [exactTargetV3]
    split
    · exact scaleTargetRatioCeilV3_eq (by omega) (by omega) (by decide)
    · exact scaleTargetRatio_eq (by omega) (by omega) 10000
  have hnext : nextTargetV3 bits (retargetWorkMultiplierBps average) = boundScaledV3
      (if targetMultiplierV3 average > 10000 then
        scaleTargetRatioCeilV3 (boundedTargetV3 bits) (targetMultiplierV3 average) 10000
      else scaleTargetRatio (boundedTargetV3 bits) (targetMultiplierV3 average) 10000) := rfl
  rw [hnext, hscaled, boundScaledV3]
  generalize exactTargetV3 (boundedTargetV3 bits) (targetMultiplierV3 average) = exact
  simp only [decide_eq_true_eq]
  split_ifs <;> omega

/-- Ceilings by division. -/
theorem exactTargetV3_eq (current multiplier : ℕ) : exactTargetV3 current multiplier =
    (current * multiplier + if multiplier > 10000 then 9999 else 0) / 10000 := by
  rw [exactTargetV3]
  split
  · rw [Nat.ceilDiv_eq_add_pred_div]
    rfl
  · rfl

/-- The exact target grows with the multiplier. -/
theorem exactTargetV3_mono {current multiplier multiplier' : ℕ} (h : multiplier ≤ multiplier') :
    exactTargetV3 current multiplier ≤ exactTargetV3 current multiplier' := by
  have hscaled := Nat.mul_le_mul_left current h
  rw [exactTargetV3_eq, exactTargetV3_eq]
  refine Nat.div_le_div_right ?_
  split_ifs <;> omega

/-- Rounding to a compact target keeps a target that is larger by a good part above the old one. -/
theorem lt_truncated_of_slow {current target : ℕ} (hcurrent : 0 < current)
    (h : current * 10417 ≤ target * 10000) : current < compactFormat.truncated target := by
  have hlt := compactFormat.lt_truncated_add target
  have hbase : compactFormat.base = 256 := rfl
  rcases Nat.eq_zero_or_pos (compactFormat.dropped target) with hzero | hdropped
  · rw [hzero, pow_zero] at hlt
    omega
  · have hunit : 256 ^ 2 * 256 ^ compactFormat.dropped target ≤ 2 * target :=
      compactFormat.unit_le hdropped
    rw [hbase] at hlt
    omega

/-- The next target is in range. -/
theorem nextTargetV3_mem (bits : UInt32) (average : ℕ) :
    1 ≤ nextTargetV3 bits (retargetWorkMultiplierBps average) ∧
      nextTargetV3 bits (retargetWorkMultiplierBps average) ≤ consensusPowLimitTarget ∧
      nextTargetV3 bits (retargetWorkMultiplierBps average) < 2 ^ 255 := by
  have hlimit := consensusPowLimitTarget_eq
  rw [nextTargetV3_eq, consensusMinTarget_eq]
  omega

/-- The greatest target is representable. -/
theorem truncated_consensusPowLimitTarget :
    compactFormat.truncated consensusPowLimitTarget = consensusPowLimitTarget :=
  compactFormat.truncated_of_representable (representable_targetFromBits (by decide))

/-- Slow blocks raise the target. -/
theorem nextTargetV3_slow {bits : UInt32} {average : ℕ} (h : rawWorkMultiplierBps average < 9200) :
    let next := compactFormat.truncated (nextTargetV3 bits (retargetWorkMultiplierBps average))
    boundedTargetV3 bits < next ∨
      boundedTargetV3 bits = consensusPowLimitTarget ∧ next = consensusPowLimitTarget := by
  obtain ⟨hpos, hbounded⟩ := boundedTargetV3_mem bits
  have hmultiplier := (targetMultiplierV3_cases average).2.1 h
  have hproduct : boundedTargetV3 bits * 10417 ≤ boundedTargetV3 bits *
      targetMultiplierV3 average :=
    Nat.mul_le_mul_left _ hmultiplier
  have hexact := exactTargetV3_eq (boundedTargetV3 bits) (targetMultiplierV3 average)
  rw [if_pos (by omega)] at hexact
  have hceil : boundedTargetV3 bits * 10417 ≤
      exactTargetV3 (boundedTargetV3 bits) (targetMultiplierV3 average) * 10000 := by omega
  intro next
  have hnext : next = compactFormat.truncated (min
      (exactTargetV3 (boundedTargetV3 bits) (targetMultiplierV3 average))
      consensusPowLimitTarget) := by
    show compactFormat.truncated (nextTargetV3 _ _) = _
    rw [nextTargetV3_eq, consensusMinTarget_eq, max_eq_right (by omega)]
  rcases Nat.lt_or_ge consensusPowLimitTarget
    (exactTargetV3 (boundedTargetV3 bits) (targetMultiplierV3 average)) with hover | hwithin
  · rw [min_eq_right hover.le, truncated_consensusPowLimitTarget] at hnext
    omega
  · rw [min_eq_left hwithin] at hnext
    rw [hnext]
    exact .inl (lt_truncated_of_slow hpos hceil)

/-- Fast blocks lower the target. -/
theorem nextTargetV3_fast {bits : UInt32} {average : ℕ} (h : 10800 < rawWorkMultiplierBps average) :
    let next := compactFormat.truncated (nextTargetV3 bits (retargetWorkMultiplierBps average))
    next < boundedTargetV3 bits ∨ boundedTargetV3 bits = consensusMinTarget ∧
      next = consensusMinTarget := by
  obtain ⟨hpos, hbounded⟩ := boundedTargetV3_mem bits
  have hmultiplier := (targetMultiplierV3_cases average).2.2 h
  have hproduct : boundedTargetV3 bits * targetMultiplierV3 average ≤ boundedTargetV3 bits * 9615 :=
    Nat.mul_le_mul_left _ hmultiplier
  have hexact := exactTargetV3_eq (boundedTargetV3 bits) (targetMultiplierV3 average)
  rw [if_neg (by omega), Nat.add_zero] at hexact
  have hmin := consensusMinTarget_eq
  intro next
  have hle : next ≤ nextTargetV3 bits (retargetWorkMultiplierBps average) :=
    compactFormat.truncated_le _
  have hleast : 1 ≤ next := compactFormat.le_truncated ⟨1, 0, by decide, rfl⟩
    (nextTargetV3_mem bits average).1
  rw [nextTargetV3_eq] at hle
  omega

/-- Inside the deadband the bounded target stays. -/
theorem nextTargetV3_deadband {bits : UInt32} (hlower : 9200 ≤ rawWorkMultiplierBps average)
    (hupper : rawWorkMultiplierBps average ≤ 10800) :
    nextTargetV3 bits (retargetWorkMultiplierBps average) = boundedTargetV3 bits := by
  obtain ⟨hpos, hbounded⟩ := boundedTargetV3_mem bits
  have hexact := exactTargetV3_eq (boundedTargetV3 bits) 10000
  rw [if_neg (by omega), Nat.add_zero] at hexact
  rw [nextTargetV3_eq, (targetMultiplierV3_cases average).1 ⟨hlower, hupper⟩, hexact,
    consensusMinTarget_eq]
  omega

/-! ## Windows -/

/-- The intervals of a window add up to its span. -/
theorem totalIntervalNs_eq {newest : V3RetargetSample} {rest : List V3RetargetSample} {total : ℕ}
    (h : totalIntervalNs (newest :: rest) = .ok total) :
    total + ((newest :: rest).getLast (by simp)).timestampNs.toNat = newest.timestampNs.toNat := by
  induction rest generalizing newest total with
  | nil =>
    obtain rfl := Except.ok.inj h
    simp
  | cons older rest ih =>
    simp only [totalIntervalNs, bind_eq_ok, ensure_eq_ok, pure_eq_ok, Except.ok.injEq] at h
    obtain ⟨-, hlt, further, hfurther, rfl⟩ := h
    have hrest := ih hfurther
    rw [UInt64.lt_iff_toNat_lt] at hlt
    rw [List.getLast_cons (by simp)]
    omega

/-- What an accepted window decides. -/
theorem expectedDifficultyForV3WindowNs_ok {window : List V3RetargetSample}
    {decision : V3RetargetDecision}
    (h : expectedDifficultyForV3WindowNs window = .ok decision) :
    ∃ newest rest, window = newest :: rest ∧
      decision.averageIntervalNs = (if rest = [] then productionCadenceTargetIntervalNsV3
        else (newest.timestampNs.toNat - ((newest :: rest).getLast (by simp)).timestampNs.toNat) /
          rest.length) ∧
      decision.expectedBits = bitsFromTarget
        (nextTargetV3 newest.bits (retargetWorkMultiplierBps decision.averageIntervalNs)) := by
  cases window with
  | nil => cases h
  | cons newest rest =>
    simp only [expectedDifficultyForV3WindowNs, ok_iff] at h
    obtain ⟨-, -, -, -, total, htotal, rfl⟩ := h
    refine ⟨newest, rest, rfl, ?_, rfl⟩
    have hspan := totalIntervalNs_eq htotal
    have hlt := newest.timestampNs.toNat_lt
    dsimp only
    rw [List.length_cons, Nat.add_sub_cancel]
    by_cases hrest : rest = []
    · simp [hrest]
    · have hlength : rest.length ≠ 0 := by simpa using hrest
      have hsmall : total / rest.length < 2 ^ 64 := (Nat.div_le_self _ _).trans_lt (by omega)
      rw [if_neg hlength, if_neg hrest, Nat.mod_eq_of_lt hsmall]
      congr 1
      omega

/-- The law of the version 3 retarget. For an accepted window: the bits are canonical and in range,
they stay inside the deadband, and outside of it they move until they are at a bound. For two
windows with the same current bits: the bits and the target are monotone in the average interval.
The scaling of a target is exact. -/
theorem retargetV3_law :
    (∀ window decision, expectedDifficultyForV3WindowNs window = .ok decision →
      ∃ newest rest, window = newest :: rest ∧
        decision.averageIntervalNs = (if rest = [] then productionCadenceTargetIntervalNsV3
          else (newest.timestampNs.toNat - ((newest :: rest).getLast (by simp)).timestampNs.toNat) /
            rest.length) ∧
        let current := targetFromBits newest.bits
        let next := targetFromBits decision.expectedBits
        let raw := rawWorkMultiplierBps decision.averageIntervalNs
        (consensusMinTarget ≤ next ∧ next ≤ consensusPowLimitTarget ∧
          bitsFromTarget next = decision.expectedBits) ∧
        (9200 ≤ raw → raw ≤ 10800 → bitsFromTarget current = newest.bits →
          consensusMinTarget ≤ current →
          current ≤ consensusPowLimitTarget → decision.expectedBits = newest.bits) ∧
        (raw < 9200 → (boundedTargetV3 newest.bits < next ∨
            boundedTargetV3 newest.bits = consensusPowLimitTarget) ∧
          (current < next ∨ next = consensusPowLimitTarget)) ∧
        (10800 < raw → (next < boundedTargetV3 newest.bits ∨
            boundedTargetV3 newest.bits = consensusMinTarget) ∧
          (next < current ∨ next = consensusMinTarget))) ∧
    (∀ newest newest' rest rest' decision decision',
      expectedDifficultyForV3WindowNs (newest :: rest) = .ok decision →
      expectedDifficultyForV3WindowNs (newest' :: rest') = .ok decision' →
      newest.bits = newest'.bits → decision.averageIntervalNs ≤ decision'.averageIntervalNs →
      decision.expectedBits ≤ decision'.expectedBits ∧
        targetFromBits decision.expectedBits ≤ targetFromBits decision'.expectedBits) ∧
    (∀ target numerator denominator, target < 2 ^ 256 → numerator < 2 ^ 64 → 0 < denominator →
      scaleTargetRatio target numerator denominator =
        (target * numerator / denominator % 2 ^ 256,
          decide (2 ^ 256 ≤ target * numerator / denominator)) ∧
      scaleTargetRatioCeilV3 target numerator denominator =
        (target * numerator ⌈/⌉ denominator % 2 ^ 256,
          decide (2 ^ 256 ≤ target * numerator ⌈/⌉ denominator))) := by
  refine ⟨fun window decision hok => ?_, ?_, fun target numerator denominator ht hn hd => ⟨?_, ?_⟩⟩
  · obtain ⟨newest, rest, hwindow, haverage, hbits⟩ := expectedDifficultyForV3WindowNs_ok hok
    obtain ⟨hpos, hlimit, hbound⟩ := nextTargetV3_mem newest.bits decision.averageIntervalNs
    have hdecoded := targetFromBits_bitsFromTarget hpos hbound
    have hbounded : boundedTargetV3 newest.bits =
        max consensusMinTarget (min (targetFromBits newest.bits) consensusPowLimitTarget) := rfl
    have hmin := consensusMinTarget_eq
    have hlimitEq := consensusPowLimitTarget_eq
    obtain ⟨hle, -, hsame⟩ := decoded_below hpos hbound
    rw [← hbits] at hdecoded hle hsame
    have hleast : consensusMinTarget ≤ targetFromBits decision.expectedBits := by
      rw [hmin, hdecoded]
      exact compactFormat.le_truncated ⟨1, 0, by decide, rfl⟩ hpos
    refine ⟨newest, rest, hwindow, haverage, ⟨hleast, hle.trans hlimit, hsame⟩, ?_, ?_, ?_⟩
    · intro hlower hupper hcanonical hcurrent hmost
      rw [hbits, nextTargetV3_deadband hlower hupper, hbounded, min_eq_left hmost,
        max_eq_right hcurrent, hcanonical]
    · intro hraw
      have hmoves := @nextTargetV3_slow newest.bits _ hraw
      rw [← hdecoded] at hmoves
      omega
    · intro hraw
      have hmoves := @nextTargetV3_fast newest.bits _ hraw
      rw [← hdecoded] at hmoves
      omega
  · intro newest newest' rest rest' decision decision' hok hok' hsame haverage
    obtain ⟨first, others, hwindow, -, hbits⟩ := expectedDifficultyForV3WindowNs_ok hok
    obtain ⟨first', others', hwindow', -, hbits'⟩ := expectedDifficultyForV3WindowNs_ok hok'
    obtain ⟨rfl, rfl⟩ := List.cons.inj hwindow
    obtain ⟨rfl, rfl⟩ := List.cons.inj hwindow'
    obtain ⟨hpos, -, hbound⟩ := nextTargetV3_mem newest.bits decision.averageIntervalNs
    obtain ⟨-, -, hbound'⟩ := nextTargetV3_mem newest.bits decision'.averageIntervalNs
    have hmono : nextTargetV3 newest.bits (retargetWorkMultiplierBps decision.averageIntervalNs) ≤
        nextTargetV3 newest.bits (retargetWorkMultiplierBps decision'.averageIntervalNs) := by
      have hexact := @exactTargetV3_mono (boundedTargetV3 newest.bits) _ _
        (targetMultiplierV3_mono haverage)
      rw [nextTargetV3_eq, nextTargetV3_eq]
      exact max_le_max le_rfl (min_le_min hexact le_rfl)
    rw [hbits, hbits', ← hsame]
    exact ⟨bitsFromTarget_mono hpos hmono (by omega),
      (decoded_below hpos hbound).2.1 _ hmono hbound'⟩
  · have hmax : max denominator 1 = denominator := by omega
    rw [scaleTargetRatio_eq ht hn, hmax]
  · exact scaleTargetRatioCeilV3_eq ht hn hd

/-- Blocks every second, twice too slow, raise the target. -/
theorem retargetV3_law_slow :
    let window : List V3RetargetSample := [⟨1800000002000000000, 0x1e0fffff⟩,
      ⟨1800000001000000000, 0x1e0fffff⟩, ⟨1800000000000000000, 0x1e0fffff⟩]
    ∃ decision, expectedDifficultyForV3WindowNs window = .ok decision ∧
      decision.averageIntervalNs = 1000000000 ∧
      targetFromBits 0x1e0fffff < targetFromBits decision.expectedBits := by
  intro window
  have hrun : (expectedDifficultyForV3WindowNs window).toOption.map (fun decision =>
      (decision.averageIntervalNs, decide (targetFromBits decision.expectedBits =
        consensusPowLimitTarget))) =
      some (1000000000, false) := by decide +kernel
  cases hok : expectedDifficultyForV3WindowNs window with
  | error error =>
    rw [hok] at hrun
    cases hrun
  | ok decision =>
    rw [hok] at hrun
    obtain ⟨haverage, hlimit⟩ := Prod.mk.inj (Option.some.inj hrun)
    obtain ⟨newest, rest, hwindow, -, -, -, hslow, -⟩ := retargetV3_law.1 window decision hok
    obtain ⟨rfl, -⟩ := List.cons.inj hwindow
    refine ⟨decision, rfl, haverage, ?_⟩
    exact (hslow (by rw [haverage]; decide)).2.resolve_right (of_decide_eq_false hlimit)

end PulseDag
