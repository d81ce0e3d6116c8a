import PulseDag.Ledger.Monetary
import PulseDag.Lib.Interpolation

/-!
# The economic clock and the issuance curve

The clock of a cadence counts one interval for each score. The curve of the supply is defined for
every time: what remains halves at each half-life, the decay inside a half-life is normalised to
its budget, and the time inside a quantum is interpolated.
-/

namespace PulseDag

open List

/-! ## The clock -/

/-- The interval of a step, the one from `step - 1` to `step`: that of the last segment that was
activated before the step. -/
def activeIntervalNs (segments : List MonetaryCadenceSegment) (step : ℕ) : ℕ :=
  ((segments.filter fun segment => segment.activationScore.toNat < step).getLast?.map
    fun segment => segment.targetIntervalNs.toNat).getD 0

section

variable {segments rest : List MonetaryCadenceSegment} {segment : MonetaryCadenceSegment}
  {score step : ℕ}

/-- Later segments start later. -/
theorem validateCadencePairs_lt (h : validateCadencePairs (segment :: rest) = .ok ()) :
    ∀ next ∈ rest, segment.activationScore.toNat < next.activationScore.toNat := by
  induction rest generalizing segment with
  | nil => simp
  | cons next rest ih =>
    obtain ⟨hrest, hnext⟩ := validateCadencePairs_cons h
    have hlt := hnext next rfl
    rintro other (_ | ⟨_, hother⟩)
    · exact hlt
    · exact hlt.trans (ih hrest other hother)

/-- Later segments have a positive interval. -/
theorem validateCadencePairs_interval (h : validateCadencePairs (segment :: rest) = .ok ()) :
    ∀ next ∈ rest, next.targetIntervalNs ≠ 0 := by
  induction rest generalizing segment with
  | nil => simp
  | cons next rest ih =>
    simp only [validateCadencePairs, bind_eq_ok, ensure_eq_ok] at h
    obtain ⟨-, -, -, hne, hrest⟩ := h
    rintro other (_ | ⟨_, hother⟩)
    · exact hne
    · exact ih hrest other hother

/-- Before the later segments start, the first one is active. -/
theorem activeIntervalNs_first (hstart : segment.activationScore.toNat < step)
    (hrest : ∀ next ∈ rest, step ≤ next.activationScore.toNat) :
    activeIntervalNs (segment :: rest) step = segment.targetIntervalNs.toNat := by
  have hnone : rest.filter (fun next => next.activationScore.toNat < step) = [] := by
    simpa [filter_eq_nil_iff] using hrest
  rw [activeIntervalNs, filter_cons_of_pos (by simpa using hstart), hnone]
  rfl

/-- Once the second segment has started, the first one is out of use. -/
theorem activeIntervalNs_later {next : MonetaryCadenceSegment}
    (hstart : next.activationScore.toNat < step) :
    activeIntervalNs (segment :: next :: rest) step = activeIntervalNs (next :: rest) step := by
  have hnext : (next :: rest).filter (fun other => other.activationScore.toNat < step) ≠ [] := by
    simp [hstart]
  unfold activeIntervalNs
  by_cases hsegment : segment.activationScore.toNat < step
  · rw [filter_cons_of_pos (by simpa using hsegment), getLast?_cons_of_ne_nil hnext]
  · rw [filter_cons_of_neg (by simpa using hsegment)]

/-- The time of a score is the sum of the intervals of its steps. -/
theorem economicTime_eq_sum (hpairs : validateCadencePairs (segment :: rest) = .ok ()) :
    economicTime score (segment :: rest) =
      ∑ step ∈ Finset.Ioc segment.activationScore.toNat score,
        activeIntervalNs (segment :: rest) step := by
  induction rest generalizing segment with
  | nil =>
    have hactive : ∀ step ∈ Finset.Ioc segment.activationScore.toNat score,
        activeIntervalNs [segment] step = segment.targetIntervalNs.toNat := fun step hstep =>
      activeIntervalNs_first (Finset.mem_Ioc.mp hstep).1 (by simp)
    rw [Finset.sum_congr rfl hactive, Finset.sum_const, Nat.card_Ioc, smul_eq_mul]
    simp [economicTime, segmentEnd]
  | cons next rest ih =>
    have hlt := validateCadencePairs_lt hpairs
    have hpairs' := (validateCadencePairs_cons hpairs).1
    have hnext : segment.activationScore.toNat < next.activationScore.toNat :=
      hlt next mem_cons_self
    have hend : segmentEnd score (next :: rest) = min score next.activationScore.toNat := rfl
    have hfirst : ∀ step ∈ Finset.Ioc segment.activationScore.toNat
          (min score next.activationScore.toNat),
        activeIntervalNs (segment :: next :: rest) step = segment.targetIntervalNs.toNat := by
      intro step hstep
      rw [Finset.mem_Ioc] at hstep
      refine activeIntervalNs_first hstep.1 ?_
      rintro other (_ | ⟨_, hother⟩)
      · omega
      · have := validateCadencePairs_lt hpairs' other hother
        omega
    have hlater : ∀ step ∈ Finset.Ioc next.activationScore.toNat score,
        activeIntervalNs (segment :: next :: rest) step =
          activeIntervalNs (next :: rest) step := fun step hstep =>
      activeIntervalNs_later (Finset.mem_Ioc.mp hstep).1
    have hpart : (min score next.activationScore.toNat - segment.activationScore.toNat) *
          segment.targetIntervalNs.toNat =
        ∑ step ∈ Finset.Ioc segment.activationScore.toNat (min score next.activationScore.toNat),
          activeIntervalNs (segment :: next :: rest) step := by
      rw [Finset.sum_congr rfl hfirst, Finset.sum_const, Nat.card_Ioc, smul_eq_mul]
    rw [economicTime, hend, ih hpairs', hpart, ← Finset.sum_congr rfl hlater]
    rcases le_total score next.activationScore.toNat with hle | hle
    · rw [Nat.min_eq_left hle, Finset.Ioc_eq_empty_of_le hle, Finset.sum_empty, Nat.add_zero]
    · rw [Nat.min_eq_right hle, ← Finset.sum_union (Finset.Ioc_disjoint_Ioc_of_le le_rfl),
        Finset.Ioc_union_Ioc_eq_Ioc hnext.le hle]

/-- An interval is a word. -/
theorem activeIntervalNs_lt (segments : List MonetaryCadenceSegment) (step : ℕ) :
    activeIntervalNs segments step < 2 ^ 64 := by
  unfold activeIntervalNs
  cases (segments.filter fun segment => segment.activationScore.toNat < step).getLast? with
  | none => exact Nat.two_pow_pos 64
  | some segment => exact segment.targetIntervalNs.toNat_lt

/-- Every step of an accepted cadence takes time. -/
theorem activeIntervalNs_pos (hvalid : validateCadenceSegments segments = .ok ())
    (hstep : 0 < step) : 0 < activeIntervalNs segments step := by
  obtain ⟨⟨first, hfirst, hzero, hinterval⟩, hpairs⟩ := validateCadenceSegments_eq_ok.mp hvalid
  obtain ⟨rest, rfl⟩ := head?_eq_some_iff.mp hfirst
  have hne : (first :: rest).filter (fun segment => segment.activationScore.toNat < step) ≠ [] := by
    simp [hzero, hstep]
  obtain ⟨segment, hlast⟩ := Option.ne_none_iff_exists'.mp (mt getLast?_eq_none_iff.mp hne)
  have hmem : segment ∈ first :: rest := mem_of_mem_filter (mem_of_getLast? hlast)
  have hsegment : segment.targetIntervalNs ≠ 0 := by
    rcases mem_cons.mp hmem with rfl | hmem
    · exact hinterval
    · exact validateCadencePairs_interval hpairs segment hmem
  rw [activeIntervalNs, hlast, Option.map_some, Option.getD_some]
  exact Nat.pos_of_ne_zero fun heq => hsegment (UInt64.toNat_inj.mp heq)

/-- A segment that is not active yet changes no interval. -/
theorem activeIntervalNs_append (hstep : step ≤ segment.activationScore.toNat) :
    activeIntervalNs (segments ++ [segment]) step = activeIntervalNs segments step := by
  have hinactive : [segment].filter (fun other => other.activationScore.toNat < step) = [] := by
    simpa using hstep
  rw [activeIntervalNs, filter_append, hinactive, append_nil]
  rfl

/-- The clock of a cadence: the sum of the intervals of the steps up to a score. -/
def clockNs (segments : List MonetaryCadenceSegment) (score : ℕ) : ℕ :=
  ∑ step ∈ Finset.Icc 1 score, activeIntervalNs segments step

/-- The economic time is the sum of the active intervals. -/
theorem economicTime_eq_clockNs (hvalid : validateCadenceSegments segments = .ok ()) :
    economicTime score segments = clockNs segments score := by
  obtain ⟨⟨first, hfirst, hzero, -⟩, hpairs⟩ := validateCadenceSegments_eq_ok.mp hvalid
  obtain ⟨rest, rfl⟩ := head?_eq_some_iff.mp hfirst
  rw [economicTime_eq_sum hpairs, hzero, clockNs]
  rfl

/-- The clock does not overflow 128 bits. -/
theorem clockNs_le_u128Max (hscore : score < 2 ^ 64) : clockNs segments score ≤ u128Max := by
  have hsum : clockNs segments score ≤ (Finset.Icc 1 score).card • (2 ^ 64 - 1) :=
    Finset.sum_le_card_nsmul _ _ _ fun step _ => by
      have := activeIntervalNs_lt segments step
      omega
  rw [Nat.card_Icc, Nat.add_sub_cancel, smul_eq_mul] at hsum
  calc clockNs segments score ≤ score * (2 ^ 64 - 1) := hsum
    _ ≤ (2 ^ 64 - 1) * (2 ^ 64 - 1) := by
      gcongr
      omega
    _ ≤ u128Max := by decide

/-- The clock advances with every block. -/
theorem clockNs_strictMono (hvalid : validateCadenceSegments segments = .ok ()) :
    StrictMono (clockNs segments) := by
  refine strictMono_nat_of_lt_succ fun score => ?_
  rw [clockNs, clockNs, Finset.sum_Icc_succ_top (Nat.le_add_left 1 score)]
  exact Nat.lt_add_of_pos_right (activeIntervalNs_pos hvalid (Nat.succ_pos score))

end

/-- The economic clock of an accepted cadence: the time of every `u64` score is the sum of the
intervals of its steps, later scores have later times, and a segment that is appended changes no
time up to its activation. -/
theorem economicTimeNsForScore_clock {segments : List MonetaryCadenceSegment}
    (hvalid : validateCadenceSegments segments = .ok ()) :
    (∀ score < 2 ^ 64, economicTimeNsForScore score segments =
      .ok (∑ step ∈ Finset.Icc 1 score, activeIntervalNs segments step)) ∧
    (∀ earlier later a b, earlier < later → economicTimeNsForScore earlier segments = .ok a →
      economicTimeNsForScore later segments = .ok b → a < b) ∧
    ∀ segment, validateCadenceSegments (segments ++ [segment]) = .ok () →
      ∀ score ≤ segment.activationScore.toNat,
        economicTimeNsForScore score (segments ++ [segment]) =
          economicTimeNsForScore score segments := by
  refine ⟨fun score hscore => ?_, fun earlier later a b hlt ha hb => ?_,
    fun segment happend score hscore => ?_⟩
  · rw [economicTimeNsForScore_eq hvalid, economicTime_eq_clockNs hvalid]
    exact u128Checked_eq_ok.mpr ⟨clockNs_le_u128Max hscore, rfl⟩
  · rw [economicTimeNsForScore_eq_ok ha, economicTimeNsForScore_eq_ok hb,
      economicTime_eq_clockNs hvalid, economicTime_eq_clockNs hvalid]
    exact clockNs_strictMono hvalid hlt
  · rw [economicTimeNsForScore_eq hvalid, economicTimeNsForScore_eq happend,
      economicTime_eq_clockNs hvalid, economicTime_eq_clockNs happend]
    have hclock : clockNs (segments ++ [segment]) score = clockNs segments score :=
      Finset.sum_congr rfl fun step hstep =>
        activeIntervalNs_append ((Finset.mem_Icc.mp hstep).2.trans hscore)
    rw [hclock]

/-- The production cadence, and a second segment from the score 10 on. -/
theorem economicTimeNsForScore_clock_production :
    economicTimeNsForScore 12 productionCadenceV3 =
        .ok (∑ step ∈ Finset.Icc 1 12, activeIntervalNs productionCadenceV3 step) ∧
      economicTimeNsForScore 10 (productionCadenceV3 ++ [⟨10, 7⟩]) =
        economicTimeNsForScore 10 productionCadenceV3 :=
  have hclock := economicTimeNsForScore_clock
    (show validateCadenceSegments productionCadenceV3 = .ok () by decide)
  ⟨hclock.1 12 (by decide), hclock.2.2 ⟨10, 7⟩ (by decide) 10 (by decide)⟩

/-! ## The curve -/

/-- A product of a factor and a fraction is computed. -/
theorem q64Mul_eq {lhs rhs : ℕ} (hlhs : lhs ≤ 2 ^ 64) (hrhs : rhs < 2 ^ 64) :
    q64Mul lhs rhs = .ok (lhs * rhs / 2 ^ 64) := by
  have hproduct : lhs * rhs ≤ u128Max := by
    calc lhs * rhs ≤ 2 ^ 64 * (2 ^ 64 - 1) := Nat.mul_le_mul hlhs (by omega)
      _ ≤ u128Max := by decide
  rw [q64Mul, u128Checked_eq_ok.mpr ⟨hproduct, rfl⟩, ok_bind, Nat.shiftRight_eq_div_pow]
  rfl

/-- No product in the power loop overflows. -/
theorem q64PowLoop_eq {fuel exponent result base : ℕ} (hresult : result ≤ 2 ^ 64)
    (hbase : base < 2 ^ 64) :
    q64PowLoop fuel exponent result base = .ok (q64PowFloor fuel exponent result base) := by
  suffices ∃ power, q64PowLoop fuel exponent result base = .ok power by
    obtain ⟨power, hpower⟩ := this
    rw [hpower, q64PowLoop_eq_ok hpower]
  induction fuel generalizing exponent result base with
  | zero => exact ⟨result, rfl⟩
  | succ fuel ih =>
    rw [q64PowLoop]
    have hle : result * base / 2 ^ 64 ≤ 2 ^ 64 := (mul_div_le_self hbase.le).trans hresult
    have hsquare : base * base / 2 ^ 64 < 2 ^ 64 := (mul_div_le_self hbase.le).trans_lt hbase
    rw [q64Mul_eq hresult hbase, q64Mul_eq hbase.le hbase]
    split
    · exact ⟨result, rfl⟩
    · obtain ⟨next, hnext, hnextLe⟩ : ∃ next, (if exponent % 2 = 1 then
          .ok (result * base / 2 ^ 64) else pure result : Except MonetaryV3Error ℕ) = .ok next ∧
          next ≤ 2 ^ 64 := by
        split
        · exact ⟨_, rfl, hle⟩
        · exact ⟨_, rfl, hresult⟩
      obtain ⟨square, hsquareEq, hsquareLt⟩ : ∃ square, (if exponent / 2 ≠ 0 then
          .ok (base * base / 2 ^ 64) else pure base : Except MonetaryV3Error ℕ) = .ok square ∧
          square < 2 ^ 64 := by
        split
        · exact ⟨_, rfl, hsquare⟩
        · exact ⟨_, rfl, hbase⟩
      rw [hnext, ok_bind]
      change ∃ power, ((if exponent / 2 ≠ 0 then _ else _) >>= _) = _
      rw [hsquareEq, ok_bind]
      exact ih hnextLe hsquareLt

/-- A power of the decay is computed. -/
theorem q64Pow_eq (quantum : ℕ) : q64Pow quantum = .ok (decayPower quantum) :=
  q64PowLoop_eq le_rfl (by decide)

/-- What is issued of a budget after a number of quanta. -/
def issuedAtQuantum (budget quantum : ℕ) : ℕ :=
  budget * (q64One - decayPower quantum) / (q64One - halfLifeEndFactorQ64)

/-- Nothing is issued at the start of a half-life. -/
theorem issuedAtQuantum_zero (budget : ℕ) : issuedAtQuantum budget 0 = 0 := by
  have hpower : decayPower 0 = q64One := q64PowFloor_zero _ _ _
  rw [issuedAtQuantum, hpower, Nat.sub_self, Nat.mul_zero, Nat.zero_div]

/-- The whole budget is issued at its end. -/
theorem issuedAtQuantum_halfLife (budget : ℕ) : issuedAtQuantum budget halfLifeQuanta = budget := by
  rw [issuedAtQuantum, decayPower_halfLife]
  exact Nat.mul_div_cancel _ (by decide)

variable {budget denominator halfLives s t : ℕ}

/-- More is issued later. -/
theorem issuedAtQuantum_mono {a b : ℕ} (hab : a ≤ b) (hb : b ≤ halfLifeQuanta) :
    issuedAtQuantum budget a ≤ issuedAtQuantum budget b := by
  have hpower := decayPower_antitone hab hb
  unfold issuedAtQuantum
  gcongr

/-- No more than the budget is issued. -/
theorem issuedAtQuantum_le {quantum : ℕ} (h : quantum ≤ halfLifeQuanta) :
    issuedAtQuantum budget quantum ≤ budget :=
  (issuedAtQuantum_mono h le_rfl).trans_eq (issuedAtQuantum_halfLife budget)

/-- The issue at a quantum is computed. -/
theorem issuanceWithinHalfLifeAtQuantum_eq {budget : UInt64} {quantum : ℕ}
    (h : quantum ≤ halfLifeQuanta) : ∃ issued,
    issuanceWithinHalfLifeAtQuantum budget quantum = .ok issued ∧
      issued.toNat = issuedAtQuantum budget.toNat quantum := by
  have hproduct : budget.toNat * (q64One - decayPower quantum) ≤ u128Max := by
    calc budget.toNat * (q64One - decayPower quantum) ≤ (2 ^ 64 - 1) * 2 ^ 64 := by
          refine Nat.mul_le_mul ?_ (Nat.sub_le _ _)
          have := budget.toNat_lt
          omega
      _ ≤ u128Max := by decide
  obtain ⟨issued, hissued, hissuedNat⟩ :=
    exists_u64TryFrom ((issuedAtQuantum_le h).trans_lt budget.toNat_lt)
  refine ⟨issued, ?_, hissuedNat⟩
  simp only [issuanceWithinHalfLifeAtQuantum, bind_eq_ok, ensure_eq_ok, u128Checked_eq_ok,
    okOr_eq_ok, q64Pow_eq, Except.ok.injEq]
  exact ⟨(), h, _, rfl, (), decayPower_le quantum, (), by decide, _, ⟨hproduct, rfl⟩, hissued⟩

/-- What remains to be issued at the start of a half-life. -/
def remainingAtoms (halfLives : ℕ) : ℕ :=
  if terminalHalfLives ≤ halfLives then 0 else ceilDivU128 maxSupplyAtoms.toNat (2 ^ halfLives)

/-- When a quotient rounded up is at most a bound. -/
theorem ceilDivU128_le_iff {numerator bound : ℕ} (h : 0 < denominator) :
    ceilDivU128 numerator denominator ≤ bound ↔ numerator ≤ denominator * bound := by
  have hsplit := Nat.div_add_mod numerator denominator
  have hmod := Nat.mod_lt numerator h
  unfold ceilDivU128
  constructor
  · intro hle
    calc numerator ≤ denominator * (numerator / denominator +
          if numerator % denominator = 0 then 0 else 1) := by
          rw [Nat.mul_add]
          split <;> omega
      _ ≤ denominator * bound := Nat.mul_le_mul_left _ hle
  · intro hle
    have hquotient : numerator / denominator ≤ bound := by
      rw [Nat.div_le_iff_le_mul_add_pred h]
      omega
    split
    · exact hquotient
    · refine Nat.lt_of_le_of_ne hquotient fun heq => ?_
      rw [heq] at hsplit
      omega

/-- The quotient is rounded up. -/
theorem ceilDivU128_eq_ceil (numerator : ℕ) (h : 0 < denominator) :
    ceilDivU128 numerator denominator = ⌈(numerator : ℚ) / denominator⌉₊ := by
  refine eq_of_forall_ge_iff fun bound => ?_
  rw [ceilDivU128_le_iff h, Nat.ceil_le, div_le_iff₀ (by exact_mod_cast h), mul_comm]
  norm_cast

/-- No more than the supply remains. -/
theorem remainingAtoms_le (halfLives : ℕ) : remainingAtoms halfLives ≤ maxSupplyAtoms.toNat := by
  unfold remainingAtoms
  split
  · exact Nat.zero_le _
  · rw [ceilDivU128_le_iff (Nat.two_pow_pos _)]
    exact Nat.le_mul_of_pos_left _ (Nat.two_pow_pos _)

/-- Less remains after each half-life. -/
theorem remainingAtoms_succ_le (halfLives : ℕ) :
    remainingAtoms (halfLives + 1) ≤ remainingAtoms halfLives := by
  unfold remainingAtoms
  split
  · exact Nat.zero_le _
  · rw [if_neg (by omega), ceilDivU128_le_iff (Nat.two_pow_pos _)]
    have hhalf : maxSupplyAtoms.toNat ≤ 2 ^ halfLives * ceilDivU128 maxSupplyAtoms.toNat
        (2 ^ halfLives) := (ceilDivU128_le_iff (Nat.two_pow_pos halfLives)).mp le_rfl
    refine hhalf.trans (Nat.mul_le_mul_right _ (Nat.pow_le_pow_right (by decide) (by omega)))

/-- What remains at a half-life is computed. -/
theorem remainingAtomsAtHalfLifeBoundary_eq (halfLives : ℕ) : ∃ remaining,
    remainingAtomsAtHalfLifeBoundary halfLives = .ok remaining ∧
      remaining.toNat = remainingAtoms halfLives := by
  have hle := remainingAtoms_le halfLives
  unfold remainingAtomsAtHalfLifeBoundary
  by_cases hend : terminalHalfLives ≤ halfLives
  · exact ⟨0, if_pos hend, by rw [remainingAtoms, if_pos hend]; rfl⟩
  · rw [if_neg hend]
    rw [remainingAtoms, if_neg hend] at hle ⊢
    obtain ⟨remaining, hremaining, hnat⟩ := exists_u64TryFrom (hle.trans_lt maxSupplyAtoms.toNat_lt)
    refine ⟨remaining, ?_, hnat⟩
    simp only [bind_eq_ok, ensure_eq_ok, okOr_eq_ok]
    refine ⟨(), ?_, hremaining⟩
    unfold terminalHalfLives at hend
    omega

/-- The curve inside a half-life. -/
def curveWithin (halfLives : ℕ) : ℕ → ℕ :=
  interpolate (issuedAtQuantum (remainingAtoms halfLives - remainingAtoms (halfLives + 1)))
    emissionQuantumNs

/-- The curve. -/
def issuanceCurve (timeNs : ℕ) : ℕ :=
  if terminalHalfLives ≤ timeNs / halfLifeNs then maxSupplyAtoms.toNat
  else
    maxSupplyAtoms.toNat - remainingAtoms (timeNs / halfLifeNs) +
      curveWithin (timeNs / halfLifeNs) (timeNs % halfLifeNs)

/-- A quantum lies within its half-life. -/
theorem quantum_lt (timeNs : ℕ) : timeNs % halfLifeNs / emissionQuantumNs < halfLifeQuanta := by
  rw [Nat.div_lt_iff_lt_mul (by decide)]
  exact Nat.mod_lt _ (by decide)

/-- More is issued with each quantum. -/
theorem issuedAtQuantum_step :
    ∀ i < halfLifeQuanta, issuedAtQuantum budget i ≤ issuedAtQuantum budget (i + 1) :=
  fun _ hi => issuedAtQuantum_mono (Nat.le_succ _) hi

/-- Within a half-life the curve grows. -/
theorem curveWithin_mono (hst : s ≤ t) (ht : t / emissionQuantumNs < halfLifeQuanta) :
    curveWithin halfLives s ≤ curveWithin halfLives t :=
  interpolate_mono issuedAtQuantum_step hst ht

/-- Within a half-life the curve stays within its budget. -/
theorem curveWithin_le {halfLives t : ℕ} (ht : t / emissionQuantumNs < halfLifeQuanta) :
    curveWithin halfLives t ≤ remainingAtoms halfLives - remainingAtoms (halfLives + 1) :=
  (interpolate_le (issuedAtQuantum_step _ ht)).trans (issuedAtQuantum_le ht)

/-- No check of the source fails, and the result is the curve. -/
theorem targetIssuanceAtoms_eq (timeNs : ℕ) : ∃ atoms, targetIssuanceAtoms timeNs = .ok atoms ∧
    atoms.toNat = issuanceCurve timeNs := by
  unfold targetIssuanceAtoms issuanceCurve
  by_cases hend : terminalHalfLives ≤ timeNs / halfLifeNs
  · rw [if_pos hend]
    simp only [if_pos hend]
    exact ⟨maxSupplyAtoms, rfl, rfl⟩
  · rw [if_neg hend]
    simp only [if_neg hend]
    have hquantum := quantum_lt timeNs
    have hwithinLe := @curveWithin_le (timeNs / halfLifeNs) _ hquantum
    unfold curveWithin interpolate at hwithinLe ⊢
    set halfLives := timeNs / halfLifeNs
    set within := timeNs % halfLifeNs
    obtain ⟨start, hstart, hstartNat⟩ := remainingAtomsAtHalfLifeBoundary_eq halfLives
    obtain ⟨final, hfinal, hfinalNat⟩ := remainingAtomsAtHalfLifeBoundary_eq (halfLives + 1)
    have hstartLe := remainingAtoms_le halfLives
    obtain ⟨budget, hbudget, hbudgetNat⟩ :=
      exists_checkedSub (a := start) (b := final) (by
        rw [hstartNat, hfinalNat]
        exact remainingAtoms_succ_le halfLives)
    obtain ⟨base, hbase, hbaseNat⟩ :=
      exists_checkedSub (a := maxSupplyAtoms) (b := start) (by rwa [hstartNat])
    obtain ⟨issued, hissued, hissuedNat⟩ := @issuanceWithinHalfLifeAtQuantum_eq budget _ hquantum.le
    have hnextQuantum : within / emissionQuantumNs + 1 ≤ halfLifeQuanta := hquantum
    obtain ⟨next, hnext, hnextNat⟩ := @issuanceWithinHalfLifeAtQuantum_eq budget _ hnextQuantum
    obtain ⟨delta, hdelta, hdeltaNat⟩ := exists_checkedSub (a := next) (b := issued) (by
      rw [hissuedNat, hnextNat]
      exact issuedAtQuantum_step _ hquantum)
    rw [hstartNat, hfinalNat] at hbudgetNat
    rw [hbudgetNat] at hissuedNat hnextNat
    rw [hstartNat] at hbaseNat
    rw [← hissuedNat, ← hnextNat, ← hdeltaNat] at hwithinLe ⊢
    have hproduct : delta.toNat * (within % emissionQuantumNs) ≤ u128Max := by
      calc delta.toNat * (within % emissionQuantumNs) ≤ (2 ^ 64 - 1) * emissionQuantumNs := by
            refine Nat.mul_le_mul ?_ (Nat.mod_lt _ (by decide)).le
            have := delta.toNat_lt
            omega
        _ ≤ u128Max := by decide
    have hpartLe := mul_mod_div_le delta.toNat emissionQuantumNs within
    obtain ⟨part, hpart, hpartNat⟩ := exists_u64TryFrom (hpartLe.trans_lt delta.toNat_lt)
    have hmax : maxSupplyAtoms.toNat < 2 ^ 64 := maxSupplyAtoms.toNat_lt
    obtain ⟨sum, hsum, hsumNat⟩ := exists_checkedAdd (a := base) (b := issued) (by omega)
    obtain ⟨atoms, hatoms, hatomsNat⟩ := exists_checkedAdd (a := sum) (b := part) (by omega)
    refine ⟨atoms, ?_, by omega⟩
    simp only [bind_eq_ok, ensure_eq_ok, okOr_eq_ok, u128Checked_eq_ok]
    have hhalfLives : halfLives < 2 ^ 32 := by
      unfold terminalHalfLives at hend
      omega
    have hquantumLt : within / emissionQuantumNs < 2 ^ 64 := by
      unfold halfLifeQuanta at hquantum
      omega
    exact ⟨(), hhalfLives, start, hstart, final, hfinal, budget, hbudget, base, hbase, (),
      hquantumLt, issued, hissued, next, hnext, delta, hdelta, _, ⟨hproduct, rfl⟩, part, hpart,
      sum, hsum, hatoms⟩

/-- What has been issued by the start of a half-life. -/
def issuedAtHalfLife (halfLives : ℕ) : ℕ := maxSupplyAtoms.toNat - remainingAtoms halfLives

/-- The curve grows. -/
theorem issuanceCurve_mono (hst : s ≤ t) : issuanceCurve s ≤ issuanceCurve t := by
  have hgrid : ∀ i < t / halfLifeNs + 1, issuedAtHalfLife i ≤ issuedAtHalfLife (i + 1) := by
    intro i _
    have := remainingAtoms_succ_le i
    unfold issuedAtHalfLife
    omega
  have hend : ∀ i, terminalHalfLives ≤ i → issuedAtHalfLife i = maxSupplyAtoms.toNat := by
    intro i hi
    rw [issuedAtHalfLife, remainingAtoms, if_pos hi, Nat.sub_zero]
  refine le_of_pieces hgrid (fun t _ => ?_) (fun t _ => ?_) (fun s t hst hsame _ => ?_) hst
    (Nat.lt_succ_self _)
  · unfold issuanceCurve
    split
    · exact Nat.sub_le _ _
    · exact Nat.le_add_right _ _
  · unfold issuanceCurve
    split
    · rename_i hlate
      rw [hend _ (by omega)]
    · have hle := @curveWithin_le (t / halfLifeNs) _ (quantum_lt t)
      have hstart := remainingAtoms_le (t / halfLifeNs)
      have hstep := remainingAtoms_succ_le (t / halfLifeNs)
      unfold issuedAtHalfLife
      omega
  · unfold issuanceCurve
    rw [hsame]
    split
    · exact le_rfl
    · have hmod : s % halfLifeNs ≤ t % halfLifeNs := by
        have hs := Nat.div_add_mod s halfLifeNs
        have ht := Nat.div_add_mod t halfLifeNs
        rw [hsame] at hs
        omega
      gcongr
      exact curveWithin_mono hmod (quantum_lt t)

/-- The curve stays below the supply. -/
theorem issuanceCurve_le (t : ℕ) : issuanceCurve t ≤ maxSupplyAtoms.toNat := by
  have hle := issuanceCurve_mono (Nat.le_add_right t (terminalHalfLives * halfLifeNs))
  have hend : issuanceCurve (t + terminalHalfLives * halfLifeNs) = maxSupplyAtoms.toNat := by
    rw [issuanceCurve, if_pos]
    rw [Nat.le_div_iff_mul_le (by decide)]
    exact Nat.le_add_left _ _
  exact hle.trans_eq hend

/-- At the start of a half-life the curve has issued all but the geometric remainder. -/
theorem issuanceCurve_halfLife (h : halfLives < terminalHalfLives) :
    issuanceCurve (halfLives * halfLifeNs) =
      maxSupplyAtoms.toNat - ⌈(maxSupplyAtoms.toNat : ℚ) / 2 ^ halfLives⌉₊ := by
  have hzero : curveWithin halfLives 0 = 0 := by
    rw [curveWithin, interpolate_zero, issuedAtQuantum_zero]
  have hceil := ceilDivU128_eq_ceil maxSupplyAtoms.toNat (Nat.two_pow_pos halfLives)
  push_cast at hceil
  rw [issuanceCurve, Nat.mul_div_cancel _ (by decide), Nat.mul_mod_left, if_neg (not_le.mpr h),
    hzero, Nat.add_zero, remainingAtoms, if_neg (not_le.mpr h), hceil]

/-- The issuance curve: the target exists at every time and never passes the maximal supply, it
never falls, it is exact at the start of every half-life and complete after the last one. -/
theorem targetIssuanceAtoms_curve :
    (∀ timeNs, ∃ atoms, targetIssuanceAtoms timeNs = .ok atoms ∧ atoms ≤ maxSupplyAtoms) ∧
    (∀ earlier later a b, earlier ≤ later → targetIssuanceAtoms earlier = .ok a →
      targetIssuanceAtoms later = .ok b → a ≤ b) ∧
    (∀ halfLives < terminalHalfLives, ∃ atoms,
      targetIssuanceAtoms (halfLives * halfLifeNs) = .ok atoms ∧
        atoms.toNat =
          maxSupplyAtoms.toNat - ⌈(maxSupplyAtoms.toNat : ℚ) / 2 ^ halfLives⌉₊) ∧
    ∀ timeNs, terminalHalfLives * halfLifeNs ≤ timeNs →
      targetIssuanceAtoms timeNs = .ok maxSupplyAtoms := by
  refine ⟨fun timeNs => ?_, fun earlier later a b hle ha hb => ?_, fun halfLives h => ?_,
    fun timeNs hend => ?_⟩
  · obtain ⟨atoms, hatoms, hcurve⟩ := targetIssuanceAtoms_eq timeNs
    exact ⟨atoms, hatoms, UInt64.le_iff_toNat_le.mpr (hcurve.trans_le (issuanceCurve_le timeNs))⟩
  · obtain ⟨a', ha', hcurveA⟩ := targetIssuanceAtoms_eq earlier
    obtain ⟨b', hb', hcurveB⟩ := targetIssuanceAtoms_eq later
    obtain rfl := Except.ok.inj (ha.symm.trans ha')
    obtain rfl := Except.ok.inj (hb.symm.trans hb')
    rw [UInt64.le_iff_toNat_le, hcurveA, hcurveB]
    exact issuanceCurve_mono hle
  · obtain ⟨atoms, hatoms, hcurve⟩ := targetIssuanceAtoms_eq (halfLives * halfLifeNs)
    exact ⟨atoms, hatoms, hcurve.trans (issuanceCurve_halfLife h)⟩
  · have hlate : terminalHalfLives ≤ timeNs / halfLifeNs :=
      (Nat.le_div_iff_mul_le (by decide)).mpr hend
    simp only [targetIssuanceAtoms, if_pos hlate]
    rfl

end PulseDag
