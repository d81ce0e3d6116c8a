import PulseDag.Ledger.IssuanceCurve
import PulseDag.Ledger.Settlement
import PulseDag.Ledger.Supply

/-!
# The monetary audit

`validation_v3.rs` and `monetary_audit_v3.rs`. The subsidies of consecutive scores are
differences of one curve, so they add up along it. The audit sums them again from the claims of
the stored blocks and compares the sum with the curve.
-/

namespace PulseDag

/-- `GENESIS_ISSUANCE_ATOMS`. -/
def genesisIssuanceAtoms : UInt64 := 0

/-- `MONETARY_POLICY_CANONICAL_V3`. -/
def monetaryPolicyCanonicalV3 : String :=
  "PulseDAG:monetary-policy:v3.0.0-smooth-v1\n" ++
  "max_supply_atoms=100000000000000000\n" ++
  "atoms_per_coin=100000000\n" ++
  "genesis_issuance_atoms=0\n" ++
  "emission_curve=normalized-q64-exponential-v1\n" ++
  "economic_year_seconds=31536000\n" ++
  "half_life_years=3\n" ++
  "half_life_seconds=94608000\n" ++
  "emission_quantum_seconds=21600\n" ++
  "half_life_quanta=4380\n" ++
  "decay_factor_q64=18443825056137834748\n" ++
  "half_life_end_factor_q64=9223372036854774856\n" ++
  "boundary_rounding=ceil-remaining-v1\n" ++
  "terminal_half_lives=57\n" ++
  "terminal_emission_quantum=249660\n" ++
  "terminal_residual=folded-into-final-half-life-v1\n" ++
  "coinbase_maturity_seconds=3600\n" ++
  "ordinary_fee_recipient_bps=10000\n" ++
  "consensus_burn_bps=0\n" ++
  "tail_emission_atoms=0\n" ++
  "score_basis=ordered-dag-ordinal-v1\n" ++
  "programmable_resource_fees=inactive-unreachable-v3.0.0\n"

/-- `canonical_monetary_cadence_bytes_v3`. -/
def canonicalMonetaryCadenceBytesV3 (segments : List MonetaryCadenceSegment) :
    Except MonetaryV3Error (List UInt8) := do
  validateCadenceSegments segments
  ensure (segments.length < 2 ^ 32) .arithmeticOverflow
  pure (asBytes "PulseDAG:monetary-cadence:v3.0.0" ++ leBytes 4 segments.length ++
    segments.flatMap fun segment =>
      u64LeBytes segment.activationScore ++ u64LeBytes segment.targetIntervalNs)

/-- `MonetaryValidationV3Error`, as far as the check of one reward raises it. -/
inductive MonetaryValidationV3Error
  | genesisRewardForbidden
  | hiddenIssuancePath (blockHash txid : Hash)
  | feeOverflow
  | reward (error : RewardSettlementV3Error)
  | monetary (error : MonetaryV3Error)
  deriving DecidableEq, Repr

/-- `ValidatedMonetaryRewardV3`. -/
structure ValidatedMonetaryRewardV3 where
  blockHash : Hash
  monetaryScore : ℕ
  claimTxid : Hash
  beneficiary : String
  authorizedSubsidyAtoms : UInt64
  eligibleFeesAtoms : UInt64
  authorizedSettlementAtoms : UInt64
  deriving DecidableEq, Repr

/-- `MonetaryStateAuditV3Error`. -/
inductive MonetaryStateAuditV3Error
  | ordering (error : OrderingV2Error)
  | emptyOrderedDag
  | genesisNotFirst
  | genesisAllocationPresent
  | missingBlock (hash : Hash)
  | scoreOverflow
  | arithmeticOverflow
  | supplyMismatch (score : ℕ) (expected observed : UInt64)
  | validation (error : MonetaryValidationV3Error)
  | monetary (error : MonetaryV3Error)

/-- `MonetaryStateAuditV3`. -/
structure MonetaryStateAuditV3 where
  monetaryPolicyFingerprint : String
  monetaryCadenceFingerprint : String
  orderedDagDigest : String
  currentMonetaryScore : ℕ
  rewardClaimBlocks : ℕ
  scheduledSupplyAtoms : UInt64
  authorizedSubsidyAtoms : UInt64
  eligibleFeeTransfersAtoms : UInt64
  genesisIssuanceAtoms : UInt64
  hiddenIssuancePaths : UInt64
  deriving DecidableEq, Repr

/-- The sums of the loop of `audit_monetary_state_v3`. -/
structure AuditTotals where
  authorizedSubsidyAtoms : UInt64 := 0
  eligibleFeeTransfersAtoms : UInt64 := 0

section

variable [Crypto]

/-- `monetary_policy_fingerprint_v3`. -/
def monetaryPolicyFingerprintV3 : String := sha256Hex (asBytes monetaryPolicyCanonicalV3)

/-- `monetary_cadence_fingerprint_v3`. -/
def monetaryCadenceFingerprintV3 (segments : List MonetaryCadenceSegment) :
    Except MonetaryV3Error String := do
  let bytes ← canonicalMonetaryCadenceBytesV3 segments
  pure (sha256Hex bytes)

/-- `validate_monetary_reward_at_canonical_score_v3`. -/
def validateMonetaryRewardAtCanonicalScoreV3 (state : ChainState) (block : Block)
    (monetaryScore : ℕ) (segments : List MonetaryCadenceSegment) :
    Except MonetaryValidationV3Error ValidatedMonetaryRewardV3 := do
  ensure (monetaryScore ≠ 0) .genesisRewardForbidden
  let claim ← okOr block.transactions.head? (.reward (.missingRewardClaim block.hash))
  Except.mapError .reward (validateRewardClaimTransactionV3 claim state.chainId)
  (block.transactions.drop 1).forM fun transaction =>
    ensure (transaction.inputs ≠ []) (.hiddenIssuancePath block.hash transaction.txid)
  let eligibleFeesAtoms ← Except.mapError .reward (eligibleBlockFeesAtomsV3 state block)
  let authorizedSettlementAtoms ← Except.mapError .monetary
    (maxCoinbaseClaimAtoms monetaryScore eligibleFeesAtoms segments)
  let authorizedSubsidyAtoms ←
    okOr (checkedSub authorizedSettlementAtoms eligibleFeesAtoms) .feeOverflow
  -- a valid claim has one output
  let beneficiary ← okOr claim.outputs.head?
    (.reward (.invalidRewardClaim "index out of bounds"))
  pure
    { blockHash := block.hash
      monetaryScore := monetaryScore
      claimTxid := claim.txid
      beneficiary := beneficiary.address
      authorizedSubsidyAtoms := authorizedSubsidyAtoms
      eligibleFeesAtoms := eligibleFeesAtoms
      authorizedSettlementAtoms := authorizedSettlementAtoms }

/-- The loop body of `audit_monetary_state_v3`. -/
def auditPosition (state : ChainState) (segments : List MonetaryCadenceSegment)
    (totals : AuditTotals) (entry : Hash × ℕ) : Except MonetaryStateAuditV3Error AuditTotals := do
  ensure (entry.2 < 2 ^ 64) .scoreOverflow
  let block ← okOr state.dag.blocks[entry.1]? (.missingBlock entry.1)
  let validated ← Except.mapError .validation
    (validateMonetaryRewardAtCanonicalScoreV3 state block entry.2 segments)
  let subsidies ← okOr (checkedAdd totals.authorizedSubsidyAtoms validated.authorizedSubsidyAtoms)
    .arithmeticOverflow
  let fees ← okOr (checkedAdd totals.eligibleFeeTransfersAtoms validated.eligibleFeesAtoms)
    .arithmeticOverflow
  pure ⟨subsidies, fees⟩

/-- `audit_monetary_state_v3`. -/
def auditMonetaryStateV3 (state : ChainState) (segments : List MonetaryCadenceSegment) :
    Except MonetaryStateAuditV3Error MonetaryStateAuditV3 := do
  let ordered ← Except.mapError .ordering (deriveOrderedDagV2 state)
  let first ← okOr ordered.blocks.head? .emptyOrderedDag
  ensure (first = state.dag.genesisHash) .genesisNotFirst
  let genesis ← okOr state.dag.blocks[first]? (.missingBlock first)
  ensure (genesis.transactions = []) .genesisAllocationPresent
  let totals ← (ordered.blocks.zipIdx.drop 1).foldlM (auditPosition state segments) {}
  let currentMonetaryScore := ordered.blocks.length - 1
  ensure (currentMonetaryScore < 2 ^ 64) .scoreOverflow
  let scheduledSupplyAtoms ← Except.mapError .monetary
    (totalSupplyAtomsForScore currentMonetaryScore segments)
  ensure (totals.authorizedSubsidyAtoms = scheduledSupplyAtoms)
    (.supplyMismatch currentMonetaryScore scheduledSupplyAtoms totals.authorizedSubsidyAtoms)
  let cadenceFingerprint ← Except.mapError .monetary (monetaryCadenceFingerprintV3 segments)
  pure
    { monetaryPolicyFingerprint := monetaryPolicyFingerprintV3
      monetaryCadenceFingerprint := cadenceFingerprint
      orderedDagDigest := ordered.digest
      currentMonetaryScore := currentMonetaryScore
      rewardClaimBlocks := currentMonetaryScore
      scheduledSupplyAtoms := scheduledSupplyAtoms
      authorizedSubsidyAtoms := totals.authorizedSubsidyAtoms
      eligibleFeeTransfersAtoms := totals.eligibleFeeTransfersAtoms
      genesisIssuanceAtoms := genesisIssuanceAtoms
      hiddenIssuancePaths := 0 }

end

/-! ## Subsidies along the curve -/

/-- The supply scheduled for a score. -/
def scheduledSupply (segments : List MonetaryCadenceSegment) (score : ℕ) : ℕ :=
  issuanceCurve (clockNs segments score)

variable {score : ℕ}

section

variable {segments : List MonetaryCadenceSegment}

/-- Nothing is scheduled at score zero. -/
theorem scheduledSupply_zero : scheduledSupply segments 0 = 0 := by
  have hclock : clockNs segments 0 = 0 := rfl
  rw [scheduledSupply, hclock]
  decide +kernel

/-- The scheduled supply never falls. -/
theorem scheduledSupply_mono (hvalid : validateCadenceSegments segments = .ok ()) :
    Monotone (scheduledSupply segments) := fun _ _ hle =>
  issuanceCurve_mono ((clockNs_strictMono hvalid).monotone hle)

/-- The supply of a score is computed. -/
theorem totalSupplyAtomsForScore_eq (hvalid : validateCadenceSegments segments = .ok ())
    (hscore : score < 2 ^ 64) : ∃ atoms,
    totalSupplyAtomsForScore score segments = .ok atoms ∧
      atoms.toNat = scheduledSupply segments score := by
  obtain ⟨atoms, hatoms, hcurve⟩ := targetIssuanceAtoms_eq (clockNs segments score)
  refine ⟨atoms, ?_, hcurve⟩
  rw [totalSupplyAtomsForScore, economicTimeNsForScore_eq hvalid, economicTime_eq_clockNs hvalid,
    u128Checked_eq_ok.mpr ⟨clockNs_le_u128Max hscore, rfl⟩, ok_bind, hatoms]

/-- The supply authorized between two scores. -/
theorem authorizedIssuanceAtoms_eq (hvalid : validateCadenceSegments segments = .ok ())
    {a b : ℕ} (hab : a ≤ b) (hb : b < 2 ^ 64) : ∃ issued,
    authorizedIssuanceAtoms a b segments = .ok issued ∧
      issued.toNat = scheduledSupply segments b - scheduledSupply segments a := by
  obtain ⟨before, hbefore, hbeforeNat⟩ := totalSupplyAtomsForScore_eq hvalid (hab.trans_lt hb)
  obtain ⟨after, hafter, hafterNat⟩ := totalSupplyAtomsForScore_eq hvalid hb
  have hmono := scheduledSupply_mono hvalid hab
  obtain ⟨issued, hissued, hissuedNat⟩ := exists_checkedSub (a := after) (b := before) (by omega)
  refine ⟨issued, ?_, by omega⟩
  rw [authorizedIssuanceAtoms, ensure_pos hab, ok_bind, hbefore, ok_bind, hafter, ok_bind, hissued,
    okOr_some]

/-- The subsidy of a score is the supply authorized since the score before. -/
theorem subsidyAtomsForScore_eq (hvalid : validateCadenceSegments segments = .ok ())
    (hscore : score + 1 < 2 ^ 64) : ∃ subsidy,
    subsidyAtomsForScore (score + 1) segments = .ok subsidy ∧
      subsidy.toNat + scheduledSupply segments score = scheduledSupply segments (score + 1) := by
  have hmono := scheduledSupply_mono hvalid (Nat.le_add_right score 1)
  obtain ⟨issued, hissued, hissuedNat⟩ :=
    authorizedIssuanceAtoms_eq hvalid (Nat.le_add_right score 1) hscore
  refine ⟨issued, ?_, by omega⟩
  rw [subsidyAtomsForScore, if_neg (Nat.succ_ne_zero score), Nat.add_sub_cancel]
  rwa [authorizedIssuanceAtoms, ensure_pos (Nat.le_add_right score 1), ok_bind] at hissued

/-- The subsidy of a score as a number. -/
def curveSubsidy (segments : List MonetaryCadenceSegment) (score : ℕ) : ℕ :=
  scheduledSupply segments score - scheduledSupply segments (score - 1)

/-- Subsidies add up to a difference of supplies. -/
theorem sum_curveSubsidy (hvalid : validateCadenceSegments segments = .ok ()) {a b : ℕ}
    (hab : a ≤ b) : ∑ score ∈ Finset.Ioc a b, curveSubsidy segments score =
      scheduledSupply segments b - scheduledSupply segments a := by
  induction b, hab using Nat.le_induction with
  | base => simp
  | succ b hab ih =>
    have hbefore := scheduledSupply_mono hvalid hab
    have hstep := scheduledSupply_mono hvalid (Nat.le_add_right b 1)
    rw [← Finset.insert_Ioc_right_eq_Ioc_add_one hab, Finset.sum_insert (by simp), ih, curveSubsidy,
      Nat.add_sub_cancel]
    omega

end

/-! ## The audit -/

section

variable [Crypto] {segments : List MonetaryCadenceSegment}

variable {state : ChainState} {totals : AuditTotals}

/-- A validated reward authorizes the subsidy of its score. -/
theorem validateMonetaryRewardAtCanonicalScoreV3_subsidy {block : Block}
    {validated : ValidatedMonetaryRewardV3}
    (h : validateMonetaryRewardAtCanonicalScoreV3 state block score segments = .ok validated) :
    subsidyAtomsForScore score segments = .ok validated.authorizedSubsidyAtoms := by
  simp only [validateMonetaryRewardAtCanonicalScoreV3, maxCoinbaseClaimAtoms, ok_iff,
    checkedAdd_eq_some, checkedSub_eq_some] at h
  obtain ⟨-, -, claim, -, -, -, -, -, fees, -, settlement, ⟨subsidy, hsubsidy, hsum⟩, difference,
    hdifference, beneficiary, -, rfl⟩ := h
  have hsame : subsidy = difference := UInt64.toNat_inj.mp (by omega)
  rw [hsubsidy, hsame]

/-- One position of the audit moves the sum along the curve. -/
theorem auditPosition_subsidies (hvalid : validateCadenceSegments segments = .ok ())
    {next : AuditTotals} {hash : Hash}
    (hsum : totals.authorizedSubsidyAtoms.toNat = scheduledSupply segments score)
    (h : auditPosition state segments totals (hash, score + 1) = .ok next) :
    next.authorizedSubsidyAtoms.toNat = scheduledSupply segments (score + 1) := by
  simp only [auditPosition, bind_eq_ok, ensure_eq_ok, okOr_eq_ok, mapError_eq_ok, pure_eq_ok,
    Except.ok.injEq, checkedAdd_eq_some] at h
  obtain ⟨-, hscore, block, -, validated, hvalidated, subsidies, hsubsidies, fees, -, rfl⟩ := h
  obtain ⟨subsidy, hsubsidy, hstep⟩ := subsidyAtomsForScore_eq hvalid hscore
  rw [validateMonetaryRewardAtCanonicalScoreV3_subsidy hvalidated, Except.ok.injEq] at hsubsidy
  rw [hsubsidies, hsum, hsubsidy]
  omega

/-- The audit sums the subsidies of all positions to the supply scheduled for the last one. -/
theorem auditPositions_subsidies (hvalid : validateCadenceSegments segments = .ok ())
    {blocks : List Hash}
    (h : (blocks.zipIdx.drop 1).foldlM (auditPosition state segments) {} = .ok totals) :
    totals.authorizedSubsidyAtoms.toNat = scheduledSupply segments (blocks.length - 1) := by
  cases blocks with
  | nil =>
    obtain rfl := Except.ok.inj h
    exact scheduledSupply_zero.symm
  | cons genesis rest =>
    have hrun := foldlM_zipIdx_induction
      (P := fun pos totals => totals.authorizedSubsidyAtoms.toNat =
        scheduledSupply segments (pos - 1) ∧
        0 < pos) (fun before hash pos after _ hbefore hafter => ?_) ⟨?_, Nat.one_pos⟩ h
    · rw [hrun.1, List.length_cons, Nat.add_sub_cancel, Nat.add_sub_cancel_left]
    · obtain ⟨hsum, hpos⟩ := hbefore
      obtain ⟨score, rfl⟩ : ∃ score, pos = score + 1 := ⟨pos - 1, by omega⟩
      exact ⟨auditPosition_subsidies hvalid hsum hafter, Nat.succ_pos _⟩
    · exact scheduledSupply_zero.symm

/-- An error of the audit that is no supply mismatch. -/
def NoMismatch (error : MonetaryStateAuditV3Error) : Prop :=
  ∀ score expected observed, error ≠ .supplyMismatch score expected observed

/-- A position of the audit reports no mismatch. -/
theorem auditPosition_noMismatch (state : ChainState) (totals : AuditTotals) (entry : Hash × ℕ) :
    FailsWith NoMismatch (auditPosition state segments totals entry) := by
  refine (failsWith_ensure ?_).bind fun _ _ => (failsWith_okOr ?_).bind fun _ _ =>
    (failsWith_mapError fun _ => ?_).bind fun _ _ => (failsWith_okOr ?_).bind fun _ _ =>
      (failsWith_okOr ?_).bind fun _ _ => failsWith_ok _
  all_goals
    rintro _ _ _ ⟨⟩

/-- The audit's own sum of the subsidies never differs from the schedule. -/
theorem auditMonetaryStateV3_noMismatch (hvalid : validateCadenceSegments segments = .ok ())
    (state : ChainState) : FailsWith NoMismatch (auditMonetaryStateV3 state segments) := by
  refine (failsWith_mapError fun _ => ?_).bind fun ordered _ => (failsWith_okOr ?_).bind fun _ _ =>
    (failsWith_ensure ?_).bind fun _ _ => (failsWith_okOr ?_).bind fun _ _ =>
      (failsWith_ensure ?_).bind fun _ _ => (failsWith_foldlM (I := fun _ => True)
        (fun totals entry _ _ => auditPosition_noMismatch state totals entry)
        (fun _ _ _ _ _ _ => trivial) trivial).bind fun totals htotals =>
      (failsWith_ensure ?_).bind fun _ hscore => (failsWith_mapError fun _ => ?_).bind
        fun scheduled hscheduled => ?_
  case refine_8 =>
    -- both sides are the curve at the last score
    have hequal : totals.authorizedSubsidyAtoms = scheduled := by
      obtain ⟨atoms, hatoms, hcurve⟩ := totalSupplyAtomsForScore_eq hvalid (ensure_eq_ok.mp hscore)
      rw [mapError_eq_ok, hatoms, Except.ok.injEq] at hscheduled
      rw [← UInt64.toNat_inj, auditPositions_subsidies hvalid htotals, ← hscheduled, hcurve]
    rw [ensure_pos hequal, ok_bind]
    refine (failsWith_mapError fun _ => ?_).bind fun _ _ => failsWith_ok _
    rintro _ _ _ ⟨⟩
  all_goals
    rintro _ _ _ ⟨⟩

end

/-- Subsidies telescope: under an accepted cadence the subsidies of the scores after `a` up to
`b` all exist and add up to the issuance authorized for the range, which is the difference of
the two supplies. So the audit of a materialized state never finds a supply that differs from
the schedule. -/
theorem subsidyAtomsForScore_telescopes [Crypto] {segments : List MonetaryCadenceSegment}
    (hvalid : validateCadenceSegments segments = .ok ()) :
    (∀ a b, a < b → b < 2 ^ 64 → ∃ (subsidy : ℕ → UInt64) (issued before after : UInt64),
      (∀ score ∈ Finset.Ioc a b, subsidyAtomsForScore score segments = .ok (subsidy score)) ∧
      authorizedIssuanceAtoms a b segments = .ok issued ∧
      totalSupplyAtomsForScore a segments = .ok before ∧
      totalSupplyAtomsForScore b segments = .ok after ∧
      ∑ score ∈ Finset.Ioc a b, (subsidy score).toNat = issued.toNat ∧
      before ≤ after ∧ issued = after - before) ∧
    ∀ state materialized, materializeAuthoritativeStateV3 state segments = .ok materialized →
      ∀ score expected observed, auditMonetaryStateV3 materialized segments ≠
        .error (.supplyMismatch score expected observed) := by
  refine ⟨fun a b hab hb => ?_, fun state materialized _ score expected observed hmismatch =>
    auditMonetaryStateV3_noMismatch hvalid materialized _ hmismatch score expected observed rfl⟩
  obtain ⟨issued, hissued, hissuedNat⟩ := authorizedIssuanceAtoms_eq hvalid hab.le hb
  obtain ⟨before, hbefore, hbeforeNat⟩ := totalSupplyAtomsForScore_eq hvalid (hab.trans hb)
  obtain ⟨after, hafter, hafterNat⟩ := totalSupplyAtomsForScore_eq hvalid hb
  have hsubsidies : ∀ score ∈ Finset.Ioc a b, ∃ subsidy,
      subsidyAtomsForScore score segments = .ok subsidy ∧
        subsidy.toNat = curveSubsidy segments score := by
    intro score hscore
    obtain ⟨hlow, hhigh⟩ := Finset.mem_Ioc.mp hscore
    obtain ⟨previous, rfl⟩ : ∃ previous, score = previous + 1 := ⟨score - 1, by omega⟩
    obtain ⟨subsidy, hsubsidy, hstep⟩ := subsidyAtomsForScore_eq hvalid (hhigh.trans_lt hb)
    refine ⟨subsidy, hsubsidy, ?_⟩
    rw [curveSubsidy, Nat.add_sub_cancel]
    omega
  choose! subsidy hsubsidy hsubsidyNat using hsubsidies
  have hmono := scheduledSupply_mono hvalid hab.le
  have hle : before ≤ after := UInt64.le_iff_toNat_le.mpr (by omega)
  refine ⟨subsidy, issued, before, after, hsubsidy, hissued, hbefore, hafter, ?_, hle, ?_⟩
  · rw [Finset.sum_congr rfl hsubsidyNat, sum_curveSubsidy hvalid hab.le, hissuedNat]
  · rw [← UInt64.toNat_inj, UInt64.toNat_sub_of_le _ _ hle]
    omega

/-- The production cadence over the first three scores, and the audit of a run with a reward
conflict under an hourly cadence, which succeeds. -/
theorem subsidyAtomsForScore_telescopes_rewardConflict : letI := checksumCrypto
    (∃ issued, authorizedIssuanceAtoms 1 4 productionCadenceV3 = .ok issued ∧
      ∃ subsidy : ℕ → UInt64, ∑ score ∈ Finset.Ioc 1 4, (subsidy score).toNat = issued.toNat) ∧
    ∃ state materialized audit,
      materializeAuthoritativeStateV3 state hourlyCadence = .ok materialized ∧
      auditMonetaryStateV3 materialized hourlyCadence = .ok audit ∧
      audit.currentMonetaryScore = 5 ∧
      ∀ score expected observed, auditMonetaryStateV3 materialized hourlyCadence ≠
        .error (.supplyMismatch score expected observed) := by
  let := checksumCrypto
  have heval : ((sampleRun rewardConflict).toOption.bind fun run =>
      (materializeAuthoritativeStateV3 run.2 hourlyCadence).toOption.bind fun materialized =>
        (auditMonetaryStateV3 materialized hourlyCadence).toOption.map
          MonetaryStateAuditV3.currentMonetaryScore) = some 5 := by decide +kernel
  obtain ⟨⟨s0, state⟩, -, heval⟩ := Option.bind_eq_some_iff.mp heval
  obtain ⟨materialized, hmaterialized, heval⟩ := Option.bind_eq_some_iff.mp heval
  obtain ⟨audit, haudit, hscore⟩ := Option.map_eq_some_iff.mp heval
  have hmaterialized := eq_ok_of_toOption hmaterialized
  obtain ⟨subsidy, issued, _, _, _, hissued, _, _, hsum, _⟩ :=
    (@subsidyAtomsForScore_telescopes _ productionCadenceV3 (by decide)).1 1 4
      (by decide) (by decide)
  exact ⟨⟨issued, hissued, subsidy, hsum⟩, state, materialized, audit, hmaterialized,
    eq_ok_of_toOption haudit, hscore,
    (subsidyAtomsForScore_telescopes (by decide)).2 state materialized hmaterialized⟩

end PulseDag
