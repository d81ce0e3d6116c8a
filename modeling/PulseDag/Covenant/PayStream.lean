import PulseDag.Covenant.Common

/-!
# Pay streams

`pay_stream_v1.rs`: an output that releases one bucket of its amount each time a number of pulses
has gone by. A withdrawal pays the buckets that have matured and leaves a successor with what
remains. The amount of an output is checked with a saturating product, so a stream whose exact
amount is no 64-bit word is accepted although it cannot pay what it promises.
-/

namespace PulseDag

open List

def payStreamTemplateIdV1 : String := "pay_stream_v1"

def payStreamBucketPulsesMinV1 : UInt32 := 16

def payStreamBucketPulsesMaxV1 : UInt32 := 65536

def payStreamBucketCountMinV1 : UInt32 := 1

def payStreamBucketCountMaxV1 : UInt32 := 4096

/-- `PayStreamV1Output`. -/
structure PayStreamV1Output where
  templateId : String
  payerPk : String
  recipientPk : String
  startPulse : UInt64
  bucketPulses : UInt32
  bucketCount : UInt32
  amountPerBucket : UInt64
  withdrawnBuckets : UInt32
  amount : UInt64
  createdPulseHeight : UInt64
  deriving DecidableEq, Repr

/-- `PayStreamV1Error`. -/
inductive PayStreamV1Error
  | templateDisabled
  | unknownTemplateId (observed : String)
  | payerAndRecipientMustDiffer
  | emptyKey (field : String)
  | bucketPulsesOutOfRange (value : UInt32)
  | bucketCountOutOfRange (value : UInt32)
  | withdrawnExceedsCount
  | amountMismatch (expected actual : UInt64)
  | startPulseBeforeCreate
  | pulseClockUnavailable
  | nothingMatured (matured withdrawn : UInt32)
  deriving DecidableEq, Repr

/-- `validate_pay_stream_output_v1`. -/
def validatePayStreamOutputV1 (output : PayStreamV1Output) : Except PayStreamV1Error Unit := do
  ensure (output.templateId = payStreamTemplateIdV1) (.unknownTemplateId output.templateId)
  ensure (output.payerPk ≠ "") (.emptyKey "payer_pk")
  ensure (output.recipientPk ≠ "") (.emptyKey "recipient_pk")
  ensure (output.payerPk ≠ output.recipientPk) .payerAndRecipientMustDiffer
  ensure (payStreamBucketPulsesMinV1 ≤ output.bucketPulses ∧
      output.bucketPulses ≤ payStreamBucketPulsesMaxV1)
    (.bucketPulsesOutOfRange output.bucketPulses)
  ensure (payStreamBucketCountMinV1 ≤ output.bucketCount ∧
      output.bucketCount ≤ payStreamBucketCountMaxV1)
    (.bucketCountOutOfRange output.bucketCount)
  ensure (output.withdrawnBuckets ≤ output.bucketCount) .withdrawnExceedsCount
  ensure (output.createdPulseHeight ≤ output.startPulse) .startPulseBeforeCreate
  let remaining := (saturatingSubU32 output.bucketCount output.withdrawnBuckets).toUInt64
  let expected := saturatingMul output.amountPerBucket remaining
  ensure (output.amount = expected) (.amountMismatch expected output.amount)

/-- `matured_buckets_v1`. -/
def maturedBucketsV1 (output : PayStreamV1Output) (pulseHeight : UInt64) : UInt32 :=
  if pulseHeight < output.startPulse ∨ output.bucketPulses = 0 then 0
  else
    let elapsed := saturatingSub pulseHeight output.startPulse
    let raw := elapsed / output.bucketPulses.toUInt64
    (min raw output.bucketCount.toUInt64).toUInt32

/-- `withdrawable_buckets_v1`. -/
def withdrawableBucketsV1 (output : PayStreamV1Output) (pulseHeight : UInt64) : UInt32 :=
  saturatingSubU32 (maturedBucketsV1 output pulseHeight) output.withdrawnBuckets

/-- `evaluate_pay_stream_withdraw_v1`. -/
def evaluatePayStreamWithdrawV1 (admission : CovenantAdmissionV1) (output : PayStreamV1Output)
    (pulse : Except PulseClockV1Error PulseObservationV1) : Except PayStreamV1Error UInt32 := do
  ensure (admission.admitted = true) .templateDisabled
  validatePayStreamOutputV1 output
  let pulse ← Except.mapError (fun _ => PayStreamV1Error.pulseClockUnavailable) pulse
  let k := withdrawableBucketsV1 output pulse.pulseHeight
  ensure (k ≠ 0)
    (.nothingMatured (maturedBucketsV1 output pulse.pulseHeight) output.withdrawnBuckets)
  pure k

/-- What matters of a valid output: the remaining buckets are counted without a wrap, and the
amount is their exact value unless it saturates. -/
theorem validatePayStreamOutputV1_eq_ok {output : PayStreamV1Output}
    (h : validatePayStreamOutputV1 output = .ok ()) :
    output.withdrawnBuckets.toNat ≤ output.bucketCount.toNat ∧ output.bucketCount.toNat ≤ 4096 ∧
      output.amount.toNat = min (output.amountPerBucket.toNat *
        (output.bucketCount.toNat - output.withdrawnBuckets.toNat)) (2 ^ 64 - 1) := by
  simp only [validatePayStreamOutputV1, bind_eq_ok, ensure_eq_ok, exists_const] at h
  obtain ⟨-, -, -, -, -, ⟨-, hcount⟩, hwithdrawn, -, hamount⟩ := h
  refine ⟨UInt32.le_iff_toNat_le.mp hwithdrawn, UInt32.le_iff_toNat_le.mp hcount, ?_⟩
  rw [hamount, saturatingMul_toNat, UInt32.toNat_toUInt64, saturatingSubU32_toNat]

/-- The matured buckets, with a quotient and a difference of natural numbers. -/
theorem maturedBucketsV1_toNat (output : PayStreamV1Output) (pulseHeight : UInt64) :
    (maturedBucketsV1 output pulseHeight).toNat =
      min ((pulseHeight.toNat - output.startPulse.toNat) / output.bucketPulses.toNat)
        output.bucketCount.toNat := by
  unfold maturedBucketsV1
  split
  · rename_i hzero
    rcases hzero with hbefore | hpulses
    · rw [UInt64.lt_iff_toNat_lt] at hbefore
      rw [Nat.sub_eq_zero_of_le hbefore.le, Nat.zero_div, Nat.zero_min, UInt32.toNat_zero]
    · rw [hpulses, UInt32.toNat_zero, Nat.div_zero, Nat.zero_min]
  · rename_i hlate
    rw [not_or, UInt64.not_lt] at hlate
    have helapsed : (saturatingSub pulseHeight output.startPulse).toNat =
        pulseHeight.toNat - output.startPulse.toNat := by
      unfold saturatingSub
      split
      · rename_i hle
        rw [UInt64.le_iff_toNat_le] at hle
        rw [UInt64.toNat_zero]
        omega
      · exact UInt64.toNat_sub_of_le _ _ hlate.1
    have hcount : output.bucketCount.toNat < 2 ^ 32 := output.bucketCount.toNat_lt
    rw [UInt64.toNat_toUInt32, toNat_min, UInt64.toNat_div, helapsed, UInt32.toNat_toUInt64,
      UInt32.toNat_toUInt64]
    exact Nat.mod_eq_of_lt (by omega)

/-- What an accepted withdrawal says. -/
theorem evaluatePayStreamWithdrawV1_eq_ok {admission : CovenantAdmissionV1}
    {output : PayStreamV1Output} {pulse : PulseObservationV1} {k : UInt32}
    (h : evaluatePayStreamWithdrawV1 admission output (.ok pulse) = .ok k) :
    validatePayStreamOutputV1 output = .ok () ∧ 0 < k.toNat ∧
      output.withdrawnBuckets.toNat + k.toNat =
        (maturedBucketsV1 output pulse.pulseHeight).toNat := by
  simp only [evaluatePayStreamWithdrawV1, bind_eq_ok, ensure_eq_ok, mapError_eq_ok, Except.ok.injEq,
    exists_const, pure_eq_ok] at h
  obtain ⟨-, _, hvalid, observed, rfl, hpositive, rfl⟩ := h
  have hk : (withdrawableBucketsV1 output pulse.pulseHeight).toNat ≠ 0 := fun hzero =>
    hpositive (UInt32.toNat_inj.mp hzero)
  refine ⟨hvalid, Nat.pos_of_ne_zero hk, ?_⟩
  rw [withdrawableBucketsV1, saturatingSubU32_toNat] at hk ⊢
  omega

/-! ## Runs of withdrawals -/

/-- A withdrawal: the observation it is made under, the buckets withdrawn before it and the number
of buckets that it pays. -/
structure PayStreamWithdrawal where
  pulse : PulseObservationV1
  withdrawnBefore : UInt32
  buckets : UInt32
  deriving DecidableEq, Repr

/-- Withdrawals one after the other. Each one is accepted and leaves a valid successor that differs
from the output only in the buckets withdrawn, the amount and the height it was created at. -/
inductive PayStreamRun (admission : CovenantAdmissionV1) :
    PayStreamV1Output → List PayStreamWithdrawal → PayStreamV1Output → Prop
  | nil (output : PayStreamV1Output) : PayStreamRun admission output [] output
  | cons {output next final : PayStreamV1Output} {pulse : PulseObservationV1} {k : UInt32}
      {rest : List PayStreamWithdrawal}
      (haccepted : evaluatePayStreamWithdrawV1 admission output (.ok pulse) = .ok k)
      (hnext : next = { output with
        withdrawnBuckets := output.withdrawnBuckets + k
        amount := next.amount
        createdPulseHeight := next.createdPulseHeight })
      (hvalid : validatePayStreamOutputV1 next = .ok ())
      (hrest : PayStreamRun admission next rest final) :
      PayStreamRun admission output (⟨pulse, output.withdrawnBuckets, k⟩ :: rest) final

/-- The buckets that a withdrawal pays, each with the height at which it is paid. -/
def PayStreamWithdrawal.payments (withdrawal : PayStreamWithdrawal) : List (ℕ × ℕ) :=
  (List.range' withdrawal.withdrawnBefore.toNat withdrawal.buckets.toNat).map
    (·, withdrawal.pulse.pulseHeight.toNat)

/-- The buckets that a run pays. -/
def paymentsOf (withdrawals : List PayStreamWithdrawal) : List (ℕ × ℕ) :=
  withdrawals.flatMap PayStreamWithdrawal.payments

/-- Bucket `i` matures when `i + 1` bucket widths have gone by since the start. -/
def PayStreamV1Output.MaturedAt (output : PayStreamV1Output) (payment : ℕ × ℕ) : Prop :=
  payment.1 < output.bucketCount.toNat ∧
    output.startPulse.toNat + (payment.1 + 1) * output.bucketPulses.toNat ≤ payment.2

/-- The exact value of the buckets that remain is a 64-bit word. -/
def PayStreamV1Output.ExactAmount (output : PayStreamV1Output) : Prop :=
  output.amountPerBucket.toNat * (output.bucketCount.toNat - output.withdrawnBuckets.toNat) < 2 ^ 64

section

variable {admission : CovenantAdmissionV1} {output next : PayStreamV1Output}
  {pulse : PulseObservationV1} {k : UInt32}

/-- An accepted withdrawal pays only buckets that have matured. -/
theorem maturedAt_of_accepted
    (h : evaluatePayStreamWithdrawV1 admission output (.ok pulse) = .ok k) :
    ∀ payment ∈ (PayStreamWithdrawal.mk pulse output.withdrawnBuckets k).payments,
      output.MaturedAt payment := by
  obtain ⟨-, -, hk⟩ := evaluatePayStreamWithdrawV1_eq_ok h
  rw [maturedBucketsV1_toNat] at hk
  intro payment hpayment
  obtain ⟨bucket, hbucket, rfl⟩ := mem_map.mp hpayment
  rw [mem_range'_1] at hbucket
  dsimp only at hbucket ⊢
  have hquotient : bucket + 1 ≤
      (pulse.pulseHeight.toNat - output.startPulse.toNat) / output.bucketPulses.toNat := by omega
  have helapsed := (Nat.mul_le_mul_right _ hquotient).trans (Nat.div_mul_le_self _ _)
  refine ⟨show bucket < output.bucketCount.toNat by omega, ?_⟩
  -- A positive quotient shows that the stream has started.
  have hstarted : output.startPulse.toNat < pulse.pulseHeight.toNat := by
    by_contra hbefore
    rw [Nat.sub_eq_zero_of_le (by omega), Nat.zero_div] at hquotient
    omega
  show output.startPulse.toNat + (bucket + 1) * output.bucketPulses.toNat ≤ pulse.pulseHeight.toNat
  omega

/-- The buckets of a withdrawal are counted without a wrap. -/
theorem withdrawnBuckets_of_accepted
    (h : evaluatePayStreamWithdrawV1 admission output (.ok pulse) = .ok k) :
    (output.withdrawnBuckets + k).toNat = output.withdrawnBuckets.toNat + k.toNat := by
  obtain ⟨houtput, -, hk⟩ := evaluatePayStreamWithdrawV1_eq_ok h
  obtain ⟨-, hcount, -⟩ := validatePayStreamOutputV1_eq_ok houtput
  rw [maturedBucketsV1_toNat] at hk
  rw [UInt32.toNat_add, Nat.mod_eq_of_lt (by omega)]

end

section

variable {admission : CovenantAdmissionV1} {initial final : PayStreamV1Output}
  {withdrawals : List PayStreamWithdrawal}

/-- One payment for each bucket. -/
theorem length_payments (withdrawal : PayStreamWithdrawal) :
    withdrawal.payments.length = withdrawal.buckets.toNat := by simp [PayStreamWithdrawal.payments]

/-- A run pays the buckets in order, each after it has matured, and counts them. -/
theorem PayStreamRun.counts (hrun : PayStreamRun admission initial withdrawals final) :
    (paymentsOf withdrawals).map Prod.fst =
        List.range' initial.withdrawnBuckets.toNat (paymentsOf withdrawals).length ∧
      (∀ payment ∈ paymentsOf withdrawals, initial.MaturedAt payment) ∧
      final.amountPerBucket = initial.amountPerBucket ∧ final.bucketCount = initial.bucketCount ∧
      final.withdrawnBuckets.toNat =
        initial.withdrawnBuckets.toNat + (paymentsOf withdrawals).length := by
  induction hrun with
  | nil output => simp [paymentsOf]
  | @cons output next final pulse k rest haccepted hnext hvalid hrest ih =>
    obtain ⟨hbuckets, hmatured, hper, hcount, hwithdrawn⟩ := ih
    have hbefore : next.withdrawnBuckets.toNat = output.withdrawnBuckets.toNat + k.toNat := by
      rw [hnext, withdrawnBuckets_of_accepted haccepted]
    rw [paymentsOf, flatMap_cons, ← paymentsOf, map_append, length_append,
      length_payments]
    refine ⟨?_, ?_, by rw [hper, hnext], by rw [hcount, hnext],
      by rw [hwithdrawn, hbefore, Nat.add_assoc]⟩
    · rw [hbuckets, hbefore, PayStreamWithdrawal.payments, map_map]
      simp [Function.comp_def, range'_append_1]
    · rw [forall_mem_append]
      refine ⟨maturedAt_of_accepted haccepted, fun payment hpayment => ?_⟩
      obtain ⟨hlt, hheight⟩ := hmatured payment hpayment
      rw [hnext] at hlt hheight
      exact ⟨hlt, hheight⟩

/-- A run with a withdrawal starts and ends with valid outputs and pays something. -/
theorem PayStreamRun.valid (hrun : PayStreamRun admission initial withdrawals final)
    (hsome : withdrawals ≠ []) :
    validatePayStreamOutputV1 initial = .ok () ∧ validatePayStreamOutputV1 final = .ok () ∧
      0 < (paymentsOf withdrawals).length := by
  induction hrun with
  | nil output => exact absurd rfl hsome
  | @cons output next final pulse k rest haccepted hnext hvalid hrest ih =>
    obtain ⟨houtput, hpositive, -⟩ := evaluatePayStreamWithdrawV1_eq_ok haccepted
    rw [paymentsOf, flatMap_cons, length_append, length_payments]
    refine ⟨houtput, ?_, Nat.add_pos_left hpositive _⟩
    cases rest with
    | nil =>
      cases hrest
      exact hvalid
    | cons withdrawal others => exact (ih (cons_ne_nil _ _)).2.1

/-- Over a whole run the buckets are paid one after the other, each at most once and not before
it has matured. What has been paid together with what remains is the initial amount exactly when
nothing is withdrawn or the initial amount is exact. The heights of the observations may come in
any order. -/
theorem payStream_conserved (hrun : PayStreamRun admission initial withdrawals final) :
    (paymentsOf withdrawals).map Prod.fst =
        List.range' initial.withdrawnBuckets.toNat (paymentsOf withdrawals).length ∧
      (paymentsOf withdrawals).length ≤
        initial.bucketCount.toNat - initial.withdrawnBuckets.toNat ∧
      (∀ payment ∈ paymentsOf withdrawals, initial.MaturedAt payment) ∧
      (initial.amountPerBucket.toNat * (paymentsOf withdrawals).length + final.amount.toNat =
        initial.amount.toNat ↔ withdrawals = [] ∨ initial.ExactAmount) := by
  obtain ⟨hbuckets, hmatured, hper, hcount, hwithdrawn⟩ := hrun.counts
  by_cases hsome : withdrawals = []
  · subst hsome
    cases hrun
    exact ⟨hbuckets, Nat.zero_le _, hmatured, iff_of_true (by simp [paymentsOf]) (.inl rfl)⟩
  obtain ⟨hinitial, hfinal, hpositive⟩ := hrun.valid hsome
  obtain ⟨-, -, hamount⟩ := validatePayStreamOutputV1_eq_ok hinitial
  obtain ⟨hle, -, hremaining⟩ := validatePayStreamOutputV1_eq_ok hfinal
  rw [hcount, hwithdrawn] at hle
  rw [hper, hcount, hwithdrawn, Nat.sub_add_eq] at hremaining
  refine ⟨hbuckets, by omega, hmatured, ?_⟩
  rw [or_iff_right hsome, PayStreamV1Output.ExactAmount, hamount, hremaining]
  generalize (paymentsOf withdrawals).length = paid at hpositive hle ⊢
  -- The value of the remaining buckets splits into what is paid and what is left.
  obtain ⟨left, hleft⟩ := Nat.exists_eq_add_of_le
    (show paid ≤ initial.bucketCount.toNat - initial.withdrawnBuckets.toNat by omega)
  rw [hleft, Nat.add_sub_cancel_left, Nat.mul_add]
  have hnothing : initial.amountPerBucket.toNat * paid = 0 →
      initial.amountPerBucket.toNat * left = 0 := fun hzero => by
    rw [(Nat.mul_eq_zero.mp hzero).resolve_right hpositive.ne', Nat.zero_mul]
  omega

end

/-- A stream of four buckets. -/
def fourBuckets (amountPerBucket amount : UInt64) : PayStreamV1Output where
  templateId := payStreamTemplateIdV1
  payerPk := "payer"
  recipientPk := "recipient"
  startPulse := 100
  bucketPulses := 16
  bucketCount := 4
  amountPerBucket := amountPerBucket
  withdrawnBuckets := 0
  amount := amount
  createdPulseHeight := 90

/-- The stream after some of its buckets have been withdrawn. -/
def fourBucketsAfter (withdrawn : UInt32) (amountPerBucket amount : UInt64) : PayStreamV1Output :=
  { fourBuckets amountPerBucket amount with withdrawnBuckets := withdrawn }

/-- Two withdrawals: one bucket, and then the two that have matured since. -/
theorem payStream_conserved_fourBuckets :
    ∃ final withdrawals, PayStreamRun ⟨true, true⟩ (fourBuckets 10 40) withdrawals final ∧
      (paymentsOf withdrawals).map Prod.fst = [0, 1, 2] ∧
      10 * (paymentsOf withdrawals).length + final.amount.toNat = 40 := by
  have hsecond : PayStreamRun ⟨true, true⟩ (fourBucketsAfter 1 10 30) [⟨pulseAt 150, 1, 2⟩]
      (fourBucketsAfter 3 10 10) :=
    .cons (eq_ok_of_toOption (by decide +kernel)) rfl (eq_ok_of_toOption (by decide +kernel))
      (.nil _)
  have hrun : PayStreamRun ⟨true, true⟩ (fourBuckets 10 40)
      [⟨pulseAt 116, 0, 1⟩, ⟨pulseAt 150, 1, 2⟩] (fourBucketsAfter 3 10 10) :=
    .cons (eq_ok_of_toOption (by decide +kernel)) rfl
      (eq_ok_of_toOption (by decide +kernel)) hsecond
  have hexact : (fourBuckets 10 40).ExactAmount := by
    unfold PayStreamV1Output.ExactAmount
    decide +kernel
  obtain ⟨hbuckets, -, -, hamount⟩ := payStream_conserved hrun
  exact ⟨_, _, hrun, hbuckets, hamount.mpr (.inr hexact)⟩

/-- Four buckets of `2 ^ 63` each: the amount saturates before and after the first withdrawal, so
the output still holds all of its amount when a bucket has been paid. -/
theorem payStream_not_conserved :
    ∃ initial final withdrawals, PayStreamRun ⟨true, true⟩ initial withdrawals final ∧
      initial.amountPerBucket.toNat * (paymentsOf withdrawals).length + final.amount.toNat ≠
        initial.amount.toNat := by
  have hrun : PayStreamRun ⟨true, true⟩ (fourBuckets (2 ^ 63) (2 ^ 64 - 1))
      [⟨pulseAt 116, 0, 1⟩] (fourBucketsAfter 1 (2 ^ 63) (2 ^ 64 - 1)) :=
    .cons (eq_ok_of_toOption (by decide +kernel)) rfl (eq_ok_of_toOption (by decide +kernel))
      (.nil _)
  exact ⟨_, _, _, hrun, by decide +kernel⟩

end PulseDag
