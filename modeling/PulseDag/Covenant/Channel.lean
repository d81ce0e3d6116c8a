import PulseDag.Core.Identity
import PulseDag.Covenant.Common

/-!
# Payment channels

`channel_v1.rs`: two parties close a channel together, or one of them posts a state that the other
may challenge until a deadline. Each spend is judged alone. A challenge is accepted with nothing but
the signature of the challenger, a timeout may pay another split than the posted one, and the split
is compared with the amount after a saturating sum. So a channel settles as it should as long as
there is no challenge and no timeout and the sum cannot saturate, and every channel has runs that go
wrong otherwise.
-/

namespace PulseDag

def channelTemplateIdV1 : String := "channel_v1"

def channelDomainV1 : String := "PulseDAG:covenant:channel:v1"

def channelChallengeMinPulsesV1 : UInt32 := 64

def channelChallengeMaxPulsesV1 : UInt32 := 65536

/-- `ChannelStageV1`. -/
inductive ChannelStageV1
  | funded
  | closing
  deriving DecidableEq, Repr

/-- `ChannelV1Output`. -/
structure ChannelV1Output where
  templateId : String
  partyAPk : String
  partyBPk : String
  challengePulses : UInt32
  amount : UInt64
  stage : ChannelStageV1
  stateSeq : UInt64
  amtA : UInt64
  amtB : UInt64
  postedPulseHeight : UInt64
  closingPk : String
  deriving DecidableEq, Repr

/-- `ChannelSpendPathV1`. -/
inductive ChannelSpendPathV1
  | coop
  | uni
  | challenge
  | timeout
  deriving DecidableEq, Repr

/-- `as_str`. -/
def ChannelSpendPathV1.asStr : ChannelSpendPathV1 → String
  | coop => "coop"
  | uni => "uni"
  | challenge => "challenge"
  | timeout => "timeout"

/-- `ChannelSpendWitnessV1`. -/
structure ChannelSpendWitnessV1 where
  path : ChannelSpendPathV1
  chainId : String
  outpointTxid : String
  outpointIndex : UInt32
  amtA : UInt64
  amtB : UInt64
  stateSeq : UInt64
  signerPk : String
  signatureHex : String
  counterpartySignatureHex : Option String
  deriving DecidableEq, Repr

/-- `ChannelV1Error`. -/
inductive ChannelV1Error
  | templateDisabled
  | unknownTemplateId (observed : String)
  | partiesMustDiffer
  | emptyKey (field : String)
  | challengeWindowOutOfRange (value : UInt32)
  | amountSplitMismatch (left right total : UInt64)
  | pulseClockUnavailable
  | emptyChainId
  | invalidSignature (party : String)
  | spendKeyMismatch
  | wrongStage (expected : String)
  | challengeTooLate (current deadline : UInt64)
  | timeoutTooEarly (current required : UInt64)
  | stateSeqNotHigher (posted offered : UInt64)
  deriving DecidableEq, Repr

/-- `challenge_deadline_v1`. -/
def challengeDeadlineV1 (output : ChannelV1Output) : UInt64 :=
  saturatingAdd output.postedPulseHeight output.challengePulses.toUInt64

/-- `validate_channel_output_v1`. -/
def validateChannelOutputV1 (output : ChannelV1Output) : Except ChannelV1Error Unit := do
  ensure (output.templateId = channelTemplateIdV1) (.unknownTemplateId output.templateId)
  ensure (output.partyAPk ≠ "") (.emptyKey "party_a_pk")
  ensure (output.partyBPk ≠ "") (.emptyKey "party_b_pk")
  ensure (output.partyAPk ≠ output.partyBPk) .partiesMustDiffer
  ensure (channelChallengeMinPulsesV1 ≤ output.challengePulses ∧
      output.challengePulses ≤ channelChallengeMaxPulsesV1)
    (.challengeWindowOutOfRange output.challengePulses)
  ensure (¬(output.stage = .closing ∧ saturatingAdd output.amtA output.amtB ≠ output.amount))
    (.amountSplitMismatch output.amtA output.amtB output.amount)

/-- `channel_spend_signing_message_v1`. -/
def channelSpendSigningMessageV1 (witness : ChannelSpendWitnessV1) :
    Except ChannelV1Error (List UInt8) := do
  ensure (witness.chainId ≠ "") .emptyChainId
  pure (encodeLenPrefixedStr channelDomainV1 ++ encodeLenPrefixedStr witness.chainId ++
    encodeLenPrefixedStr witness.outpointTxid ++ u32LeBytes witness.outpointIndex ++
    encodeLenPrefixedStr witness.path.asStr ++ u64LeBytes witness.amtA ++
    u64LeBytes witness.amtB ++ u64LeBytes witness.stateSeq)

/-- `signer_is_party`. -/
def signerIsParty (output : ChannelV1Output) (pk : String) : Bool :=
  pk == output.partyAPk || pk == output.partyBPk

/-- `other_party`. -/
def otherParty (output : ChannelV1Output) (pk : String) : Option String :=
  if pk = output.partyAPk then some output.partyBPk
  else if pk = output.partyBPk then some output.partyAPk
  else none

section

variable [Crypto]

/-- The last part of `evaluate_channel_spend_v1`, a case for each path. The signer of a cooperative
close has been found to be a party, so there is another party. -/
def evaluateChannelPath (output : ChannelV1Output) (witness : ChannelSpendWitnessV1)
    (pulse : Except PulseClockV1Error PulseObservationV1) (message : List UInt8) :
    Except ChannelV1Error Unit :=
  match witness.path with
  | .coop => do
    ensure (output.stage = .funded) (.wrongStage "funded")
    let other ← okOr (otherParty output witness.signerPk) .spendKeyMismatch
    let otherSig ← okOr witness.counterpartySignatureHex (.invalidSignature "counterparty")
    verifyPkSignature other otherSig message (.invalidSignature "counterparty")
  | .uni => ensure (output.stage = .funded) (.wrongStage "funded")
  | .challenge => do
    ensure (output.stage = .closing) (.wrongStage "closing")
    let pulse ← Except.mapError (fun _ => ChannelV1Error.pulseClockUnavailable) pulse
    let deadline := challengeDeadlineV1 output
    ensure (pulse.pulseHeight < deadline) (.challengeTooLate pulse.pulseHeight deadline)
    ensure (output.stateSeq < witness.stateSeq)
      (.stateSeqNotHigher output.stateSeq witness.stateSeq)
    ensure (some witness.signerPk = otherParty output output.closingPk) .spendKeyMismatch
  | .timeout => do
    ensure (output.stage = .closing) (.wrongStage "closing")
    let pulse ← Except.mapError (fun _ => ChannelV1Error.pulseClockUnavailable) pulse
    let required := challengeDeadlineV1 output
    ensure (required ≤ pulse.pulseHeight) (.timeoutTooEarly pulse.pulseHeight required)

/-- `evaluate_channel_spend_v1`. -/
def evaluateChannelSpendV1 (admission : CovenantAdmissionV1) (output : ChannelV1Output)
    (witness : ChannelSpendWitnessV1) (pulse : Except PulseClockV1Error PulseObservationV1) :
    Except ChannelV1Error Unit := do
  ensure (admission.admitted = true) .templateDisabled
  validateChannelOutputV1 output
  ensure (signerIsParty output witness.signerPk = true) .spendKeyMismatch
  ensure (saturatingAdd witness.amtA witness.amtB = output.amount)
    (.amountSplitMismatch witness.amtA witness.amtB output.amount)
  let message ← channelSpendSigningMessageV1 witness
  verifyPkSignature witness.signerPk witness.signatureHex message (.invalidSignature "signer")
  evaluateChannelPath output witness pulse message

/-! ## Runs of a channel -/

/-- The closing output that a unilateral close or a challenge posts. -/
def closingOutput (output : ChannelV1Output) (witness : ChannelSpendWitnessV1)
    (postedPulseHeight : UInt64) : ChannelV1Output :=
  { output with
    stage := .closing
    stateSeq := witness.stateSeq
    amtA := witness.amtA
    amtB := witness.amtB
    postedPulseHeight := postedPulseHeight
    closingPk := witness.signerPk }

/-- The output that a channel has after some spends that post a state. -/
inductive ChannelRun (admission : CovenantAdmissionV1) (funded : ChannelV1Output) :
    List ChannelSpendWitnessV1 → ChannelV1Output → Prop
  | funded (hstage : funded.stage = .funded) : ChannelRun admission funded [] funded
  | post {spends : List ChannelSpendWitnessV1} {output : ChannelV1Output}
      {witness : ChannelSpendWitnessV1} {pulse : Except PulseClockV1Error PulseObservationV1}
      {postedPulseHeight : UInt64} (hrun : ChannelRun admission funded spends output)
      (haccepted : evaluateChannelSpendV1 admission output witness pulse = .ok ())
      (hpath : witness.path = .uni ∨ witness.path = .challenge) :
      ChannelRun admission funded (spends ++ [witness])
        (closingOutput output witness postedPulseHeight)

variable {admission : CovenantAdmissionV1} {funded output : ChannelV1Output}
  {spends : List ChannelSpendWitnessV1} {witness : ChannelSpendWitnessV1}
  {pulse : Except PulseClockV1Error PulseObservationV1}

/-- The output of a run has the amount that was funded. -/
theorem ChannelRun.amount_eq (h : ChannelRun admission funded spends output) :
    output.amount = funded.amount := by
  induction h with
  | funded hstage => rfl
  | post hrun haccepted hpath ih => exact ih

/-- An accepted spend splits the amount of the output, up to saturation. -/
theorem evaluateChannelSpendV1_split
    (h : evaluateChannelSpendV1 admission output witness pulse = .ok ()) :
    saturatingAdd witness.amtA witness.amtB = output.amount := by
  simp only [evaluateChannelSpendV1, bind_eq_ok, ensure_eq_ok, exists_const] at h
  obtain ⟨-, _, -, -, hsplit, -⟩ := h
  exact hsplit

/-- A spend that settles a channel safely: a challenge carries a signature of the other party and
has a higher sequence than the last posted state, a timeout pays the split of that state, and the
split adds up to the funded amount. -/
structure SpendSafe (funded : ChannelV1Output) (spends : List ChannelSpendWitnessV1)
    (witness : ChannelSpendWitnessV1) : Prop where
  cosigned : witness.path = .challenge → ∃ last other signature message,
    spends.getLast? = some last ∧ last.stateSeq < witness.stateSeq ∧
      otherParty funded witness.signerPk = some other ∧
      witness.counterpartySignatureHex = some signature ∧
      channelSpendSigningMessageV1 witness = .ok message ∧
      verifyPkSignature other signature message (ChannelV1Error.invalidSignature "counterparty") =
        .ok ()
  posted : witness.path = .timeout → ∃ last, spends.getLast? = some last ∧
    witness.amtA = last.amtA ∧ witness.amtB = last.amtB
  exact : witness.amtA.toNat + witness.amtB.toNat = funded.amount.toNat

/-- A cooperative or unilateral close is safe when the sum of a split cannot saturate. -/
theorem spendSafe_of_close (hrun : ChannelRun admission funded spends output)
    (haccepted : evaluateChannelSpendV1 admission output witness pulse = .ok ())
    (hpath : witness.path = .coop ∨ witness.path = .uni)
    (hamount : funded.amount.toNat < 2 ^ 64 - 1) : SpendSafe funded spends witness := by
  have hsum := congrArg UInt64.toNat (evaluateChannelSpendV1_split haccepted)
  rw [saturatingAdd_toNat, hrun.amount_eq] at hsum
  refine ⟨fun hchallenge => ?_, fun htimeout => ?_, by omega⟩
  · rw [hchallenge] at hpath
    rcases hpath with hpath | hpath <;> cases hpath
  · rw [htimeout] at hpath
    rcases hpath with hpath | hpath <;> cases hpath

/-! ## What a party can do alone -/

/-- A spend that a party makes alone. -/
def partySpend (path : ChannelSpendPathV1) (amtA amtB stateSeq : UInt64)
    (signerPk signatureHex : String) : ChannelSpendWitnessV1 where
  path := path
  chainId := "testnet"
  outpointTxid := "channel"
  outpointIndex := 0
  amtA := amtA
  amtB := amtB
  stateSeq := stateSeq
  signerPk := signerPk
  signatureHex := signatureHex
  counterpartySignatureHex := none

omit [Crypto] in
/-- The path of the spend. -/
@[simp]
theorem partySpend_path {path : ChannelSpendPathV1} {amtA amtB stateSeq : UInt64}
    {pk signatureHex : String} : (partySpend path amtA amtB stateSeq pk signatureHex).path = path :=
  rfl

/-- The holder of a key can sign any message. -/
def CanSign (pk : String) : Prop :=
  ∀ message, ∃ signatureHex,
    verifyPkSignature pk signatureHex message (ChannelV1Error.invalidSignature "signer") = .ok ()

variable (pulse) in
/-- A party that can sign has every spend accepted whose path and split are accepted. -/
theorem exists_accepted (path : ChannelSpendPathV1) (stateSeq : UInt64) {amtA amtB : UInt64}
    {pk : String} (hadmitted : admission.admitted = true)
    (hvalid : validateChannelOutputV1 output = .ok ()) (hparty : signerIsParty output pk = true)
    (hsigns : CanSign pk) (hsplit : saturatingAdd amtA amtB = output.amount)
    (hpath : ∀ signatureHex message, evaluateChannelPath output
      (partySpend path amtA amtB stateSeq pk signatureHex) pulse message = .ok ()) :
    ∃ signatureHex, evaluateChannelSpendV1 admission output
      (partySpend path amtA amtB stateSeq pk signatureHex) pulse = .ok () := by
  obtain ⟨message, hmessage⟩ : ∃ message, ∀ signatureHex, channelSpendSigningMessageV1
      (partySpend path amtA amtB stateSeq pk signatureHex) = .ok message := by
    simp [channelSpendSigningMessageV1, partySpend, ensure]
  obtain ⟨signatureHex, hverify⟩ := hsigns message
  refine ⟨signatureHex, ?_⟩
  simp only [evaluateChannelSpendV1, bind_eq_ok, ensure_eq_ok, exists_const]
  exact ⟨hadmitted, (), hvalid, hparty, hsplit, message, hmessage signatureHex, (), hverify,
    hpath signatureHex message⟩

omit [Crypto] in
/-- A posted state makes a valid output. -/
theorem validateChannelOutputV1_closingOutput {height : UInt64}
    (hvalid : validateChannelOutputV1 output = .ok ())
    (hsplit : saturatingAdd witness.amtA witness.amtB = output.amount) :
    validateChannelOutputV1 (closingOutput output witness height) = .ok () := by
  simp only [validateChannelOutputV1, bind_eq_ok, ensure_eq_ok, exists_const] at hvalid ⊢
  obtain ⟨htemplate, hpartyA, hpartyB, hdiffer, hwindow, -⟩ := hvalid
  exact ⟨htemplate, hpartyA, hpartyB, hdiffer, hwindow, fun hmismatch => hmismatch.2 hsplit⟩

/-- The second party posts at height 0 that everything is theirs. -/
theorem exists_posted (hadmitted : admission.admitted = true)
    (hvalid : validateChannelOutputV1 funded = .ok ()) (hstage : funded.stage = .funded)
    (hsigns : CanSign funded.partyBPk) :
    ∃ signatureHex, let uni := partySpend .uni 0 funded.amount 1 funded.partyBPk signatureHex
      ChannelRun admission funded [uni] (closingOutput funded uni 0) ∧
        validateChannelOutputV1 (closingOutput funded uni 0) = .ok () := by
  have hsplit : saturatingAdd 0 funded.amount = funded.amount := by
    rw [← UInt64.toNat_inj, saturatingAdd_toNat, UInt64.toNat_zero, Nat.zero_add]
    have hlt := funded.amount.toNat_lt
    omega
  obtain ⟨signatureHex, haccepted⟩ := exists_accepted (.error .selectedTipUnavailable) .uni 1
    hadmitted hvalid (by simp [signerIsParty]) hsigns hsplit fun _ _ => ensure_eq_ok.mpr hstage
  exact ⟨signatureHex, .post (.funded hstage) haccepted (.inl rfl),
    validateChannelOutputV1_closingOutput hvalid hsplit⟩

/-- The first party challenges that state at height 0 without the second. -/
theorem evaluateChannelPath_challenge {uniHex signatureHex : String} {message : List UInt8}
    (hvalid : validateChannelOutputV1 funded = .ok ()) :
    evaluateChannelPath
      (closingOutput funded (partySpend .uni 0 funded.amount 1 funded.partyBPk uniHex) 0)
      (partySpend .challenge funded.amount 0 2 funded.partyAPk signatureHex) (.ok (pulseAt 0))
      message = .ok () := by
  simp only [validateChannelOutputV1, bind_eq_ok, ensure_eq_ok, exists_const] at hvalid
  obtain ⟨-, -, -, hdiffer, hwindow, -⟩ := hvalid
  simp only [evaluateChannelPath, partySpend_path, bind_eq_ok, ensure_eq_ok, exists_const,
    mapError_eq_ok, Except.ok.injEq]
  refine ⟨rfl, _, rfl, ?_, show (1 : UInt64) < 2 by decide, ?_⟩
  · have hmin := UInt32.le_iff_toNat_le.mp hwindow.1
    rw [UInt64.lt_iff_toNat_lt, challengeDeadlineV1, closingOutput, saturatingAdd_toNat,
      UInt32.toNat_toUInt64]
    exact lt_of_lt_of_le (by decide) (le_min (le_trans hmin (Nat.le_add_left _ _)) (by decide))
  · show some funded.partyAPk = otherParty funded funded.partyBPk
    rw [otherParty, if_neg (Ne.symm hdiffer), if_pos rfl]

/-- After the deadline the first party takes everything. -/
theorem evaluateChannelPath_timeout {uniHex signatureHex : String} {message : List UInt8} :
    evaluateChannelPath
      (closingOutput funded (partySpend .uni 0 funded.amount 1 funded.partyBPk uniHex) 0)
      (partySpend .timeout funded.amount 0 1 funded.partyAPk signatureHex)
      (.ok (pulseAt (2 ^ 64 - 1))) message = .ok () := by
  simp only [evaluateChannelPath, partySpend_path, bind_eq_ok, ensure_eq_ok, exists_const,
    mapError_eq_ok, Except.ok.injEq]
  refine ⟨rfl, _, rfl, UInt64.le_iff_toNat_le.mpr ?_⟩
  exact le_trans (Nat.le_pred_of_lt (UInt64.toNat_lt _)) (by decide +kernel)

/-- For a valid channel whose parties can sign: closes by both or by one party are safe exactly when
the sum of a split cannot saturate; some challenge is accepted without a signature of the other
party; and, unless the channel is empty, some timeout pays another split than the posted one. -/
theorem channel_settlement (hadmitted : admission.admitted = true)
    (hvalid : validateChannelOutputV1 funded = .ok ()) (hstage : funded.stage = .funded)
    (hsignsA : CanSign funded.partyAPk) (hsignsB : CanSign funded.partyBPk) :
    ((∀ spends output witness pulse, ChannelRun admission funded spends output →
      evaluateChannelSpendV1 admission output witness pulse = .ok () →
      witness.path = .coop ∨ witness.path = .uni → SpendSafe funded spends witness) ↔
        funded.amount.toNat < 2 ^ 64 - 1) ∧
    (∃ spends output witness pulse, ChannelRun admission funded spends output ∧
      evaluateChannelSpendV1 admission output witness pulse = .ok () ∧
      witness.path = .challenge ∧ witness.counterpartySignatureHex = none ∧
      ¬SpendSafe funded spends witness) ∧
    (funded.amount ≠ 0 → ∃ spends output witness pulse,
      ChannelRun admission funded spends output ∧
      evaluateChannelSpendV1 admission output witness pulse = .ok () ∧
      witness.path = .timeout ∧ ¬SpendSafe funded spends witness) := by
  obtain ⟨uniHex, hposted, hpostedValid⟩ := exists_posted hadmitted hvalid hstage hsignsB
  have hsplit : saturatingAdd funded.amount 0 = funded.amount := by
    rw [← UInt64.toNat_inj, saturatingAdd_toNat, UInt64.toNat_zero, Nat.add_zero]
    have hlt := funded.amount.toNat_lt
    omega
  have hparty : signerIsParty funded funded.partyAPk = true := by simp [signerIsParty]
  refine ⟨⟨fun hsafe => ?_, fun hamount spends output witness pulse hrun haccepted hpath =>
    spendSafe_of_close hrun haccepted hpath hamount⟩, ?_, fun hamount => ?_⟩
  · -- At the largest amount a unilateral close may split more than there is.
    by_contra hlarge
    have hmax : saturatingAdd funded.amount 1 = funded.amount := by
      rw [← UInt64.toNat_inj, saturatingAdd_toNat, UInt64.toNat_one]
      have hlt := funded.amount.toNat_lt
      omega
    obtain ⟨signatureHex, haccepted⟩ := exists_accepted (.error .selectedTipUnavailable) .uni 1
      hadmitted hvalid hparty hsignsA hmax fun _ _ => ensure_eq_ok.mpr hstage
    have hexact := (hsafe [] funded _ _ (.funded hstage) haccepted (.inr rfl)).exact
    change funded.amount.toNat + 1 = funded.amount.toNat at hexact
    omega
  · obtain ⟨signatureHex, haccepted⟩ := exists_accepted (.ok (pulseAt 0)) .challenge 2
      hadmitted hpostedValid hparty hsignsA hsplit fun _ _ => evaluateChannelPath_challenge hvalid
    refine ⟨_, _, _, _, hposted, haccepted, rfl, rfl, fun hsafe => ?_⟩
    obtain ⟨_, _, signature, _, -, -, -, hcarried, -⟩ := hsafe.cosigned rfl
    cases hcarried
  · obtain ⟨signatureHex, haccepted⟩ := exists_accepted (.ok (pulseAt (2 ^ 64 - 1))) .timeout 1
      hadmitted hpostedValid hparty hsignsA hsplit fun _ _ => evaluateChannelPath_timeout
    refine ⟨_, _, _, _, hposted, haccepted, rfl, fun hsafe => ?_⟩
    obtain ⟨last, hlast, hamtA, -⟩ := hsafe.posted rfl
    cases hlast
    exact hamount hamtA

end

/-- The digest is not used; a signature verifies if its message is one of those that the holder of
the key has signed. -/
abbrev signedCrypto (signed : List (List UInt8 × List UInt8)) : Crypto where
  sha256 _ := []
  ed25519Verify publicKey message _ := decide ((publicKey, message) ∈ signed)
  kHeavyHashDigest _ _ := []

/-- The key of a party: one byte, thirty-two times. -/
def partyKey (byte : UInt8) : String := hexEncode (List.replicate 32 byte)

/-- A funded channel between the parties `0xaa` and `0xbb`. -/
def sampleChannel (amount : UInt64) : ChannelV1Output where
  templateId := channelTemplateIdV1
  partyAPk := partyKey 0xaa
  partyBPk := partyKey 0xbb
  challengePulses := 64
  amount := amount
  stage := .funded
  stateSeq := 0
  amtA := 0
  amtB := 0
  postedPulseHeight := 0
  closingPk := ""

/-- A spend that a party signs. -/
def sampleSpend (path : ChannelSpendPathV1) (amtA amtB stateSeq : UInt64) (signer : UInt8) :
    ChannelSpendWitnessV1 :=
  partySpend path amtA amtB stateSeq (partyKey signer) (hexEncode (List.replicate 64 0))

/-- The messages of some spends, each with the public key that signs it. -/
def signedSpends (spends : List (UInt8 × ChannelSpendWitnessV1)) : List (List UInt8 × List UInt8) :=
  spends.filterMap fun entry =>
    (channelSpendSigningMessageV1 entry.2).toOption.map (List.replicate 32 entry.1, ·)

/-- The parties can sign. -/
theorem canSign_partyKey : letI := holdersCrypto [List.replicate 32 0xaa, List.replicate 32 0xbb]
    CanSign (partyKey 0xaa) ∧ CanSign (partyKey 0xbb) := by
  let := holdersCrypto [List.replicate 32 0xaa, List.replicate 32 0xbb]
  have hsignature : hexDecode (hexEncode (List.replicate 64 0)) = some (List.replicate 64 0) := by
    decide +kernel
  have hsigns : ∀ byte : UInt8, hexDecode (partyKey byte) = some (List.replicate 32 byte) →
      List.replicate 32 byte ∈ [List.replicate 32 (0xaa : UInt8), List.replicate 32 0xbb] →
        CanSign (partyKey byte) := by
    intro byte hkey hholder message
    refine ⟨hexEncode (List.replicate 64 0), ?_⟩
    simp only [verifyPkSignature, bind_eq_ok, okOr_eq_ok, ensure_eq_ok, exists_const]
    exact ⟨_, hkey, _, hsignature, List.length_replicate, List.length_replicate,
      decide_eq_true hholder⟩
  exact ⟨hsigns 0xaa (by decide +kernel) (by decide), hsigns 0xbb (by decide +kernel) (by decide)⟩

/-- Closes of a channel with 100 coins are safe, and a challenge nobody else has signed is
accepted. -/
theorem channel_settlement_hundred :
    letI := holdersCrypto [List.replicate 32 0xaa, List.replicate 32 0xbb]
    (∃ witness, evaluateChannelSpendV1 ⟨true, true⟩ (sampleChannel 100) witness
      (.ok (pulseAt 5)) = .ok () ∧ witness.path = .uni ∧ SpendSafe (sampleChannel 100) [] witness) ∧
    ∃ spends output witness pulse, ChannelRun ⟨true, true⟩ (sampleChannel 100) spends output ∧
      evaluateChannelSpendV1 ⟨true, true⟩ output witness pulse = .ok () ∧
      witness.path = .challenge ∧ witness.counterpartySignatureHex = none := by
  let := holdersCrypto [List.replicate 32 0xaa, List.replicate 32 0xbb]
  have hadmitted : (⟨true, true⟩ : CovenantAdmissionV1).admitted = true := rfl
  have hvalid : validateChannelOutputV1 (sampleChannel 100) = .ok () :=
    eq_ok_of_toOption (by decide +kernel)
  have huni : evaluateChannelSpendV1 ⟨true, true⟩ (sampleChannel 100)
      (sampleSpend .uni 10 90 1 0xbb)
      (.ok (pulseAt 5)) = .ok () := eq_ok_of_toOption (by decide +kernel)
  obtain ⟨hclose, ⟨spends, output, witness, pulse, hrun, haccepted, hpath, hnone, -⟩, -⟩ :=
    channel_settlement hadmitted hvalid rfl canSign_partyKey.1 canSign_partyKey.2
  exact ⟨⟨_, huni, rfl, hclose.mpr (by decide) _ _ _ _ (.funded rfl) huni (.inr rfl)⟩,
    spends, output, witness, pulse, hrun, haccepted, hpath, hnone⟩

/-- One party posts a state. The other party challenges it with a state that nobody else has signed,
waits for the deadline and takes the amount twice. -/
theorem channel_settlement_unsafe :
    ∃ spends, letI := signedCrypto (signedSpends spends)
      ∃ uni challenge timeout message posted output,
        ChannelRun ⟨true, true⟩ (sampleChannel (2 ^ 64 - 1)) [uni] posted ∧
        evaluateChannelSpendV1 ⟨true, true⟩ posted challenge (.ok (pulseAt 10)) = .ok () ∧
        challenge.path = .challenge ∧ challenge.signerPk = partyKey 0xaa ∧
        channelSpendSigningMessageV1 challenge = .ok message ∧
        (∀ signature, Crypto.ed25519Verify (List.replicate 32 0xbb) message signature = false) ∧
        ChannelRun ⟨true, true⟩ (sampleChannel (2 ^ 64 - 1)) [uni, challenge] output ∧
        evaluateChannelSpendV1 ⟨true, true⟩ output timeout (.ok (pulseAt 100)) = .ok () ∧
        timeout.path = .timeout ∧ timeout.amtB ≠ challenge.amtB ∧
        timeout.amtA.toNat + timeout.amtB.toNat ≠ (sampleChannel (2 ^ 64 - 1)).amount.toNat := by
  let uni := sampleSpend .uni 1 (2 ^ 64 - 2) 1 0xbb
  let challenge := sampleSpend .challenge (2 ^ 64 - 1) 0 2 0xaa
  let timeout := sampleSpend .timeout (2 ^ 64 - 1) (2 ^ 64 - 1) 2 0xaa
  let spends : List (UInt8 × ChannelSpendWitnessV1) :=
    [(0xbb, uni), (0xaa, challenge), (0xaa, timeout)]
  refine ⟨spends, ?_⟩
  let := signedCrypto (signedSpends spends)
  have huni : evaluateChannelSpendV1 ⟨true, true⟩ (sampleChannel (2 ^ 64 - 1)) uni
      (.ok (pulseAt 5)) = .ok () := eq_ok_of_toOption (by decide +kernel)
  have hrun : ChannelRun ⟨true, true⟩ (sampleChannel (2 ^ 64 - 1)) [uni]
      (closingOutput (sampleChannel (2 ^ 64 - 1)) uni 5) := .post (.funded rfl) huni (.inl rfl)
  have hchallenge : evaluateChannelSpendV1 ⟨true, true⟩
      (closingOutput (sampleChannel (2 ^ 64 - 1)) uni 5) challenge (.ok (pulseAt 10)) = .ok () :=
    eq_ok_of_toOption (by decide +kernel)
  have hrun' : ChannelRun ⟨true, true⟩ (sampleChannel (2 ^ 64 - 1)) [uni, challenge]
      (closingOutput (closingOutput (sampleChannel (2 ^ 64 - 1)) uni 5) challenge 10) :=
    .post hrun hchallenge (.inr rfl)
  have htimeout : evaluateChannelSpendV1 ⟨true, true⟩
      (closingOutput (closingOutput (sampleChannel (2 ^ 64 - 1)) uni 5) challenge 10) timeout
      (.ok (pulseAt 100)) = .ok () := eq_ok_of_toOption (by decide +kernel)
  exact ⟨uni, challenge, timeout, _, _, _, hrun, hchallenge, rfl, rfl, rfl,
    fun _ => decide_eq_false (by decide +kernel), hrun', htimeout, rfl, by decide +kernel,
    by decide +kernel⟩

end PulseDag
