import PulseDag.Legacy.PulseClock

/-!
# What the covenant templates share

The admission of a template and the check of one signature. A template that has not been admitted
rejects every spend.
-/

namespace PulseDag

/-- `PayStreamAdmissionV1`, `MultisigAdmissionV1` and `ChannelAdmissionV1`. -/
structure CovenantAdmissionV1 where
  covenantsEnabled : Bool
  templateAdmitted : Bool
  deriving DecidableEq, Repr

/-- `admitted`. -/
def CovenantAdmissionV1.admitted (admission : CovenantAdmissionV1) : Bool :=
  admission.covenantsEnabled && admission.templateAdmitted

section

variable [Crypto] {ε : Type}

/-- `verify_pk_signature` of `channel_v1.rs`, which is also the body of the signature loop in
`multisig_v1.rs`. Whatever fails, the error is the same. -/
def verifyPkSignature (publicKeyHex signatureHex : String) (message : List UInt8) (error : ε) :
    Except ε Unit := do
  let publicKey ← okOr (hexDecode publicKeyHex) error
  let signature ← okOr (hexDecode signatureHex) error
  ensure (publicKey.length = 32) error
  ensure (signature.length = 64) error
  ensure (Crypto.ed25519Verify publicKey message signature = true) error

/-- The public key that a text stands for has verified a signature on the message. -/
def KeyVerified (publicKeyHex : String) (publicKey message : List UInt8) : Prop :=
  hexDecode publicKeyHex = some publicKey ∧ publicKey.length = 32 ∧
    ∃ signature, Crypto.ed25519Verify publicKey message signature = true

/-- What an accepted signature says. -/
theorem keyVerified_of_ok {publicKeyHex signatureHex : String} {message : List UInt8} {error : ε}
    (h : verifyPkSignature publicKeyHex signatureHex message error = .ok ()) :
    ∃ publicKey, KeyVerified publicKeyHex publicKey message := by
  simp only [verifyPkSignature, bind_eq_ok, okOr_eq_ok, ensure_eq_ok, exists_const] at h
  obtain ⟨publicKey, hkey, signature, -, hlength, -, hverify⟩ := h
  exact ⟨publicKey, hkey, hlength, signature, hverify⟩

end

/-- Some holders: every signature under their public keys verifies, and no other does. -/
abbrev holdersCrypto (holders : List (List UInt8)) : Crypto where
  sha256 _ := []
  ed25519Verify publicKey _ _ := decide (publicKey ∈ holders)
  kHeavyHashDigest _ _ := []

/-- An observation at a height. -/
def pulseAt (height : UInt64) : PulseObservationV1 where
  pulseVersion := pulseVersionV1
  domain := pulseDomainV1
  chainId := "stream-test"
  selectedTip := "tip"
  pulseHeight := height
  pulseTime := 1700000000
  windowK := pulseWindowKV1
  sampleCount := 3
  uncertaintySecs := 1
  finalityLag := height

end PulseDag
