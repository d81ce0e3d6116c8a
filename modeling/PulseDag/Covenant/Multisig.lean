import PulseDag.Core.Identity
import PulseDag.Covenant.Common
import PulseDag.Lib.DistinctChecks

/-!
# Threshold signatures

`multisig_v1.rs`: an output that is spent with the signatures of a number of its keys. The keys of
an output are told apart as texts, but a signature is verified under the bytes that a text decodes
to, and hexadecimal digits may be of either case. A threshold is met by that many public keys
exactly when no two keys at the indexes of the spend decode to the same bytes.
-/

namespace PulseDag

open List

def multisigTemplateIdV1 : String := "multisig_m_n_v1"

def multisigDomainV1 : String := "PulseDAG:covenant:multisig:v1"

def multisigMaxKeysV1 : ℕ := 16

/-- `MultisigV1Output`. -/
structure MultisigV1Output where
  templateId : String
  thresholdM : UInt8
  keys : List String
  amount : UInt64
  deriving DecidableEq, Repr

/-- `MultisigSpendWitnessV1`. -/
structure MultisigSpendWitnessV1 where
  chainId : String
  outpointTxid : String
  outpointIndex : UInt32
  successorCommitment : String
  keyIndexes : List UInt8
  signatureHexes : List String
  deriving DecidableEq, Repr

/-- `MultisigV1Error`. -/
inductive MultisigV1Error
  | templateDisabled
  | unknownTemplateId (observed : String)
  | invalidThreshold (m : UInt8) (n : ℕ)
  | tooManyKeys (n : ℕ)
  | emptyKey
  | keysNotCanonical
  | emptyChainId
  | indexListNotCanonical
  | signatureCountMismatch (indexes signatures : ℕ)
  | thresholdNotMet (required : UInt8) (actual : ℕ)
  | keyIndexOutOfRange (index : UInt8)
  | invalidSignature (index : UInt8)
  deriving DecidableEq, Repr

/-- The loop of `validate_multisig_output_v1` over the keys, with the key before. -/
def checkKeysCanonical : Option String → List String → Except MultisigV1Error Unit
  | _, [] => pure ()
  | previous, key :: rest => do
    ensure (key ≠ "") .emptyKey
    ensure (previous.all (· < key) = true) .keysNotCanonical
    checkKeysCanonical (some key) rest

/-- `validate_multisig_output_v1`. -/
def validateMultisigOutputV1 (output : MultisigV1Output) : Except MultisigV1Error Unit := do
  ensure (output.templateId = multisigTemplateIdV1) (.unknownTemplateId output.templateId)
  let n := output.keys.length
  ensure (n ≠ 0 ∧ n ≤ multisigMaxKeysV1) (.tooManyKeys n)
  ensure (1 ≤ output.thresholdM ∧ output.thresholdM.toNat ≤ n)
    (.invalidThreshold output.thresholdM n)
  checkKeysCanonical none output.keys

/-- `multisig_spend_signing_message_v1`. -/
def multisigSpendSigningMessageV1 (witness : MultisigSpendWitnessV1) :
    Except MultisigV1Error (List UInt8) := do
  ensure (witness.chainId ≠ "") .emptyChainId
  pure (encodeLenPrefixedStr multisigDomainV1 ++ encodeLenPrefixedStr witness.chainId ++
    encodeLenPrefixedStr witness.outpointTxid ++ u32LeBytes witness.outpointIndex ++
    encodeLenPrefixedStr "spend" ++ encodeLenPrefixedStr witness.successorCommitment)

/-- `indexes_are_canonical`: each index is below the next one. -/
def indexesAreCanonical (indexes : List UInt8) : Bool := decide (indexes.IsChain (· < ·))

section

variable [Crypto]

/-- The loop body of `evaluate_multisig_spend_v1`. -/
def verifyIndexedSignature (output : MultisigV1Output) (message : List UInt8)
    (entry : UInt8 × String) : Except MultisigV1Error Unit := do
  let key ← okOr output.keys[entry.1.toNat]? (.keyIndexOutOfRange entry.1)
  verifyPkSignature key entry.2 message (.invalidSignature entry.1)

/-- `evaluate_multisig_spend_v1`. -/
def evaluateMultisigSpendV1 (admission : CovenantAdmissionV1) (output : MultisigV1Output)
    (witness : MultisigSpendWitnessV1) : Except MultisigV1Error Unit := do
  ensure (admission.admitted = true) .templateDisabled
  validateMultisigOutputV1 output
  ensure (witness.keyIndexes.length = witness.signatureHexes.length)
    (.signatureCountMismatch witness.keyIndexes.length witness.signatureHexes.length)
  ensure (witness.keyIndexes ≠ [] ∧ indexesAreCanonical witness.keyIndexes = true)
    .indexListNotCanonical
  ensure (witness.keyIndexes.length = output.thresholdM.toNat)
    (.thresholdNotMet output.thresholdM witness.keyIndexes.length)
  let message ← multisigSpendSigningMessageV1 witness
  (witness.keyIndexes.zip witness.signatureHexes).forM (verifyIndexedSignature output message)

end

/-! ## What a message determines -/

/-- The lengths that do not make `encode_len_prefixed` panic. -/
def MultisigSpendWitnessV1.Fits (witness : MultisigSpendWitnessV1) : Prop :=
  FitsStr witness.chainId ∧ FitsStr witness.outpointTxid ∧ FitsStr witness.successorCommitment

/-- Two witnesses spend the same outpoint of the same chain for the same successor. -/
def MultisigSpendWitnessV1.SameSpend (witness witness' : MultisigSpendWitnessV1) : Prop :=
  witness.chainId = witness'.chainId ∧ witness.outpointTxid = witness'.outpointTxid ∧
    witness.outpointIndex = witness'.outpointIndex ∧
    witness.successorCommitment = witness'.successorCommitment

/-- One message stands for one spend. -/
theorem multisigSpendSigningMessageV1_inj {witness witness' : MultisigSpendWitnessV1}
    {message : List UInt8} (hfits : witness.Fits) (hfits' : witness'.Fits)
    (h : multisigSpendSigningMessageV1 witness = .ok message)
    (h' : multisigSpendSigningMessageV1 witness' = .ok message) : witness.SameSpend witness' := by
  simp only [multisigSpendSigningMessageV1, bind_eq_ok, ensure_eq_ok, pure_eq_ok, exists_const,
    Except.ok.injEq] at h h'
  obtain ⟨hchain, htxid, hsuccessor⟩ := hfits
  obtain ⟨hchain', htxid', hsuccessor'⟩ := hfits'
  have heq := h.2.trans h'.2.symm
  simp only [append_assoc] at heq
  obtain ⟨hsame, hafterChain⟩ :=
    selfDelimiting_encodeLenPrefixedStr hchain hchain' (append_cancel_left heq)
  obtain ⟨hsameTxid, hafterTxid⟩ := selfDelimiting_encodeLenPrefixedStr htxid htxid' hafterChain
  obtain ⟨hsameIndex, hafterIndex⟩ := selfDelimiting_u32LeBytes trivial trivial hafterTxid
  have hsameSuccessor := selfDelimiting_encodeLenPrefixedStr.eq_of_encode_eq hsuccessor hsuccessor'
    (append_cancel_left hafterIndex)
  exact ⟨hsame, hsameTxid, hsameIndex, hsameSuccessor⟩

/-! ## Who has signed -/

section

variable [Crypto] {admission : CovenantAdmissionV1} {output : MultisigV1Output}
  {witness : MultisigSpendWitnessV1}

/-- The public keys at the indexes of a spend. -/
def MultisigV1Output.signerKeys (output : MultisigV1Output) (witness : MultisigSpendWitnessV1) :
    List (List UInt8) :=
  witness.keyIndexes.filterMap fun index => output.keys[index.toNat]?.bind hexDecode

/-- What an accepted spend says: there are as many indexes as the threshold asks for, and the key at
each of them has verified a signature on the message of the witness. -/
theorem evaluateMultisigSpendV1_eq_ok
    (h : evaluateMultisigSpendV1 admission output witness = .ok ()) :
    witness.keyIndexes.length = output.thresholdM.toNat ∧
      ∃ message, multisigSpendSigningMessageV1 witness = .ok message ∧
        ∀ index ∈ witness.keyIndexes, ∃ key publicKey,
          output.keys[index.toNat]? = some key ∧ KeyVerified key publicKey message := by
  simp only [evaluateMultisigSpendV1, bind_eq_ok, ensure_eq_ok, exists_const, forM_eq_ok] at h
  obtain ⟨-, -, -, hlength, -, hthreshold, message, hmessage, hverified⟩ := h
  refine ⟨hthreshold, message, hmessage, fun index hindex => ?_⟩
  obtain ⟨position, hposition, rfl⟩ := mem_iff_getElem.mp hindex
  have hentry := hverified _ (getElem_mem (l := witness.keyIndexes.zip witness.signatureHexes)
    (n := position) (by rw [length_zip]; omega))
  rw [getElem_zip, verifyIndexedSignature, bind_eq_ok] at hentry
  obtain ⟨key, hkey, hverify⟩ := hentry
  obtain ⟨publicKey, hpublicKey⟩ := keyVerified_of_ok hverify
  exact ⟨key, publicKey, okOr_eq_ok.mp hkey, hpublicKey⟩

/-- The public keys of an accepted spend, counted with repetitions, are as many as the threshold
asks for, and each has verified a signature. -/
theorem evaluateMultisigSpendV1_signerKeys
    (h : evaluateMultisigSpendV1 admission output witness = .ok ()) :
    (output.signerKeys witness).length = output.thresholdM.toNat ∧
      ∃ message, multisigSpendSigningMessageV1 witness = .ok message ∧
        ∀ publicKey ∈ output.signerKeys witness, ∃ key ∈ output.keys,
          KeyVerified key publicKey message := by
  obtain ⟨hlength, message, hmessage, hverified⟩ := evaluateMultisigSpendV1_eq_ok h
  choose! key publicKey hkey hpublicKey using hverified
  have hsigners : output.signerKeys witness = witness.keyIndexes.map publicKey := by
    rw [← filterMap_eq_map]
    refine filterMap_congr fun index hindex => ?_
    rw [hkey index hindex, Option.bind_some, (hpublicKey index hindex).1]
    rfl
  rw [hsigners]
  refine ⟨(length_map _).trans hlength, message, hmessage, fun signer hsigner => ?_⟩
  obtain ⟨index, hindex, rfl⟩ := mem_map.mp hsigner
  exact ⟨key index, mem_of_getElem? (hkey index hindex), hpublicKey index hindex⟩

/-- The keys at the indexes of an accepted spend have signed its message, and the message determines
the chain, the outpoint and the successor. As many distinct public keys as the threshold asks for
have signed, and whoever holds fewer of them needs another holder who has signed this very spend,
exactly when no two keys at the indexes decode to the same bytes. -/
theorem evaluateMultisigSpendV1_threshold (signed : List UInt8 → List UInt8 → Prop)
    (hunforgeable : ∀ publicKey message signature,
      Crypto.ed25519Verify publicKey message signature = true → signed publicKey message)
    (hfits : witness.Fits) (h : evaluateMultisigSpendV1 admission output witness = .ok ()) :
    ∃ message, multisigSpendSigningMessageV1 witness = .ok message ∧
      (∀ publicKey ∈ output.signerKeys witness,
        (∃ key ∈ output.keys, KeyVerified key publicKey message) ∧ signed publicKey message) ∧
      ((∃ signers : List (List UInt8), signers.Nodup ∧ signers ⊆ output.signerKeys witness ∧
        output.thresholdM.toNat ≤ signers.length) ↔ (output.signerKeys witness).Nodup) ∧
      ((∀ held : List (List UInt8), held.length < output.thresholdM.toNat →
        ∃ publicKey ∈ output.signerKeys witness, publicKey ∉ held) ↔
          (output.signerKeys witness).Nodup) ∧
      ∀ witness' : MultisigSpendWitnessV1, witness'.Fits →
        multisigSpendSigningMessageV1 witness' = .ok message → witness'.SameSpend witness := by
  obtain ⟨hlength, message, hmessage, hverified⟩ := evaluateMultisigSpendV1_signerKeys h
  refine ⟨message, hmessage, fun publicKey hsigner => ?_, ?_, ?_,
    fun witness' hfits' h' => multisigSpendSigningMessageV1_inj hfits' hfits h' hmessage⟩
  · obtain ⟨key, hkey, hdecoded, hwidth, signature, hsignature⟩ := hverified publicKey hsigner
    exact ⟨⟨key, hkey, hdecoded, hwidth, signature, hsignature⟩, hunforgeable _ _ _ hsignature⟩
  · rw [← hlength]
    exact exists_nodup_subset_iff
  · rw [← hlength]
    exact forall_shorter_misses_iff

end

/-- An output with some keys of which all have to sign. -/
def allOf (keys : List String) : MultisigV1Output where
  templateId := multisigTemplateIdV1
  thresholdM := UInt8.ofNat keys.length
  keys := keys
  amount := 1000

/-- A witness with a signature for each key. -/
def signedByAll (count : ℕ) : MultisigSpendWitnessV1 where
  chainId := "testnet"
  outpointTxid := "spent"
  outpointIndex := 0
  successorCommitment := "successor"
  keyIndexes := (List.range count).map UInt8.ofNat
  signatureHexes := List.replicate count (hexEncode (List.replicate 64 0))

/-- A key of one digit. -/
def repeatedKey (digit : Char) : String := String.ofList (List.replicate 64 digit)

/-- Two of three keys, the first of which is listed in both letter cases. -/
def twoOfThree : MultisigV1Output :=
  { allOf [repeatedKey 'A', repeatedKey 'a', repeatedKey 'b'] with thresholdM := 2 }

/-- The first and the last of the three keys stand for two holders. -/
theorem evaluateMultisigSpendV1_threshold_two :
    letI := holdersCrypto [List.replicate 32 0xaa, List.replicate 32 0xbb]
    let witness := { signedByAll 2 with keyIndexes := [0, 2] }
    evaluateMultisigSpendV1 ⟨true, true⟩ twoOfThree witness = .ok () ∧
      ∃ publicKey ∉ [List.replicate 32 (0xaa : UInt8)],
        publicKey ∈ [List.replicate 32 (0xaa : UInt8), List.replicate 32 0xbb] := by
  let := holdersCrypto [List.replicate 32 0xaa, List.replicate 32 0xbb]
  let witness := { signedByAll 2 with keyIndexes := [0, 2] }
  have haccepted : evaluateMultisigSpendV1 ⟨true, true⟩ twoOfThree witness = .ok () :=
    eq_ok_of_toOption (by decide +kernel)
  have hfits : witness.Fits := by
    unfold MultisigSpendWitnessV1.Fits
    decide +kernel
  obtain ⟨message, -, hsigned, -, hheld, -⟩ := evaluateMultisigSpendV1_threshold
    (fun publicKey _ => publicKey ∈ [List.replicate 32 0xaa, List.replicate 32 0xbb])
    (fun _ _ _ hverify => of_decide_eq_true hverify) hfits haccepted
  obtain ⟨publicKey, hsigner, hnotHeld⟩ :=
    hheld.mpr (by decide +kernel) [List.replicate 32 0xaa] (by decide)
  exact ⟨haccepted, publicKey, hnotHeld, (hsigned publicKey hsigner).2⟩

/-- One key in upper and in lower case makes two keys of an output, so its holder meets a threshold
of two alone. -/
theorem evaluateMultisigSpendV1_one_holder : letI := holdersCrypto [List.replicate 32 0xaa]
    ∃ output witness message, evaluateMultisigSpendV1 ⟨true, true⟩ output witness = .ok () ∧
      multisigSpendSigningMessageV1 witness = .ok message ∧ output.thresholdM = 2 ∧
      ∀ signers : List (List UInt8), signers.Nodup →
        (∀ publicKey ∈ signers, ∃ signature,
          Crypto.ed25519Verify publicKey message signature = true) → signers.length < 2 := by
  let := holdersCrypto [List.replicate 32 0xaa]
  have haccepted : (evaluateMultisigSpendV1 ⟨true, true⟩ (allOf [repeatedKey 'A', repeatedKey 'a'])
      (signedByAll 2)).toOption = some () := by decide +kernel
  refine ⟨_, _, _, eq_ok_of_toOption haccepted, rfl, rfl, fun signers hnodup hsigned => ?_⟩
  have hall : ∀ publicKey ∈ signers, publicKey ∈ [List.replicate 32 (0xaa : UInt8)] := by
    intro publicKey hsigner
    obtain ⟨signature, hverify⟩ := hsigned publicKey hsigner
    exact of_decide_eq_true hverify
  exact Nat.lt_succ_of_le (hnodup.subperm hall).length_le

end PulseDag
