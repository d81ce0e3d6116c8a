import PulseDag.Core.Identity
import PulseDag.Lib.Collections

/-!
# The version 2 preimages

What the version 2 layouts of `tx.rs` and `header_v2.rs` determine: the chain and every field that
is written. No preimage of a layout continues another one, so a signature, a transaction id or a
block hash belongs to one record on one chain.
-/

namespace PulseDag

open List

/-! ## Transactions -/

/-- What an input contributes to the message that is signed. -/
def TxInput.unsigned (input : TxInput) : OutPoint × String :=
  (input.previousOutput, input.publicKey)

/-- The fields that a signature covers. -/
structure SignedFields where
  version : UInt32
  inputs : List (OutPoint × String)
  outputs : List TxOutput
  fee : UInt64
  nonce : UInt64
  deriving DecidableEq, Repr

/-- The fields of a transaction that its signatures cover: all but the id and the signatures. -/
def Transaction.signedFields (tx : Transaction) : SignedFields where
  version := tx.version
  inputs := tx.inputs.map TxInput.unsigned
  outputs := tx.outputs
  fee := tx.fee
  nonce := tx.nonce

/-- An outpoint and a key, as they are signed. -/
def unsignedPairBytes (pair : OutPoint × String) : List UInt8 :=
  canonicalOutpointBytes pair.1 ++ encodeLenPrefixedStr pair.2

/-- What is signed of an input needs no delimiter. -/
theorem selfDelimiting_unsignedPairBytes :
    SelfDelimiting (fun pair : OutPoint × String => FitsStr pair.1.txid ∧ FitsStr pair.2)
      unsignedPairBytes := by
  rintro ⟨⟨txid, index⟩, key⟩ ⟨⟨txid', index'⟩, key'⟩ ⟨htxid, hkey⟩ ⟨htxid', hkey'⟩ rest rest' heq
  simp only [unsignedPairBytes, canonicalOutpointBytes, append_assoc] at heq
  obtain ⟨rfl, hindex⟩ := selfDelimiting_encodeLenPrefixedStr htxid htxid' heq
  obtain ⟨rfl, hpublicKey⟩ := selfDelimiting_u32LeBytes trivial trivial hindex
  obtain ⟨rfl, hrest⟩ := selfDelimiting_encodeLenPrefixedStr hkey hkey' hpublicKey
  exact ⟨rfl, hrest⟩

/-- The signed bytes of an input depend on its outpoint and key. -/
theorem unsignedTxInputBytes_eq :
    unsignedTxInputBytes = fun input => unsignedPairBytes input.unsigned := rfl

/-- A body determines its fields and where it ends. Its inputs are written through a view, and it
is the view that is determined. -/
theorem transactionBodyBytes_split {γ : Type} {fits : γ → Prop} {encode : γ → List UInt8}
    (hencode : SelfDelimiting fits encode) (view : TxInput → γ) {tx tx' : Transaction}
    (h : tx.Fits) (h' : tx'.Fits) (hview : ∀ input : TxInput, input.Fits → fits (view input))
    {rest rest' : List UInt8}
    (heq : transactionBodyBytes (fun input => encode (view input)) tx ++ rest =
      transactionBodyBytes (fun input => encode (view input)) tx' ++ rest') :
    (tx.version = tx'.version ∧ tx.inputs.map view = tx'.inputs.map view ∧
      tx.outputs = tx'.outputs ∧ tx.fee = tx'.fee ∧ tx.nonce = tx'.nonce) ∧ rest = rest' := by
  have hinputs : ∀ other : Transaction, other.Fits →
      FitsLen (other.inputs.map view).length ∧ ∀ value ∈ other.inputs.map view, fits value := by
    intro other hother
    refine ⟨by rw [length_map]; exact hother.inputs_length, fun value hvalue => ?_⟩
    obtain ⟨input, hinput, rfl⟩ := mem_map.mp hvalue
    exact hview input (hother.inputs input hinput)
  have hwritten : ∀ other : Transaction,
      other.inputs.flatMap (fun input => encode (view input)) =
      (other.inputs.map view).flatMap encode ∧
        other.inputs.length = (other.inputs.map view).length := fun other =>
    ⟨(flatMap_map view encode _).symm, (length_map view).symm⟩
  simp only [transactionBodyBytes, hwritten, append_assoc] at heq
  obtain ⟨hversion, hbody⟩ := selfDelimiting_u32LeBytes trivial trivial heq
  rw [← append_assoc, ← append_assoc (lenPrefix (tx'.inputs.map view).length)] at hbody
  obtain ⟨hviews, hafterInputs⟩ := hencode.counted selfDelimiting_lenPrefix (hinputs tx h)
    (hinputs tx' h') hbody
  rw [← append_assoc, ← append_assoc (lenPrefix tx'.outputs.length)] at hafterInputs
  obtain ⟨houtputs, hafterOutputs⟩ :=
    selfDelimiting_canonicalTxOutputBytes.counted selfDelimiting_lenPrefix
      ⟨h.outputs_length, h.outputs⟩ ⟨h'.outputs_length, h'.outputs⟩ hafterInputs
  obtain ⟨hfee, hafterFee⟩ := selfDelimiting_u64LeBytes trivial trivial hafterOutputs
  obtain ⟨hnonce, hrest⟩ := selfDelimiting_u64LeBytes trivial trivial hafterFee
  exact ⟨⟨hversion, hviews, houtputs, hfee, hnonce⟩, hrest⟩

section

variable {tx tx' : Transaction} {chainId chainId' : String}

variable {bytes bytes' : List UInt8}

/-- The preimage of an id, field by field. -/
theorem canonicalTransactionBytesV2_eq_ok (h : canonicalTransactionBytesV2 tx chainId = .ok bytes) :
    bytes = encodeLenPrefixedStr "PulseDAG:tx:v2" ++ (encodeLenPrefixedStr chainId ++
      transactionBodyBytes canonicalTxInputBytes tx) := by
  simp only [canonicalTransactionBytesV2, ok_iff] at h
  obtain ⟨-, -, rfl⟩ := h
  rw [append_assoc]

/-- The message to be signed, field by field. -/
theorem canonicalUnsignedTransactionBytesV2_eq_ok
    (h : canonicalUnsignedTransactionBytesV2 tx chainId = .ok bytes) :
    bytes = encodeLenPrefixedStr "PulseDAG:unsigned-tx:v2" ++ (encodeLenPrefixedStr chainId ++
      transactionBodyBytes unsignedTxInputBytes tx) := by
  simp only [canonicalUnsignedTransactionBytesV2, ok_iff] at h
  obtain ⟨-, -, rfl⟩ := h
  rw [append_assoc]

/-- The preimage of a transaction id determines the chain and all fields but the id. -/
theorem canonicalTransactionBytesV2_extension (h : tx.Fits) (h' : tx'.Fits)
    (hchain : FitsStr chainId) (hchain' : FitsStr chainId')
    (hbytes : canonicalTransactionBytesV2 tx chainId = .ok bytes)
    (hbytes' : canonicalTransactionBytesV2 tx' chainId' = .ok bytes')
    ( hprefix : bytes <+: bytes') :
    chainId = chainId' ∧ { tx with txid := tx'.txid } = tx' ∧ bytes = bytes' := by
  obtain ⟨rest, hrest⟩ := hprefix
  have hwhole := hrest
  rw [← append_nil bytes', canonicalTransactionBytesV2_eq_ok hbytes,
    canonicalTransactionBytesV2_eq_ok hbytes'] at hrest
  simp only [append_assoc, append_cancel_left_eq] at hrest
  obtain ⟨hsame, hbody⟩ := selfDelimiting_encodeLenPrefixedStr hchain hchain' hrest
  obtain ⟨⟨hversion, hinputs, houtputs, hfee, hnonce⟩, hnothing⟩ := transactionBodyBytes_split
    selfDelimiting_canonicalTxInputBytes id h h' (fun _ hinput => hinput) hbody
  rw [map_id, map_id] at hinputs
  refine ⟨hsame, ?_, by rw [← hwhole, hnothing, append_nil]⟩
  rw [hversion, hinputs, houtputs, hfee, hnonce]

/-- The message that is signed determines the chain and all fields it is meant to cover. -/
theorem canonicalUnsignedTransactionBytesV2_extension (h : tx.Fits) (h' : tx'.Fits)
    (hchain : FitsStr chainId) (hchain' : FitsStr chainId')
    (hbytes : canonicalUnsignedTransactionBytesV2 tx chainId = .ok bytes)
    (hbytes' : canonicalUnsignedTransactionBytesV2 tx' chainId' = .ok bytes')
    ( hprefix : bytes <+: bytes') :
    chainId = chainId' ∧ tx.signedFields = tx'.signedFields ∧ bytes = bytes' := by
  obtain ⟨rest, hrest⟩ := hprefix
  have hwhole := hrest
  rw [← append_nil bytes', canonicalUnsignedTransactionBytesV2_eq_ok hbytes,
    canonicalUnsignedTransactionBytesV2_eq_ok hbytes'] at hrest
  simp only [append_assoc, append_cancel_left_eq] at hrest
  obtain ⟨hsame, hbody⟩ := selfDelimiting_encodeLenPrefixedStr hchain hchain' hrest
  rw [unsignedTxInputBytes_eq] at hbody
  obtain ⟨⟨hversion, hinputs, houtputs, hfee, hnonce⟩, hnothing⟩ := transactionBodyBytes_split
    selfDelimiting_unsignedPairBytes TxInput.unsigned h h'
    (fun _ hinput => ⟨hinput.txid, hinput.publicKey⟩) hbody
  refine ⟨hsame, ?_, by rw [← hwhole, hnothing, append_nil]⟩
  simp only [Transaction.signedFields, hversion, hinputs, houtputs, hfee, hnonce]

end

/-- Version 2 transaction identity. Equal preimages of ids have the same chain and the same version,
inputs with keys and signatures, outputs, fee and nonce; equal messages have the same chain and the
same covered fields. No message is a proper prefix of another, no preimage of an id is, and with a
collision-free digest an id belongs to one transaction on one chain. -/
theorem transactionIdentityV2_injective [Crypto] (hsha : Function.Injective Crypto.sha256)
    {tx tx' : Transaction} {chainId chainId' : String} (h : tx.Fits) (h' : tx'.Fits)
    (hchain : FitsStr chainId) (hchain' : FitsStr chainId') :
    (∀ bytes, canonicalTransactionBytesV2 tx chainId = .ok bytes →
      canonicalTransactionBytesV2 tx' chainId' = .ok bytes →
      chainId = chainId' ∧ tx.version = tx'.version ∧ tx.inputs = tx'.inputs ∧
        tx.outputs = tx'.outputs ∧ tx.fee = tx'.fee ∧ tx.nonce = tx'.nonce) ∧
    (∀ message, canonicalUnsignedTransactionBytesV2 tx chainId = .ok message →
      canonicalUnsignedTransactionBytesV2 tx' chainId' = .ok message →
      chainId = chainId' ∧ tx.signedFields = tx'.signedFields) ∧
    (∀ message message', canonicalUnsignedTransactionBytesV2 tx chainId = .ok message →
      canonicalUnsignedTransactionBytesV2 tx' chainId' = .ok message' →
      message <+: message' → message = message') ∧
    (∀ bytes bytes', canonicalTransactionBytesV2 tx chainId = .ok bytes →
      canonicalTransactionBytesV2 tx' chainId' = .ok bytes' → bytes <+: bytes' → bytes = bytes') ∧
    ∀ txid, computeTxidV2 tx chainId = .ok txid → computeTxidV2 tx' chainId' = .ok txid →
      chainId = chainId' ∧ { tx with txid := tx'.txid } = tx' := by
  refine ⟨fun bytes hbytes hbytes' => ?_, fun message hmessage hmessage' => ?_,
    fun message message' hmessage hmessage' hle => ?_, fun bytes bytes' hbytes hbytes' hle => ?_,
    fun txid htxid htxid' => ?_⟩
  · obtain ⟨hsame, htx, -⟩ := canonicalTransactionBytesV2_extension h h' hchain hchain' hbytes
      hbytes' (prefix_refl bytes)
    rw [← htx]
    exact ⟨hsame, rfl, rfl, rfl, rfl, rfl⟩
  · obtain ⟨hsame, hfields, -⟩ := canonicalUnsignedTransactionBytesV2_extension h h' hchain hchain'
      hmessage hmessage' (prefix_refl message)
    exact ⟨hsame, hfields⟩
  · exact (canonicalUnsignedTransactionBytesV2_extension h h' hchain hchain' hmessage hmessage'
      hle).2.2
  · exact (canonicalTransactionBytesV2_extension h h' hchain hchain' hbytes hbytes' hle).2.2
  · simp only [computeTxidV2, ok_iff] at htxid htxid'
    obtain ⟨bytes, hbytes, rfl⟩ := htxid
    obtain ⟨bytes', hbytes', heq⟩ := htxid'
    obtain rfl := sha256Hex_injective hsha heq
    obtain ⟨hsame, htx, -⟩ := canonicalTransactionBytesV2_extension h h' hchain hchain' hbytes
      hbytes' (prefix_refl bytes')
    exact ⟨hsame, htx⟩

/-- One transfer of two coins has different ids and different messages on two chains. -/
theorem transactionIdentityV2_injective_twoChains : letI := tableCrypto []
    ∃ (tx : Transaction) (txid txid' : Hash) (message message' : List UInt8),
      computeTxidV2 tx "a" = .ok txid ∧ computeTxidV2 tx "b" = .ok txid' ∧ txid ≠ txid' ∧
      canonicalUnsignedTransactionBytesV2 tx "a" = .ok message ∧
      canonicalUnsignedTransactionBytesV2 tx "b" = .ok message' ∧ message ≠ message' := by
  let := tableCrypto []
  let tx : Transaction :=
    { txid := "", version := 2,
      inputs := [⟨⟨"coin", 1⟩, "key", "signature"⟩, ⟨⟨"coin", 2⟩, "other key", "other"⟩],
      outputs := [⟨"owner", 7⟩, ⟨"change", 3⟩], fee := 1, nonce := 0 }
  have hfits : tx.Fits ∧ FitsStr "a" ∧ FitsStr "b" := by decide
  obtain ⟨-, hmessage, -, -, htxid⟩ := transactionIdentityV2_injective
    (tableDigest_injective (by decide)) hfits.1 hfits.1 hfits.2.1 hfits.2.2
  exact ⟨tx, _, _, _, _, rfl, rfl, fun heq => absurd (htxid _ rfl (heq ▸ rfl)).1 (by decide), rfl,
    rfl, fun heq => absurd (hmessage _ rfl (heq ▸ rfl)).1 (by decide)⟩

/-! ## Headers -/

/-- `canonical_block_header_bytes_v2`, the preimage of a block hash. -/
def canonicalBlockHeaderBytesV2 (header : BlockHeader) (chainId : String) :
    Except PulseError (List UInt8) :=
  canonicalBlockHeaderMaterialV2 header chainId true

/-- `canonical_mining_preimage_bytes_v2`. -/
def canonicalMiningPreimageBytesV2 (header : BlockHeader) (chainId : String) :
    Except PulseError (List UInt8) :=
  canonicalBlockHeaderMaterialV2 header chainId false

/-- A header whose texts fit their prefixes. -/
structure BlockHeader.Fits (header : BlockHeader) : Prop where
  parents : ∀ parent ∈ header.parents, FitsStr parent
  merkleRoot : FitsStr header.merkleRoot
  stateRoot : FitsStr header.stateRoot

instance : DecidablePred BlockHeader.Fits := fun header =>
  decidable_of_iff ((∀ parent ∈ header.parents, FitsStr parent) ∧ FitsStr header.merkleRoot ∧
    FitsStr header.stateRoot) ⟨fun h => ⟨h.1, h.2.1, h.2.2⟩, fun h => ⟨h.1, h.2, h.3⟩⟩

section

variable {header header' : BlockHeader} {chainId chainId' : String}

/-- The parents of an accepted header are few and in strictly ascending order. -/
theorem validateBlockHeaderV2Shape_parents
    (h : validateBlockHeaderV2Shape header chainId = .ok ()) :
    header.parents.length ≤ ghostdagV1MaxParents ∧ header.parents.Pairwise (· < ·) := by
  simp only [validateBlockHeaderV2Shape, canonicalizeBlockParentsV2, bind_eq_ok, ensure_eq_ok,
    pure_eq_ok, Except.ok.injEq] at h
  obtain ⟨-, -, -, -, canonical, ⟨-, hlength, -, -, -, hchain, rfl⟩, -, -, hsorted⟩ := h
  rw [hsorted] at hchain
  have hle : header.parents.Pairwise (· ≤ ·) := by
    rw [← hsorted]
    exact pairwise_insertionSort _ _
  refine ⟨hlength, isChain_iff_pairwise.mp ?_⟩
  have hchainLe := hle.isChain
  rw [isChain_iff_getElem] at hchain hchainLe ⊢
  exact fun i hi => lt_of_le_of_ne (hchainLe i hi) (hchain i hi)

/-- The material of an accepted header, field by field. -/
theorem canonicalBlockHeaderMaterialV2_ok (includeNonce : Bool)
    (h : validateBlockHeaderV2Shape header chainId = .ok ()) :
    canonicalBlockHeaderMaterialV2 header chainId includeNonce = .ok
      (encodeLenPrefixedStr "PulseDAG:block-header:v2" ++ (encodeLenPrefixedStr chainId ++
        (u32LeBytes header.version ++
        ((lenPrefix header.parents.length ++ header.parents.flatMap encodeLenPrefixedStr) ++
        (u64LeBytes header.timestamp ++ (u32LeBytes header.difficulty ++
        ((if includeNonce then u64LeBytes header.nonce else []) ++
        (encodeLenPrefixedStr header.merkleRoot ++ (encodeLenPrefixedStr header.stateRoot ++
        (u64LeBytes header.blueScore ++ u64LeBytes header.height)))))))))) := by
  rw [canonicalBlockHeaderMaterialV2, h, ok_bind, pure_eq_ok]
  simp only [append_assoc]

/-- The material of an accepted header determines the chain and every field that is written. -/
theorem canonicalBlockHeaderMaterialV2_inj {includeNonce : Bool}
    (h : validateBlockHeaderV2Shape header chainId = .ok ())
    (h' : validateBlockHeaderV2Shape header' chainId' = .ok ()) (hfits : header.Fits)
    (hfits' : header'.Fits) (hchain : FitsStr chainId) (hchain' : FitsStr chainId')
    (heq : canonicalBlockHeaderMaterialV2 header chainId includeNonce =
      canonicalBlockHeaderMaterialV2 header' chainId' includeNonce) :
    chainId = chainId' ∧ { header with nonce := header'.nonce } = header' ∧
      (includeNonce = true → header.nonce = header'.nonce) := by
  have hcount : ∀ {other : BlockHeader} {chain : String},
      validateBlockHeaderV2Shape other chain = .ok () → FitsLen other.parents.length := by
    intro other chain hother
    have hlength := (validateBlockHeaderV2Shape_parents hother).1
    unfold FitsLen
    unfold ghostdagV1MaxParents at hlength
    omega
  rw [canonicalBlockHeaderMaterialV2_ok includeNonce h,
    canonicalBlockHeaderMaterialV2_ok includeNonce h', Except.ok.injEq,
    append_cancel_left_eq] at heq
  obtain ⟨hsame, heq⟩ := selfDelimiting_encodeLenPrefixedStr hchain hchain' heq
  obtain ⟨hversion, heq⟩ := selfDelimiting_u32LeBytes trivial trivial heq
  obtain ⟨hparents, heq⟩ :=
    selfDelimiting_encodeLenPrefixedStr.counted selfDelimiting_lenPrefix
      ⟨hcount h, hfits.parents⟩ ⟨hcount h', hfits'.parents⟩ heq
  obtain ⟨htimestamp, heq⟩ := selfDelimiting_u64LeBytes trivial trivial heq
  obtain ⟨hdifficulty, heq⟩ := selfDelimiting_u32LeBytes trivial trivial heq
  have hnonce : (includeNonce = true → header.nonce = header'.nonce) ∧
      encodeLenPrefixedStr header.merkleRoot ++ (encodeLenPrefixedStr header.stateRoot ++
        (u64LeBytes header.blueScore ++ u64LeBytes header.height)) =
      encodeLenPrefixedStr header'.merkleRoot ++ (encodeLenPrefixedStr header'.stateRoot ++
        (u64LeBytes header'.blueScore ++ u64LeBytes header'.height)) := by
    cases includeNonce with
    | false => exact ⟨fun hfalse => absurd hfalse (by decide), heq⟩
    | true =>
      obtain ⟨hnonce, hrest⟩ := selfDelimiting_u64LeBytes trivial trivial heq
      exact ⟨fun _ => hnonce, hrest⟩
  obtain ⟨hmerkle, heq⟩ :=
    selfDelimiting_encodeLenPrefixedStr hfits.merkleRoot hfits'.merkleRoot hnonce.2
  obtain ⟨hstate, heq⟩ := selfDelimiting_encodeLenPrefixedStr hfits.stateRoot hfits'.stateRoot heq
  obtain ⟨hscore, heq⟩ := selfDelimiting_u64LeBytes trivial trivial heq
  have hheight := selfDelimiting_u64LeBytes.eq_of_encode_eq trivial trivial heq
  refine ⟨hsame, ?_, hnonce.1⟩
  rw [hversion, hparents, htimestamp, hdifficulty, hmerkle, hstate, hscore, hheight]

/-- Two headers with the same fields apart from the nonce; the parents are compared as sets. -/
structure SameApartFromNonce (header header' : BlockHeader) : Prop where
  version : header.version = header'.version
  parents : ∀ parent, parent ∈ header.parents ↔ parent ∈ header'.parents
  timestamp : header.timestamp = header'.timestamp
  difficulty : header.difficulty = header'.difficulty
  merkleRoot : header.merkleRoot = header'.merkleRoot
  stateRoot : header.stateRoot = header'.stateRoot
  blueScore : header.blueScore = header'.blueScore
  height : header.height = header'.height

/-- Accepted headers list the same set of parents in the same order. -/
theorem sameApartFromNonce_iff (h : validateBlockHeaderV2Shape header chainId = .ok ())
    (h' : validateBlockHeaderV2Shape header' chainId' = .ok ()) :
    SameApartFromNonce header header' ↔ { header with nonce := header'.nonce } = header' := by
  constructor
  · intro hsame
    have hparents : header.parents = header'.parents :=
      eq_of_pairwise_lt (validateBlockHeaderV2Shape_parents h).2
        (validateBlockHeaderV2Shape_parents h').2 hsame.parents
    rw [hsame.version, hparents, hsame.timestamp, hsame.difficulty, hsame.merkleRoot,
      hsame.stateRoot, hsame.blueScore, hsame.height]
  · intro heq
    rw [← heq]
    exact ⟨rfl, fun _ => Iff.rfl, rfl, rfl, rfl, rfl, rfl, rfl⟩

/-- Version 2 header identity. The preimages of the hashes of two accepted headers are equal exactly
when the chains and all fields are, and the mining preimages are equal exactly when the chains and
all fields but the nonce are. -/
theorem blockHeaderIdentityV2_iff (h : validateBlockHeaderV2Shape header chainId = .ok ())
    (h' : validateBlockHeaderV2Shape header' chainId' = .ok ()) (hfits : header.Fits)
    (hfits' : header'.Fits) (hchain : FitsStr chainId) (hchain' : FitsStr chainId') :
    (canonicalBlockHeaderBytesV2 header chainId = canonicalBlockHeaderBytesV2 header' chainId' ↔
      chainId = chainId' ∧ SameApartFromNonce header header' ∧ header.nonce = header'.nonce) ∧
    (canonicalMiningPreimageBytesV2 header chainId =
        canonicalMiningPreimageBytesV2 header' chainId' ↔
      chainId = chainId' ∧ SameApartFromNonce header header') := by
  rw [sameApartFromNonce_iff h h']
  constructor
  · constructor
    · intro heq
      obtain ⟨hsame, hfields, hnonce⟩ :=
        canonicalBlockHeaderMaterialV2_inj h h' hfits hfits' hchain hchain' heq
      exact ⟨hsame, hfields, hnonce rfl⟩
    · rintro ⟨rfl, hfields, hnonce⟩
      rw [← hnonce] at hfields
      rw [← hfields]
  · constructor
    · intro heq
      obtain ⟨hsame, hfields, -⟩ :=
        canonicalBlockHeaderMaterialV2_inj h h' hfits hfits' hchain hchain' heq
      exact ⟨hsame, hfields⟩
    · rintro ⟨rfl, hfields⟩
      have hshape : validateBlockHeaderV2Shape { header with nonce := header'.nonce } chainId =
          .ok () := h
      rw [← hfields, canonicalMiningPreimageBytesV2, canonicalMiningPreimageBytesV2,
        canonicalBlockHeaderMaterialV2_ok false h, canonicalBlockHeaderMaterialV2_ok false hshape]
      rfl

end

/-- Two nonces of one header: the mining preimages agree and the preimages of the hashes do not. -/
theorem blockHeaderIdentityV2_iff_nonces :
    ∃ header header' : BlockHeader, validateBlockHeaderV2Shape header "c" = .ok () ∧
      validateBlockHeaderV2Shape header' "c" = .ok () ∧
      canonicalMiningPreimageBytesV2 header "c" = canonicalMiningPreimageBytesV2 header' "c" ∧
      canonicalBlockHeaderBytesV2 header "c" ≠ canonicalBlockHeaderBytesV2 header' "c" := by
  let header : UInt64 → BlockHeader := fun nonce =>
    { version := 2, parents := ["a", "b"], timestamp := 3, difficulty := 4, nonce := nonce,
      merkleRoot := "m", stateRoot := "s", blueScore := 5, height := 6 }
  have hshape : ∀ nonce, validateBlockHeaderV2Shape (header nonce) "c" = .ok () := fun _ => rfl
  have hfits : (header 0).Fits ∧ (header 1).Fits ∧ FitsStr "c" := by decide
  obtain ⟨hbytes, hmining⟩ := blockHeaderIdentityV2_iff (hshape 0) (hshape 1) hfits.1 hfits.2.1
    hfits.2.2 hfits.2.2
  refine ⟨header 0, header 1, hshape 0, hshape 1, hmining.mpr ⟨rfl, ?_⟩, fun heq => ?_⟩
  · exact ⟨rfl, fun _ => Iff.rfl, rfl, rfl, rfl, rfl, rfl, rfl⟩
  · exact absurd (hbytes.mp heq).2.2 (by decide)

end PulseDag
