import PulseDag.Core.Encoding
import PulseDag.Lib.SelfDelimiting

/-!
# What an identity determines

The canonical layouts are self-delimiting, so a collision-free digest of one determines the
record, and digests under different domains differ. Lengths from `2 ^ 32` on make the source
panic, so the statements are about records that fit.
-/

namespace PulseDag

open List

/-! ## Fields -/

/-- A word of `n` bytes has length `n`. -/
@[simp] theorem length_leBytes (n value : ℕ) : (leBytes n value).length = n := by
  induction n generalizing value with
  | zero => rfl
  | succ n ih => rw [leBytes, length_cons, ih]

/-- Words of one width are told apart by their bytes. -/
theorem leBytes_inj {n value value' : ℕ} (h : value < 256 ^ n) (h' : value' < 256 ^ n)
    (heq : leBytes n value = leBytes n value') : value = value' := by
  induction n generalizing value value' with
  | zero =>
    rw [Nat.pow_zero] at h h'
    omega
  | succ n ih =>
    rw [leBytes, leBytes, List.cons.injEq] at heq
    obtain ⟨hlow, hhigh⟩ := heq
    have hdiv := ih (Nat.div_lt_of_lt_mul (by rwa [Nat.pow_succ, Nat.mul_comm] at h))
      (Nat.div_lt_of_lt_mul (by rwa [Nat.pow_succ, Nat.mul_comm] at h')) hhigh
    have hmod := congrArg UInt8.toNat hlow
    simp only [UInt8.toNat_ofNat', Nat.reducePow, Nat.mod_mod] at hmod
    omega

/-- Words of one width need no delimiter. -/
theorem selfDelimiting_leBytes (n : ℕ) : SelfDelimiting (· < 256 ^ n) (leBytes n) :=
  .of_length (length_leBytes n) fun _ _ => leBytes_inj

/-- 32-bit words need no delimiter. -/
theorem selfDelimiting_u32LeBytes : SelfDelimiting (fun _ => True) u32LeBytes := by
  refine .of_length (fun value => length_leBytes 4 value.toNat) fun a b _ _ heq => ?_
  exact UInt32.toNat_inj.mp (leBytes_inj a.toNat_lt b.toNat_lt heq)

/-- 64-bit words need no delimiter. -/
theorem selfDelimiting_u64LeBytes : SelfDelimiting (fun _ => True) u64LeBytes := by
  refine .of_length (fun value => length_leBytes 8 value.toNat) fun a b _ _ heq => ?_
  exact UInt64.toNat_inj.mp (leBytes_inj a.toNat_lt b.toNat_lt heq)

/-- A length that fits its prefix. -/
def FitsLen (len : ℕ) : Prop := len < 2 ^ 32

instance : DecidablePred FitsLen := fun len => inferInstanceAs (Decidable (len < 2 ^ 32))

/-- Length prefixes need no delimiter. -/
theorem selfDelimiting_lenPrefix : SelfDelimiting FitsLen lenPrefix := selfDelimiting_leBytes 4

/-- A text is given by its bytes. -/
theorem asBytes_injective : Function.Injective asBytes := by
  intro a b heq
  have hdata : a.toUTF8.data = b.toUTF8.data := Array.toList_inj.mp heq
  have hbytes : a.toUTF8 = b.toUTF8 := ByteArray.ext hdata
  exact String.toByteArray_inj.mp hbytes

/-- A string whose byte length fits its prefix. -/
def FitsStr (value : String) : Prop := FitsLen (asBytes value).length

instance : DecidablePred FitsStr := fun value =>
  inferInstanceAs (Decidable (FitsLen (asBytes value).length))

/-- Texts with their length in front need no delimiter. -/
theorem selfDelimiting_encodeLenPrefixedStr : SelfDelimiting FitsStr encodeLenPrefixedStr := by
  have hbyte : SelfDelimiting (fun _ : UInt8 => True) (fun byte => [byte]) :=
    .of_length (n := 1) (fun _ => rfl) fun _ _ _ _ heq => singleton_inj.mp heq
  have hbytes := (hbyte.counted selfDelimiting_lenPrefix).comp asBytes_injective
  intro a b ha hb rest rest' heq
  refine hbytes ⟨ha, fun _ _ => trivial⟩ ⟨hb, fun _ _ => trivial⟩ ?_
  simpa [encodeLenPrefixedStr, encodeLenPrefixedBytes] using heq

/-- Different digits are written differently. -/
theorem hexDigit_inj {a b : ℕ} (ha : a < 16) (hb : b < 16) (heq : hexDigit a = hexDigit b) :
    a = b := by
  have hall : ∀ x y : Fin 16, hexDigit x = hexDigit y → x = y := by decide
  exact congrArg Fin.val (hall ⟨a, ha⟩ ⟨b, hb⟩ heq)

/-- Different bytes are written differently. -/
theorem hexEncode_injective : Function.Injective hexEncode := by
  have hbyte : SelfDelimiting (fun _ : UInt8 => True)
      (fun byte => [hexDigit (byte.toNat / 16), hexDigit (byte.toNat % 16)]) := by
    refine .of_length (n := 2) (fun _ => rfl) fun a b _ _ heq => ?_
    have hlt := a.toNat_lt
    have hlt' := b.toNat_lt
    obtain ⟨hhigh, hlow⟩ := List.cons.inj heq
    have hdiv := hexDigit_inj (by omega) (by omega) hhigh
    have hmod := hexDigit_inj (Nat.mod_lt _ (by decide)) (Nat.mod_lt _ (by decide))
      (singleton_inj.mp hlow)
    exact UInt8.toNat_inj.mp (by omega)
  intro l l' heq
  have hchars := String.ofList_injective heq
  have hlength : l.length = l'.length := by
    have hsame := congrArg List.length hchars
    simp only [length_flatMap, length_cons, length_nil] at hsame
    simpa using hsame
  have hsame := congrArg (· ++ []) hchars
  exact (hbyte.flatMap_inj (fun _ _ => trivial) (fun _ _ => trivial) hlength hsame).1

/-- A written digit reads back. -/
theorem hexValue_hexDigit {value : ℕ} (h : value < 16) :
    hexValue (hexDigit value) = some value := by
  have hall : ∀ v : Fin 16, hexValue (hexDigit v) = some v.val := by decide
  exact hall ⟨value, h⟩

/-- Written bytes read back. -/
@[simp] theorem hexDecode_hexEncode (bytes : List UInt8) :
  hexDecode (hexEncode bytes) = some bytes := by
  rw [hexDecode, hexEncode, String.toList_ofList]
  induction bytes with
  | nil => rfl
  | cons byte rest ih =>
    have hlt := byte.toNat_lt
    have hbyte : UInt8.ofNat (16 * (byte.toNat / 16) + byte.toNat % 16) = byte := by
      rw [Nat.div_add_mod, UInt8.ofNat_toNat]
    rw [flatMap_cons]
    simp only [cons_append, nil_append, hexDecodeChars, ih,
      hexValue_hexDigit (show byte.toNat / 16 < 16 by omega),
      hexValue_hexDigit (Nat.mod_lt _ (by decide)), Option.bind_eq_bind, Option.bind_some,
      Option.pure_def, hbyte]

/-! ## Transactions -/

/-- An input whose texts fit their prefixes. -/
structure TxInput.Fits (input : TxInput) : Prop where
  txid : FitsStr input.previousOutput.txid
  publicKey : FitsStr input.publicKey
  signature : FitsStr input.signature

/-- A transaction that the source serialises without a panic. -/
structure Transaction.Fits (tx : Transaction) : Prop where
  inputs_length : FitsLen tx.inputs.length
  inputs : ∀ input ∈ tx.inputs, input.Fits
  outputs_length : FitsLen tx.outputs.length
  outputs : ∀ output ∈ tx.outputs, FitsStr output.address

instance : DecidablePred TxInput.Fits := fun input =>
  decidable_of_iff (FitsStr input.previousOutput.txid ∧ FitsStr input.publicKey ∧
    FitsStr input.signature) ⟨fun h => ⟨h.1, h.2.1, h.2.2⟩, fun h => ⟨h.1, h.2, h.3⟩⟩

instance : DecidablePred Transaction.Fits := fun tx =>
  decidable_of_iff (FitsLen tx.inputs.length ∧ (∀ input ∈ tx.inputs, input.Fits) ∧
    FitsLen tx.outputs.length ∧ ∀ output ∈ tx.outputs, FitsStr output.address)
    ⟨fun h => ⟨h.1, h.2.1, h.2.2.1, h.2.2.2⟩, fun h => ⟨h.1, h.2, h.3, h.4⟩⟩

/-- Inputs need no delimiter. -/
theorem selfDelimiting_canonicalTxInputBytes :
    SelfDelimiting TxInput.Fits canonicalTxInputBytes := by
  rintro ⟨⟨txid, index⟩, key, signature⟩ ⟨⟨txid', index'⟩, key', signature'⟩ h h' rest rest' heq
  simp only [canonicalTxInputBytes, canonicalOutpointBytes, append_assoc] at heq
  obtain ⟨rfl, hindex⟩ := selfDelimiting_encodeLenPrefixedStr h.txid h'.txid heq
  obtain ⟨rfl, hkey⟩ := selfDelimiting_u32LeBytes trivial trivial hindex
  obtain ⟨rfl, hsignature⟩ := selfDelimiting_encodeLenPrefixedStr h.publicKey h'.publicKey hkey
  obtain ⟨rfl, hrest⟩ := selfDelimiting_encodeLenPrefixedStr h.signature h'.signature hsignature
  exact ⟨rfl, hrest⟩

/-- Outputs need no delimiter. -/
theorem selfDelimiting_canonicalTxOutputBytes :
    SelfDelimiting (fun output : TxOutput => FitsStr output.address) canonicalTxOutputBytes := by
  rintro ⟨address, amount⟩ ⟨address', amount'⟩ h h' rest rest' heq
  simp only [canonicalTxOutputBytes, append_assoc] at heq
  obtain ⟨rfl, hamount⟩ := selfDelimiting_encodeLenPrefixedStr h h' heq
  obtain ⟨rfl, hrest⟩ := selfDelimiting_u64LeBytes trivial trivial hamount
  exact ⟨rfl, hrest⟩

/-- The body of a transaction determines everything but its stated id. -/
theorem transactionBodyBytes_inj {tx tx' : Transaction} (h : tx.Fits) (h' : tx'.Fits)
    (heq : transactionBodyBytes canonicalTxInputBytes tx =
      transactionBodyBytes canonicalTxInputBytes tx') : { tx with txid := tx'.txid } = tx' := by
  obtain ⟨txid, version, inputs, outputs, fee, nonce⟩ := tx
  obtain ⟨txid', version', inputs', outputs', fee', nonce'⟩ := tx'
  simp only [transactionBodyBytes, append_assoc] at heq
  obtain ⟨rfl, hbody⟩ := selfDelimiting_u32LeBytes trivial trivial heq
  rw [← append_assoc, ← append_assoc (lenPrefix inputs'.length)] at hbody
  obtain ⟨rfl, hafterInputs⟩ :=
    selfDelimiting_canonicalTxInputBytes.counted selfDelimiting_lenPrefix
      ⟨h.inputs_length, h.inputs⟩ ⟨h'.inputs_length, h'.inputs⟩ hbody
  rw [← append_assoc, ← append_assoc (lenPrefix outputs'.length)] at hafterInputs
  obtain ⟨rfl, hafterOutputs⟩ :=
    selfDelimiting_canonicalTxOutputBytes.counted selfDelimiting_lenPrefix
      ⟨h.outputs_length, h.outputs⟩ ⟨h'.outputs_length, h'.outputs⟩ hafterInputs
  obtain ⟨rfl, hnonce⟩ := selfDelimiting_u64LeBytes trivial trivial hafterOutputs
  obtain rfl := selfDelimiting_u64LeBytes.eq_of_encode_eq trivial trivial hnonce
  rfl

section

variable [Crypto]

/-- A collision-free digest stays so when it is written in hexadecimal. -/
theorem sha256Hex_injective (hsha : Function.Injective Crypto.sha256) :
    Function.Injective sha256Hex :=
  hexEncode_injective.comp hsha

/-- The preimage of a version 2 transaction id. -/
def txidPreimageV2 (tx : Transaction) (chainId : String) : List UInt8 :=
  encodeLenPrefixedStr "PulseDAG:tx:v2" ++ encodeLenPrefixedStr chainId ++
    transactionBodyBytes canonicalTxInputBytes tx

/-- An id that is computed is the digest of the preimage. -/
theorem computeTxidV2_eq_ok {tx : Transaction} {chainId : String} {txid : Hash}
    (h : computeTxidV2 tx chainId = .ok txid) : txid = sha256Hex (txidPreimageV2 tx chainId) := by
  simp only [computeTxidV2, canonicalTransactionBytesV2, ok_iff] at h
  obtain ⟨_, ⟨-, -, rfl⟩, rfl⟩ := h
  rfl

/-- A transaction that states its computed id. -/
def Identified (tx : Transaction) (chainId : String) : Prop :=
  computeTxidV2 tx chainId = .ok tx.txid

/-- Where the digests of the two preimages do not collide, the id of a transaction determines the
transaction. -/
theorem Identified.eq_of_txid_eq_of_injOn {tx tx' : Transaction} {chainId : String}
    (hid : Identified tx chainId) (hid' : Identified tx' chainId) (h : tx.Fits) (h' : tx'.Fits)
    (hsha : Crypto.sha256 (txidPreimageV2 tx chainId) = Crypto.sha256 (txidPreimageV2 tx' chainId) →
      txidPreimageV2 tx chainId = txidPreimageV2 tx' chainId)
    (heq : tx.txid = tx'.txid) : tx = tx' := by
  have htxid := heq
  rw [computeTxidV2_eq_ok hid, computeTxidV2_eq_ok hid'] at htxid
  have hpreimage := hsha (hexEncode_injective htxid)
  simp only [txidPreimageV2, append_assoc, append_cancel_left_eq] at hpreimage
  have hbody := transactionBodyBytes_inj h h' hpreimage
  rwa [← heq] at hbody

/-- With a collision-free digest the id of a transaction determines the transaction. -/
theorem Identified.eq_of_txid_eq (hsha : Function.Injective Crypto.sha256) {tx tx' : Transaction}
    {chainId : String} (hid : Identified tx chainId) (hid' : Identified tx' chainId) (h : tx.Fits)
    (h' : tx'.Fits) (heq : tx.txid = tx'.txid) : tx = tx' :=
  hid.eq_of_txid_eq_of_injOn hid' h h' (fun hdigest => hsha hdigest) heq

end

/-! ## A collision-free digest -/

/-- A digest that is short on the inputs of a table and collision-free everywhere. -/
def tableDigest (table : List (List UInt8)) (bytes : List UInt8) : List UInt8 :=
  match table.idxOf? bytes with
  | some index => [UInt8.ofNat index]
  | none => 255 :: 255 :: bytes

/-- The digest of a table has no collision. -/
theorem tableDigest_injective {table : List (List UInt8)} (h : table.length ≤ 256) :
    Function.Injective (tableDigest table) := by
  have hfound : ∀ bytes index, table.idxOf? bytes = some index →
      index < 256 ∧ table[index]? = some bytes := by
    intro bytes index hindex
    rw [List.idxOf?, findIdx?_eq_some_iff_getElem] at hindex
    obtain ⟨hlt, heq, -⟩ := hindex
    exact ⟨hlt.trans_le h, List.getElem?_eq_some_iff.mpr ⟨hlt, eq_of_beq heq⟩⟩
  intro a b heq
  unfold tableDigest at heq
  cases ha : table.idxOf? a with
  | some index =>
    cases hb : table.idxOf? b with
    | some index' =>
      rw [ha, hb] at heq
      obtain ⟨hlt, hget⟩ := hfound a index ha
      obtain ⟨hlt', hget'⟩ := hfound b index' hb
      have hnat := congrArg UInt8.toNat (singleton_inj.mp heq)
      rw [UInt8.toNat_ofNat_of_lt' hlt, UInt8.toNat_ofNat_of_lt' hlt'] at hnat
      subst hnat
      exact Option.some.inj (hget.symm.trans hget')
    | none =>
      rw [ha, hb] at heq
      simp at heq
  | none =>
    cases hb : table.idxOf? b with
    | some index' =>
      rw [ha, hb] at heq
      simp at heq
    | none =>
      rw [ha, hb] at heq
      simpa using heq

/-- The table digest in place of SHA-256, for runs on fixed blocks. -/
abbrev tableCrypto (table : List (List UInt8)) : Crypto where
  sha256 := tableDigest table
  ed25519Verify _ _ _ := true
  kHeavyHashDigest _ _ := []

/-- The table of some preimages, each of which may use the digests of those before it. -/
def growTable (preimages : List (Crypto → List UInt8)) : List (List UInt8) :=
  preimages.foldl (fun table preimage => table ++ [preimage (tableCrypto table)]) []

/-- The table has one entry for each preimage. -/
theorem length_growTable (preimages : List (Crypto → List UInt8)) :
    (growTable preimages).length = preimages.length := by
  induction preimages using List.reverseRecOn with
  | nil => rfl
  | append_singleton preimages last ih =>
    rw [growTable, foldl_append, foldl_cons, foldl_nil, length_append]
    rw [growTable] at ih
    rw [ih, length_append]
    rfl

end PulseDag
