import Mathlib

/-!
# Bytes, hexadecimal text and the cryptographic primitives

Every identity of the chain is a SHA-256 digest of a canonical byte string,
printed in lower-case hexadecimal. The digest, the ed25519 verifier and the
kHeavyHash digest come from external crates, so they are the fields of the
class `Crypto`; everything written on top of them is computed here.
-/

namespace PulseDag

/-- The functions the node takes from external crates. -/
class Crypto where
  /-- `Sha256::digest` of the `sha2` crate. -/
  sha256 : List UInt8 → List UInt8
  /-- `VerifyingKey::from_bytes` followed by `verify`: public key, message, signature. -/
  ed25519Verify : List UInt8 → List UInt8 → List UInt8 → Bool
  /-- The kHeavyHash digest of the pre-PoW bytes under a nonce. -/
  kHeavyHashDigest : List UInt8 → UInt64 → List UInt8

/-- The `n` lowest bytes of a number, least significant first (`to_le_bytes`). -/
def leBytes : ℕ → ℕ → List UInt8
  | 0, _ => []
  | n + 1, value => UInt8.ofNat (value % 256) :: leBytes n (value / 256)

/-- `u32::to_le_bytes`. -/
def u32LeBytes (value : UInt32) : List UInt8 := leBytes 4 value.toNat

/-- `u64::to_le_bytes`. -/
def u64LeBytes (value : UInt64) : List UInt8 := leBytes 8 value.toNat

/-- `str::as_bytes`: the UTF-8 bytes of a string. -/
def asBytes (value : String) : List UInt8 := value.toUTF8.data.toList

/-- The length prefix `len as u32`, little endian. Lengths from `2 ^ 32` on make the
source panic; here they wrap. -/
def lenPrefix (len : ℕ) : List UInt8 := leBytes 4 len

/-- `encode_len_prefixed_bytes`: a byte string preceded by its length. -/
def encodeLenPrefixedBytes (bytes : List UInt8) : List UInt8 :=
  lenPrefix bytes.length ++ bytes

/-- `encode_len_prefixed_str`: a string preceded by its byte length. -/
def encodeLenPrefixedStr (value : String) : List UInt8 :=
  encodeLenPrefixedBytes (asBytes value)

/-- The lower-case hexadecimal digit of a number below sixteen. -/
def hexDigit (value : ℕ) : Char :=
  if value < 10 then Char.ofNat (48 + value) else Char.ofNat (87 + value)

/-- `hex::encode`: two lower-case digits for each byte. -/
def hexEncode (bytes : List UInt8) : String :=
  String.ofList (bytes.flatMap fun byte =>
    [hexDigit (byte.toNat / 16), hexDigit (byte.toNat % 16)])

/-- The value of a hexadecimal digit of either case. -/
def hexValue (c : Char) : Option ℕ :=
  if '0' ≤ c ∧ c ≤ '9' then some (c.toNat - 48)
  else if 'a' ≤ c ∧ c ≤ 'f' then some (c.toNat - 87)
  else if 'A' ≤ c ∧ c ≤ 'F' then some (c.toNat - 55)
  else none

/-- The digit pairs of a hexadecimal text, read left to right. -/
def hexDecodeChars : List Char → Option (List UInt8)
  | [] => some []
  | [_] => none
  | high :: low :: rest => do
    let h ← hexValue high
    let l ← hexValue low
    let bytes ← hexDecodeChars rest
    pure (UInt8.ofNat (16 * h + l) :: bytes)

/-- `hex::decode`: fails on an odd length or on a character that is no digit. -/
def hexDecode (text : String) : Option (List UInt8) := hexDecodeChars text.toList

variable [Crypto]

/-- `hex::encode(Sha256::digest(bytes))`. -/
def sha256Hex (bytes : List UInt8) : String := hexEncode (Crypto.sha256 bytes)

end PulseDag
