import Poseidon.Crypto.NodeId
import Poseidon.Util.Base58RoundTrip

/-!
# Key pairs

A key pair with its public half in DER form; signing is done by an external library and is a
parameter here. What that library documents for ED25519 is a structure of its own. The identity
made from a public key is read back from its Base58 form.
-/

namespace Poseidon

/-- The names `ED25519`, `RSA` and `EC`. -/
def KeyType.name : KeyType → Bytes
  | .ed25519 => [69, 68, 50, 53, 53, 49, 57]
  | .rsa => [82, 83, 65]
  | .ec => [69, 67]

@[simp]
theorem KeyType.ofName_name (keyType : KeyType) : KeyType.ofName keyType.name = some keyType := by
  cases keyType <;> rfl

/-- `poseidon_key_pair_t`, with what `EVP_DigestSign` computes under its private half. -/
structure KeyPair where
  keyType : KeyType
  publicKey : Bytes
  digestSign : Bytes → Bytes

namespace KeyPair

/-- `poseidon_key_pair_sign`. -/
def sign (keyPair : KeyPair) (data : Bytes) : Option Bytes :=
  if keyPair.keyType ≠ .ed25519 then none else some (keyPair.digestSign data)

/-- An ED25519 key pair: its public key takes 44 bytes and a signature 64, and what was signed is
accepted under the public key. -/
structure IsEd25519 (crypto : Crypto) (keyPair : KeyPair) : Prop where
  keyType_eq : keyPair.keyType = .ed25519
  length_publicKey : keyPair.publicKey.length = 44
  length_digestSign : ∀ data, (keyPair.digestSign data).length = 64
  digestVerify_digestSign : ∀ data,
    crypto.digestVerify .ed25519 keyPair.publicKey data (keyPair.digestSign data) = true

namespace IsEd25519

variable {crypto : Crypto} {keyPair : KeyPair}

variable (hkey : keyPair.IsEd25519 crypto)

include hkey

theorem sign_eq (data : Bytes) : keyPair.sign data = some (keyPair.digestSign data) := by
  unfold sign
  rw [if_neg (not_not.mpr hkey.keyType_eq)]

theorem publicKey_ne_nil : keyPair.publicKey ≠ [] := by
  intro hnil
  have hlength := hkey.length_publicKey
  rw [hnil] at hlength
  contradiction

theorem verifySignatureWithKey (data : Bytes) :
    crypto.verifySignatureWithKey keyPair.keyType.name keyPair.publicKey data
      (keyPair.digestSign data) = true := by
  unfold Crypto.verifySignatureWithKey
  rw [KeyType.ofName_name, hkey.keyType_eq]
  exact hkey.digestVerify_digestSign data

end IsEd25519

end KeyPair

/-- A stand-in for the signature of a text: its length and its first 62 bytes. -/
def textTag (data : Bytes) : Bytes :=
  beBytes 2 data.length ++ (data ++ List.replicate 62 0).take 62

theorem length_textTag (data : Bytes) : (textTag data).length = 64 := by
  simp [textTag]

/-- External functions to evaluate the model with, under which a signature is the tag of its text.
Texts of different lengths have different ones. -/
def Crypto.tagged : Crypto where
  blake3 data := (data ++ List.replicate 32 0).take 32
  length_blake3 := length_take_padded
  digestVerify _ _ data signature := signature == textTag data

def KeyPair.tagged : KeyPair where
  keyType := .ed25519
  publicKey := List.replicate 44 7
  digestSign := textTag

theorem KeyPair.isEd25519_tagged : KeyPair.tagged.IsEd25519 Crypto.tagged where
  keyType_eq := rfl
  length_publicKey := List.length_replicate
  length_digestSign := length_textTag
  digestVerify_digestSign data := beq_self_eq_true (textTag data)

/-! ### Identities -/

namespace NodeId

theorem encode_of_ofHash {hash : Bytes} {id : NodeId} (hid : ofHash hash = some id) :
    Base58.encode hash (nodeIdStringSize - 1) = some id.str.bytes ∧ id.hash = hash := by
  unfold ofHash at hid
  split at hid
  · contradiction
  · next chars hencode =>
      obtain rfl := Option.some.inj hid
      exact ⟨hencode, rfl⟩

theorem fromString_of_ofHash {hash : Bytes} {id : NodeId} (hid : ofHash hash = some id)
    (hlength : hash.length = nodeIdHashSize) : fromString id.str.bytes = some id := by
  obtain ⟨hencode, hhash⟩ := encode_of_ofHash hid
  unfold fromString
  rw [CString.ofMemory_bytes]
  dsimp only
  rw [Base58.decode_encode hencode hlength.le, Option.map_some, hlength, Nat.sub_self,
    List.replicate_zero, List.append_nil, ← hhash]

theorem verifyPublicKey_of_fromPublicKey {crypto : Crypto} {publicKey : Bytes} {id : NodeId}
    (hid : fromPublicKey crypto publicKey = some id) (hkey : publicKey ≠ []) :
    fromString id.str.bytes = some id ∧ id.verifyPublicKey crypto publicKey = true := by
  refine ⟨fromString_of_ofHash hid (crypto.length_blake3 publicKey), ?_⟩
  have hhash := (encode_of_ofHash hid).2
  unfold verifyPublicKey
  rw [hhash, Bool.and_eq_true]
  exact ⟨bne_iff_ne.mpr hkey, beq_self_eq_true _⟩

end NodeId

end Poseidon
