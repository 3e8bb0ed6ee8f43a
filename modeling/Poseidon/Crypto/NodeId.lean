import Poseidon.Lib.CString
import Poseidon.Util.Base58

/-!
# Node ids and signatures

A node id is the BLAKE3 hash of a public key together with its Base58 form. Hashing and signature
checking are done by external libraries and are parameters here; the code around them, the choice
by key type included, is modelled.
-/

namespace Poseidon

inductive KeyType where
  | ed25519
  | rsa
  | ec
deriving DecidableEq, Repr

/-- The `strcmp` chain over the names `ED25519`, `RSA` and `EC`. -/
def KeyType.ofName (name : Bytes) : Option KeyType :=
  if name = [69, 68, 50, 53, 53, 49, 57] then some .ed25519
  else if name = [82, 83, 65] then some .rsa
  else if name = [69, 67] then some .ec
  else none

/-- The external functions: `blake3` and, for a key in its DER encoding, `digestVerify`. -/
structure Crypto where
  blake3 : Bytes → Bytes
  length_blake3 : ∀ data, (blake3 data).length = 32
  digestVerify : KeyType → (publicKey data signature : Bytes) → Bool

def Crypto.verifySignatureWithKey (crypto : Crypto) (keyType publicKey data signature : Bytes) :
    Bool :=
  match KeyType.ofName keyType with
  | none => false
  | some type => crypto.digestVerify type publicKey data signature

theorem length_take_padded (data : Bytes) :
    ((data ++ List.replicate 32 0).take 32).length = 32 := by
  simp

/-- External functions to evaluate the model with: a key of up to 32 bytes hashes to itself, filled
up with zeros, and its signature of anything is the key. -/
def Crypto.padded : Crypto where
  blake3 data := (data ++ List.replicate 32 0).take 32
  length_blake3 := length_take_padded
  digestVerify _ publicKey _ signature := signature == publicKey

def nodeIdHashSize : Nat := 32

def nodeIdStringSize : Nat := 48

structure NodeId where
  hash : Bytes
  str : CString nodeIdStringSize
deriving DecidableEq, Repr

namespace NodeId

/-- The id with the given hash, if its Base58 form fits the string field. -/
def ofHash (hash : Bytes) : Option NodeId :=
  match hencode : Base58.encode hash (nodeIdStringSize - 1) with
  | none => none
  | some chars =>
      some ⟨hash, chars, Nat.lt_of_le_pred (by decide) (Base58.length_le_of_encode hencode),
        Base58.zero_not_mem_encode hencode⟩

def fromPublicKey (crypto : Crypto) (publicKey : Bytes) : Option NodeId :=
  ofHash (crypto.blake3 publicKey)

/-- The decoded bytes stay at the front; what is missing to a whole hash is filled with zeros. -/
def fromString (str : Bytes) : Option NodeId :=
  match CString.ofMemory nodeIdStringSize str with
  | none => none
  | some string =>
      (Base58.decode string.bytes nodeIdHashSize).map fun bytes =>
        ⟨bytes ++ List.replicate (nodeIdHashSize - bytes.length) 0, string⟩

/-- `poseidon_node_id_compare` of two ids that are there. -/
def compare (a b : NodeId) : Int :=
  let rc := memcmp a.hash b.hash
  if rc < 0 then -1 else if rc > 0 then 1 else 0

def equals (a b : NodeId) : Bool :=
  a.compare b == 0

def verifyPublicKey (crypto : Crypto) (id : NodeId) (publicKey : Bytes) : Bool :=
  publicKey != [] && crypto.blake3 publicKey == id.hash

end NodeId

end Poseidon
