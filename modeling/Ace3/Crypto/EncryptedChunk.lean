import Mathlib.Algebra.Group.Nat.Defs
import Mathlib.Data.List.Basic

/-!
# Encrypted Chunks and Files

`encrypt_chunk` and `decrypt_chunk` of `saq/crypto.py`, and `encrypt` and `decrypt` of files: AES-GCM
with a header that holds the size of the plaintext and the nonce. What is assumed of the cryptography library for all inputs are the
sizes of its results and that decryption undoes encryption; that two keys do not fit the same
ciphertext is assumed only where it is used.
-/

namespace Ace3.Crypto

open List

/-! ## §1 Bytes -/

abbrev Bytes := List UInt8

/-- `struct.pack('<Q', n)`. -/
def packQ (n : Nat) : Bytes :=
  (List.range 8).map fun i => UInt8.ofNat (n / 256 ^ i)

/-- `struct.unpack('<Q', ...)` of eight bytes. -/
def unpackQ (bytes : Bytes) : Nat :=
  bytes.foldr (fun byte n => byte.toNat + 256 * n) 0

@[simp] theorem length_packQ (n : Nat) : (packQ n).length = 8 := by
  simp [packQ]

theorem unpackQ_map_range (n k : Nat) :
    unpackQ ((List.range k).map fun i => UInt8.ofNat (n / 256 ^ i)) = n % 256 ^ k := by
  induction k generalizing n with
  | zero => simp [unpackQ, Nat.mod_one]
  | succ k ih =>
    have hrest := ih (n / 256)
    simp only [Nat.div_div_eq_div_mul] at hrest
    simp only [range_succ_eq_map, map_cons, map_map, unpackQ, foldr_cons,
      Function.comp_def, Nat.pow_succ', Nat.pow_zero, Nat.div_one] at hrest ⊢
    rw [hrest, UInt8.toNat_ofNat', Nat.mod_mul]

theorem unpackQ_packQ {n : Nat} (h : n < 2 ^ 64) : unpackQ (packQ n) = n := by
  rw [packQ, unpackQ_map_range]
  exact Nat.mod_eq_of_lt h

/-! ## §2 The cryptography library -/

/-- What the code takes from the cryptography library. -/
structure Primitives where
  /-- `PBKDF2HMAC(SHA256, length=64).derive` of a password, a salt and a number of iterations. -/
  derive : String → Bytes → Int → Bytes
  /-- AES-GCM encryption under a key and a nonce: ciphertext and tag. -/
  gcmEncrypt : Bytes → Bytes → Bytes → Bytes × Bytes
  /-- AES-GCM decryption under a key and a nonce, of a ciphertext with its tag. -/
  gcmDecrypt : Bytes → Bytes → Bytes × Bytes → Option Bytes
  derive_length : ∀ password salt iterations, (derive password salt iterations).length = 64
  tag_length : ∀ key nonce plaintext, (gcmEncrypt key nonce plaintext).2.length = 16
  /-- Decryption undoes encryption. -/
  decrypt_encrypt : ∀ key nonce plaintext,
    gcmDecrypt key nonce (gcmEncrypt key nonce plaintext) = some plaintext

inductive CryptoError where
  /-- `PasswordNotSetError`. -/
  | passwordNotSet
  /-- `InvalidPasswordError`. -/
  | invalidPassword
  /-- `ValueError("password must be 32 bytes")`. -/
  | passwordMustBe32Bytes
  /-- `struct.error`, from a header that is cut off. -/
  | headerTooShort
  /-- `ValueError("encrypted chunk too short")`. -/
  | chunkTooShort
  /-- `InvalidTag`. -/
  | invalidTag
  deriving DecidableEq

/-! ## §3 `encrypt_chunk` and `decrypt_chunk` -/

/-- `_get_password` of a key. -/
def getPassword (password : Bytes) : Except CryptoError Bytes :=
  if password.length = 32 then .ok password else .error .passwordMustBe32Bytes

/-- `encrypt_chunk`, with the nonce that `os.urandom(12)` returned. -/
def encryptChunk (p : Primitives) (nonce chunk password : Bytes) : Except CryptoError Bytes :=
  (getPassword password).map fun key =>
    let sealed := p.gcmEncrypt key nonce chunk
    packQ chunk.length ++ (nonce ++ (sealed.1 ++ sealed.2))

def decryptChunk (p : Primitives) (chunk password : Bytes) : Except CryptoError Bytes :=
  match getPassword password with
  | .error e => .error e
  | .ok key =>
    let nonce := (chunk.drop 8).take 12
    let remaining := (chunk.drop 8).drop 12
    if chunk.length < 8 then .error .headerTooShort
    else if remaining.length < 16 then .error .chunkTooShort
    else
      let ciphertext := remaining.take (remaining.length - 16)
      let tag := remaining.drop (remaining.length - 16)
      match p.gcmDecrypt key nonce (ciphertext, tag) with
      | none => .error .invalidTag
      | some result => .ok (result.take (unpackQ (chunk.take 8)))

variable {p : Primitives} {nonce chunk password : Bytes}

theorem decryptChunk_append {header ciphertext tag : Bytes} (hkey : password.length = 32)
    (hheader : header.length = 8) (hnonce : nonce.length = 12) (htag : tag.length = 16) :
    decryptChunk p (header ++ (nonce ++ (ciphertext ++ tag))) password =
      match p.gcmDecrypt password nonce (ciphertext, tag) with
      | none => .error .invalidTag
      | some result => .ok (result.take (unpackQ header)) := by
  have hrest : (header ++ (nonce ++ (ciphertext ++ tag))).drop 8 = nonce ++ (ciphertext ++ tag) :=
    drop_left' hheader
  have hremaining : (nonce ++ (ciphertext ++ tag)).drop 12 = ciphertext ++ tag :=
    drop_left' hnonce
  have hciphertext : (ciphertext ++ tag).length - 16 = ciphertext.length := by
    simp [htag]
  have hlong : ¬ (header ++ (nonce ++ (ciphertext ++ tag))).length < 8 := by
    simp only [length_append]
    omega
  have henough : ¬ (ciphertext ++ tag).length < 16 := by
    simp only [length_append]
    omega
  simp only [decryptChunk, getPassword, if_pos hkey, hrest, hremaining, hciphertext, if_neg hlong,
    if_neg henough, take_left' hnonce, take_left' hheader, take_left,
    drop_left]

theorem decryptChunk_of_encryptChunk {encrypted : Bytes} (hnonce : nonce.length = 12)
    (hsize : chunk.length < 2 ^ 64) (h : encryptChunk p nonce chunk password = .ok encrypted) :
    decryptChunk p encrypted password = .ok chunk := by
  unfold encryptChunk getPassword at h
  split at h
  next hkey =>
    obtain rfl := Except.ok.inj h
    rw [decryptChunk_append hkey (length_packQ _) hnonce (p.tag_length _ _ _),
      p.decrypt_encrypt, unpackQ_packQ hsize]
    simp only [take_length]
  next => cases h

/-! ## §4 `encrypt` and `decrypt` -/

/-- What `encrypt` writes to its target: the size, the nonce, the ciphertext and the tag. -/
def encrypt (p : Primitives) (nonce source password : Bytes) : Bytes :=
  let sealed := p.gcmEncrypt password nonce source
  packQ source.length ++ (nonce ++ (sealed.1 ++ sealed.2))

/-- `fp_out.truncate(size)`: a shorter file is filled up with zeros. -/
def truncate (content : Bytes) (size : Nat) : Bytes :=
  (content ++ List.replicate (size - content.length) 0).take size

/-- `decrypt` of a file: what it writes to its target, or nothing when it raises. The tag is read
from the end of the file, the ciphertext is what lies between the nonce and the tag. -/
def decrypt (p : Primitives) (source password : Bytes) : Option Bytes :=
  if source.length < 16 then none
  else
    let nonce := (source.drop 8).take 12
    let tag := source.drop (source.length - 16)
    let ciphertext := (source.drop 20).take (source.length - 36)
    (p.gcmDecrypt password nonce (ciphertext, tag)).map fun content =>
      truncate content (unpackQ (source.take 8))

variable {p : Primitives} {nonce source password : Bytes}

@[simp] theorem truncate_length (content : Bytes) : truncate content content.length = content := by
  simp [truncate]

theorem decrypt_append {header ciphertext tag : Bytes} (hheader : header.length = 8)
    (hnonce : nonce.length = 12) (htag : tag.length = 16) :
    decrypt p (header ++ (nonce ++ (ciphertext ++ tag))) password =
      (p.gcmDecrypt password nonce (ciphertext, tag)).map fun content =>
        truncate content (unpackQ header) := by
  have hlength : (header ++ (nonce ++ (ciphertext ++ tag))).length = ciphertext.length + 36 := by
    simp only [length_append, hheader, hnonce, htag]
    omega
  have hafterHeader : (header ++ (nonce ++ (ciphertext ++ tag))).drop 8 =
      nonce ++ (ciphertext ++ tag) := drop_left' hheader
  have hafterNonce : (header ++ (nonce ++ (ciphertext ++ tag))).drop 20 = ciphertext ++ tag := by
    rw [show 20 = 8 + 12 from rfl, ← drop_drop, hafterHeader, drop_left' hnonce]
  have hend : (header ++ (nonce ++ (ciphertext ++ tag))).drop (ciphertext.length + 20) = tag := by
    rw [Nat.add_comm, ← drop_drop, hafterNonce, drop_left]
  have hlong : ¬ ciphertext.length + 36 < 16 := by omega
  simp only [decrypt, hlength, if_neg hlong, hafterHeader, hafterNonce, Nat.add_sub_cancel,
    show ciphertext.length + 36 - 16 = ciphertext.length + 20 by omega, hend,
    take_left' hnonce, take_left' hheader, take_left]

theorem decrypt_encrypt (hnonce : nonce.length = 12) (hsize : source.length < 2 ^ 64) :
    decrypt p (encrypt p nonce source password) password = some source := by
  rw [encrypt, decrypt_append (length_packQ _) hnonce (p.tag_length _ _ _), p.decrypt_encrypt,
    unpackQ_packQ hsize, Option.map_some, truncate_length]

end Ace3.Crypto
