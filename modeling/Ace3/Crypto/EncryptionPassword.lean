import Ace3.Crypto.EncryptedChunk

/-!
# The Encryption Password

`get_decryption_key`, `get_aes_key` and `set_encryption_password` of `saq/crypto.py` over the
encryption settings in the table `config` (`saq/configuration/database.py`). Each call of
`set_database_config_value` commits on its own, so a run is cut off after any number of them.
-/

namespace Ace3.Crypto

/-! ## §1 The stored settings -/

/-- The values of the four keys, or none for a key that the table does not have. -/
structure EncryptionSettings where
  /-- `encryption-key`: the primary key, encrypted. -/
  key : Option Bytes
  /-- `encryption-salt`. -/
  salt : Option Bytes
  /-- `encryption-verification`. -/
  verification : Option Bytes
  /-- `encryption-iterations`. -/
  iterations : Option Int
  deriving DecidableEq

/-- A call of `set_database_config_value` with one of the four keys. -/
inductive ConfigWrite where
  | encryptionKey (value : Bytes)
  | encryptionSalt (value : Bytes)
  | encryptionVerification (value : Bytes)
  | encryptionIterations (value : Int)
  deriving DecidableEq

namespace EncryptionSettings

def setDatabaseConfigValue (s : EncryptionSettings) : ConfigWrite → EncryptionSettings
  | .encryptionKey value => { s with key := some value }
  | .encryptionSalt value => { s with salt := some value }
  | .encryptionVerification value => { s with verification := some value }
  | .encryptionIterations value => { s with iterations := some value }

def encryptionKeySet (s : EncryptionSettings) : Bool :=
  s.key.isSome ∧ s.salt.isSome ∧ s.verification.isSome ∧ s.iterations.isSome

end EncryptionSettings

/-! ## §2 Reading the primary key -/

/-- The first half of what PBKDF2 returns, the user encryption key. -/
def userEncryptionKey (p : Primitives) (password : String) (salt : Bytes) (iterations : Int) :
    Bytes :=
  (p.derive password salt iterations).take 32

def verificationKey (p : Primitives) (password : String) (salt : Bytes) (iterations : Int) :
    Bytes :=
  (p.derive password salt iterations).drop 32

def getDecryptionKey (p : Primitives) (s : EncryptionSettings) (password : String) :
    Except CryptoError Bytes :=
  match s.key, s.salt, s.verification, s.iterations with
  | some _, some salt, some verification, some iterations =>
    if verification = verificationKey p password salt iterations then
      .ok (userEncryptionKey p password salt iterations)
    else .error .invalidPassword
  | _, _, _, _ => .error .passwordNotSet

def getAesKey (p : Primitives) (s : EncryptionSettings) (password : String) :
    Except CryptoError Bytes :=
  match getDecryptionKey p s password, s.key with
  | .error e, _ => .error e
  | .ok _, none => .error .passwordNotSet
  | .ok decryptionKey, some encryptedKey => decryptChunk p encryptedKey decryptionKey

/-! ## §3 Setting the password -/

/-- A call of `set_encryption_password`, and what it draws and reads. -/
structure PasswordChange where
  password : String
  oldPassword : Option String
  key : Option Bytes
  /-- `os.urandom(salt_size)`. -/
  salt : Bytes
  /-- `encryption.iterations`. -/
  iterations : Int
  /-- `os.urandom(32)`, where a new primary key is made. -/
  randomKey : Bytes
  /-- The nonce of `encrypt_chunk`. -/
  nonce : Bytes
  deriving DecidableEq

/-- The primary key that the call is going to store: the one that the old password yields, else
the one in memory, else a new one. -/
def PasswordChange.encryptionKey (p : Primitives) (s : EncryptionSettings)
    (runtimeKey : Option Bytes) (change : PasswordChange) : Except CryptoError Bytes :=
  match if s.encryptionKeySet then change.oldPassword else none with
  | some oldPassword => getAesKey p s oldPassword
  | none => .ok (runtimeKey.getD (change.key.getD change.randomKey))

/-- The calls of `set_database_config_value`, in their order. -/
def PasswordChange.configWrites (p : Primitives) (change : PasswordChange) (key : Bytes) :
    Except CryptoError (List ConfigWrite) :=
  (encryptChunk p change.nonce key
    (userEncryptionKey p change.password change.salt change.iterations)).map fun encrypted =>
      [.encryptionVerification (verificationKey p change.password change.salt change.iterations),
        .encryptionKey encrypted, .encryptionSalt change.salt,
        .encryptionIterations change.iterations]

/-- The settings after `set_encryption_password`, of whose commits the first `committed` have been
made when the process dies or a write fails. -/
def setEncryptionPassword (p : Primitives) (s : EncryptionSettings) (runtimeKey : Option Bytes)
    (change : PasswordChange) (committed : Nat) : Except CryptoError EncryptionSettings := do
  let key ← change.encryptionKey p s runtimeKey
  let writes ← change.configWrites p key
  return (writes.take committed).foldl EncryptionSettings.setDatabaseConfigValue s

end Ace3.Crypto
