import Ace3.Crypto.EncryptionPassword
import Mathlib.Data.List.ProdSigma

/-!
# What a Password Change Leaves Behind

`set_encryption_password` replaces verification, key, salt and iterations one after the other, and
a password is checked against all four.
-/

namespace Ace3.Crypto

open List

variable {p : Primitives} {s : EncryptionSettings} {runtimeKey : Option Bytes}
  {change : PasswordChange}

/-! ## §1 Passwords that yield a key -/

/-- The password passes the verification, and `get_aes_key` returns the primary key. -/
def Yields (p : Primitives) (s : EncryptionSettings) (password : String) (key : Bytes) : Prop :=
  getAesKey p s password = .ok key

instance (p : Primitives) (s : EncryptionSettings) (password : String) (key : Bytes) :
    Decidable (Yields p s password key) :=
  inferInstanceAs (Decidable (getAesKey p s password = .ok key))

structure Derivation where
  password : String
  salt : Bytes
  iterations : Int
  deriving DecidableEq

def Derivation.userKey (p : Primitives) (d : Derivation) : Bytes :=
  userEncryptionKey p d.password d.salt d.iterations

def Derivation.verification (p : Primitives) (d : Derivation) : Bytes :=
  verificationKey p d.password d.salt d.iterations

@[simp] theorem Derivation.length_userKey (d : Derivation) : (d.userKey p).length = 32 := by
  simp [userKey, userEncryptionKey, p.derive_length]

def EncryptionSettings.complete (encrypted verification salt : Bytes) (iterations : Int) :
    EncryptionSettings :=
  ⟨some encrypted, some salt, some verification, some iterations⟩

theorem yields_complete_iff {password : String} {encrypted verification salt key : Bytes}
    {iterations : Int} :
    Yields p (.complete encrypted verification salt iterations) password key ↔
      verification = Derivation.verification p ⟨password, salt, iterations⟩ ∧
        decryptChunk p encrypted (Derivation.userKey p ⟨password, salt, iterations⟩) =
          .ok key := by
  by_cases hpass : verification = Derivation.verification p ⟨password, salt, iterations⟩
  · rw [Derivation.verification] at hpass
    simp [Yields, getAesKey, getDecryptionKey, EncryptionSettings.complete, Derivation.verification,
      Derivation.userKey, hpass]
  · have hrefused : ¬ verification = verificationKey p password salt iterations := hpass
    simp [Yields, getAesKey, getDecryptionKey, EncryptionSettings.complete, Derivation.verification,
      hrefused]

theorem Yields.exists_complete {password : String} {key : Bytes} (h : Yields p s password key) :
    ∃ encrypted verification salt iterations,
      s = .complete encrypted verification salt iterations := by
  obtain ⟨encrypted, salt, verification, iterations⟩ := s
  unfold Yields getAesKey getDecryptionKey at h
  cases encrypted with
  | none => cases h
  | some encrypted =>
    cases salt with
    | none => cases h
    | some salt =>
      cases verification with
      | none => cases h
      | some verification =>
        cases iterations with
        | none => cases h
        | some iterations => exact ⟨encrypted, verification, salt, iterations, rfl⟩

/-! ## §2 A change that is cut off -/

def derivations (s : EncryptionSettings) (old : String) (change : PasswordChange) :
    List Derivation :=
  [old, change.password].flatMap fun password =>
    (s.salt.toList ++ [change.salt]).flatMap fun salt =>
      (s.iterations.toList ++ [change.iterations]).map fun iterations =>
        ⟨password, salt, iterations⟩

/-- PBKDF2 has no collisions among these derivations, and the stored key does not decrypt under
two different keys derived by them. -/
structure Secure (p : Primitives) (s : EncryptionSettings) (old : String)
    (change : PasswordChange) : Prop where
  verification : ∀ d ∈ derivations s old change, ∀ d' ∈ derivations s old change,
    d.verification p = d'.verification p → d = d'
  userKey : ∀ d ∈ derivations s old change, ∀ d' ∈ derivations s old change,
    d.userKey p = d'.userKey p → d = d'
  authentic : ∀ encrypted ∈ s.key, ∀ d ∈ derivations s old change,
    ∀ d' ∈ derivations s old change,
      (decryptChunk p encrypted (d.userKey p)).toOption.isSome →
        (decryptChunk p encrypted (d'.userKey p)).toOption.isSome → d.userKey p = d'.userKey p

/-- When a change that is cut off after so many commits leaves a password that yields the primary
key, where `kept` says that the key it stores is the primary key. -/
def Survives (s : EncryptionSettings) (old : String) (change : PasswordChange) (kept : Prop) :
    Nat → Prop
  | 0 => True
  | 1 => change.password = old ∧ s.salt = some change.salt ∧ s.iterations = some change.iterations
  | 2 => s.salt = some change.salt ∧ s.iterations = some change.iterations ∧ kept
  | 3 => s.iterations = some change.iterations ∧ kept
  | _ + 4 => kept

def KeyReachable (p : Primitives) (s : EncryptionSettings) (old new : String) (key : Bytes) :
    Prop :=
  Yields p s old key ∨ Yields p s new key

theorem setEncryptionPassword_eq (committed : Nat)
    {encrypted verification salt key encrypted' : Bytes} {iterations : Int}
    (hs : s = .complete encrypted verification salt iterations)
    (hkey : change.encryptionKey p s runtimeKey = .ok key)
    (hencrypted : encryptChunk p change.nonce key
      (Derivation.userKey p ⟨change.password, change.salt, change.iterations⟩) = .ok encrypted') :
    setEncryptionPassword p s runtimeKey change committed =
      .ok (match committed with
        | 0 => s
        | 1 => .complete encrypted
            (Derivation.verification p ⟨change.password, change.salt, change.iterations⟩) salt
            iterations
        | 2 => .complete encrypted'
            (Derivation.verification p ⟨change.password, change.salt, change.iterations⟩) salt
            iterations
        | 3 => .complete encrypted'
            (Derivation.verification p ⟨change.password, change.salt, change.iterations⟩)
            change.salt iterations
        | _ + 4 => .complete encrypted'
            (Derivation.verification p ⟨change.password, change.salt, change.iterations⟩)
            change.salt change.iterations) := by
  have hwrites : change.configWrites p key = .ok
      [.encryptionVerification
          (Derivation.verification p ⟨change.password, change.salt, change.iterations⟩),
        .encryptionKey encrypted', .encryptionSalt change.salt,
        .encryptionIterations change.iterations] := by
    rw [Derivation.userKey] at hencrypted
    simp [PasswordChange.configWrites, hencrypted, Derivation.verification, Except.map]
  simp only [setEncryptionPassword, hkey, hwrites, bind, Except.bind, pure, Except.pure]
  rw [hs]
  match committed with
  | 0 | 1 | 2 | 3 => rfl
  | n + 4 => simp [EncryptionSettings.setDatabaseConfigValue, EncryptionSettings.complete]

/-! ## §3 Which password still works -/

theorem mem_derivations {old : String} {d : Derivation} :
    d ∈ derivations s old change ↔ (d.password = old ∨ d.password = change.password) ∧
      (s.salt = some d.salt ∨ d.salt = change.salt) ∧
        (s.iterations = some d.iterations ∨ d.iterations = change.iterations) := by
  obtain ⟨password, salt, iterations⟩ := d
  simp only [derivations, mem_flatMap, mem_map, mem_append, Option.mem_toList,
    mem_cons, not_mem_nil, or_false, Derivation.mk.injEq]
  constructor
  · rintro ⟨_, hpassword, _, hsalt, _, hiterations, rfl, rfl, rfl⟩
    exact ⟨hpassword, hsalt, hiterations⟩
  · rintro ⟨hpassword, hsalt, hiterations⟩
    exact ⟨password, hpassword, salt, hsalt, iterations, hiterations, rfl, rfl, rfl⟩

section Cut

variable {old : String} {encrypted verification salt key encrypted' key' : Bytes}
  {iterations : Int}

/-- Behind the first commit the stored verification is the new one, everything else is old. -/
theorem keyReachable_verification_iff (hsecure : Secure p s old change)
    (hs : s = .complete encrypted verification salt iterations) (h : Yields p s old key) :
    KeyReachable p (.complete encrypted
        (Derivation.verification p ⟨change.password, change.salt, change.iterations⟩) salt
        iterations) old change.password key ↔
      change.password = old ∧ change.salt = salt ∧ change.iterations = iterations := by
  have hnew : (⟨change.password, change.salt, change.iterations⟩ : Derivation) ∈
      derivations s old change := by simp [mem_derivations]
  have hstored (password : String) (hpassword : password = old ∨ password = change.password) :
      (⟨password, salt, iterations⟩ : Derivation) ∈ derivations s old change := by
    simp [mem_derivations, hpassword, hs, EncryptionSettings.complete]
  have hopens := (yields_complete_iff.mp (hs ▸ h)).2
  constructor
  · rintro (hold | hchanged)
    · obtain ⟨hverify, -⟩ := yields_complete_iff.mp hold
      have hsame := hsecure.verification _ hnew _ (hstored old (.inl rfl)) hverify
      simpa using hsame
    · obtain ⟨hverify, hopens'⟩ := yields_complete_iff.mp hchanged
      have hsame := hsecure.verification _ hnew _ (hstored _ (.inr rfl)) hverify
      -- the stored key is wrapped for the old password only
      have hkeys := hsecure.authentic encrypted (by simp [hs, EncryptionSettings.complete])
        _ (hstored _ (.inr rfl)) _ (hstored old (.inl rfl)) (by simp [hopens', Except.toOption])
        (by simp [hopens, Except.toOption])
      have hpasswords := hsecure.userKey _ (hstored _ (.inr rfl)) _ (hstored old (.inl rfl)) hkeys
      simp only [Derivation.mk.injEq, and_true, true_and] at hsame hpasswords
      exact ⟨hpasswords, hsame⟩
  · rintro ⟨hpassword, hsalt, hiterations⟩
    refine .inl (yields_complete_iff.mpr ⟨?_, hopens⟩)
    rw [hpassword, hsalt, hiterations]

/-- Once the key is wrapped for the new password, a password works if salt and iterations are the
new ones. -/
theorem keyReachable_wrapped_iff {salt' : Bytes} {iterations' : Int}
    (hsecure : Secure p s old change) (hsalt : s.salt = some salt' ∨ salt' = change.salt)
    (hiterations : s.iterations = some iterations' ∨ iterations' = change.iterations)
    (hencrypted : decryptChunk p encrypted'
      (Derivation.userKey p ⟨change.password, change.salt, change.iterations⟩) = .ok key') :
    KeyReachable p (.complete encrypted'
        (Derivation.verification p ⟨change.password, change.salt, change.iterations⟩) salt'
        iterations') old change.password key ↔
      salt' = change.salt ∧ iterations' = change.iterations ∧ key' = key := by
  have hnew : (⟨change.password, change.salt, change.iterations⟩ : Derivation) ∈
      derivations s old change := by simp [mem_derivations]
  have hpasses {password : String} (hpassword : password = old ∨ password = change.password)
      (hyields : Yields p (.complete encrypted'
        (Derivation.verification p ⟨change.password, change.salt, change.iterations⟩) salt'
        iterations') password key) :
      salt' = change.salt ∧ iterations' = change.iterations ∧ key' = key := by
    obtain ⟨hverify, hopens⟩ := yields_complete_iff.mp hyields
    have hmem : (⟨password, salt', iterations'⟩ : Derivation) ∈ derivations s old change :=
      mem_derivations.mpr ⟨hpassword, hsalt, hiterations⟩
    have hsame := hsecure.verification _ hnew _ hmem hverify
    rw [← hsame, hencrypted] at hopens
    simp only [Derivation.mk.injEq] at hsame
    exact ⟨hsame.2.1.symm, hsame.2.2.symm, Except.ok.inj hopens⟩
  constructor
  · rintro (hold | hchanged)
    · exact hpasses (.inl rfl) hold
    · exact hpasses (.inr rfl) hchanged
  · rintro ⟨rfl, rfl, rfl⟩
    exact .inr (yields_complete_iff.mpr ⟨rfl, hencrypted⟩)

end Cut

theorem encryptionKey_of_right_password {old : String} {key : Bytes} (h : Yields p s old key)
    (hold : change.oldPassword = some old) : change.encryptionKey p s runtimeKey = .ok key := by
  obtain ⟨encrypted, verification, salt, iterations, rfl⟩ := h.exists_complete
  simp only [PasswordChange.encryptionKey, EncryptionSettings.encryptionKeySet,
    EncryptionSettings.complete, hold]
  exact h

theorem exists_wrapped {key : Bytes} (hnonce : change.nonce.length = 12)
    (hsize : key.length < 2 ^ 64) (d : Derivation) :
    ∃ encrypted, encryptChunk p change.nonce key (d.userKey p) = .ok encrypted ∧
      decryptChunk p encrypted (d.userKey p) = .ok key := by
  obtain ⟨encrypted, hencrypted⟩ :
      ∃ encrypted, encryptChunk p change.nonce key (d.userKey p) = .ok encrypted := by
    simp [encryptChunk, getPassword, Except.map]
  exact ⟨encrypted, hencrypted, decryptChunk_of_encryptChunk hnonce hsize hencrypted⟩

/-- A password change that is cut off after `committed` of its commits leaves the primary key
within reach of a password exactly when `Survives` says so. One that completes with the right old
password keeps the key, and what was encrypted under it stays readable. -/
theorem setEncryptionPassword_keeps_key_iff {old : String} {key key' : Bytes}
    (h : Yields p s old key) (hkey : change.encryptionKey p s runtimeKey = .ok key')
    (hsecure : Secure p s old change) (hnonce : change.nonce.length = 12)
    (hsize : key'.length < 2 ^ 64) (committed : Nat) :
    ((∃ s', setEncryptionPassword p s runtimeKey change committed = .ok s' ∧
        KeyReachable p s' old change.password key) ↔
      Survives s old change (key' = key) committed) ∧
    (change.oldPassword = some old → 4 ≤ committed →
      ∃ s', setEncryptionPassword p s runtimeKey change committed = .ok s' ∧
        Yields p s' change.password key ∧
        ∀ nonce chunk encrypted : Bytes, nonce.length = 12 → chunk.length < 2 ^ 64 →
          encryptChunk p nonce chunk key = .ok encrypted →
          decryptChunk p encrypted key = .ok chunk) := by
  obtain ⟨encrypted, verification, salt, iterations, hs⟩ := h.exists_complete
  obtain ⟨encrypted', hencrypted', hopens'⟩ := exists_wrapped (p := p) hnonce hsize
    ⟨change.password, change.salt, change.iterations⟩
  have hsettings (n : Nat) := setEncryptionPassword_eq n hs hkey hencrypted'
  have hsalt : s.salt = some salt := by simp [hs, EncryptionSettings.complete]
  have hiterations : s.iterations = some iterations := by simp [hs, EncryptionSettings.complete]
  constructor
  · rw [hsettings]
    simp only [Except.ok.injEq, exists_eq_left']
    match committed with
    | 0 => exact iff_of_true (.inl h) trivial
    | 1 =>
      simp only [keyReachable_verification_iff hsecure hs h, Survives, hsalt, hiterations,
        Option.some.injEq, eq_comm]
    | 2 =>
      simp only [keyReachable_wrapped_iff hsecure (.inl hsalt) (.inl hiterations) hopens',
        Survives, hsalt, hiterations, Option.some.injEq]
    | 3 =>
      simp only [keyReachable_wrapped_iff hsecure (.inr rfl) (.inl hiterations) hopens',
        Survives, hiterations, Option.some.injEq, true_and]
    | n + 4 =>
      simp only [keyReachable_wrapped_iff hsecure (.inr rfl) (.inr rfl) hopens', Survives,
        true_and]
  · intro hold hcompleted
    obtain ⟨n, rfl⟩ := Nat.exists_eq_add_of_le' hcompleted
    have hsame : key' = key :=
      Except.ok.inj (hkey.symm.trans (encryptionKey_of_right_password h hold))
    refine ⟨_, hsettings (n + 4), yields_complete_iff.mpr ⟨rfl, hsame ▸ hopens'⟩, ?_⟩
    intro nonce chunk encrypted hnonce hsize hencrypted
    exact decryptChunk_of_encryptChunk hnonce hsize hencrypted

/-! ## §4 A change that loses the key -/

/-- A cryptography library for short inputs: every derived byte tells the lengths of password and
salt and the number of iterations, and a tag tells the key. -/
def shortPrimitives : Primitives where
  derive password salt iterations :=
    List.replicate 64 (UInt8.ofNat (password.length + 16 * salt.length + 64 * iterations.toNat))
  gcmEncrypt key _ plaintext := (plaintext, List.replicate 16 (key.headD 0))
  gcmDecrypt key _ sealed :=
    if sealed.2 = List.replicate 16 (key.headD 0) then some sealed.1 else none
  derive_length := by simp
  tag_length := by simp
  decrypt_encrypt := by simp

def storedPrimaryKey : Bytes := List.replicate 32 7

/-- Settings in which the password "test" yields the primary key. -/
def storedSettings : EncryptionSettings :=
  .complete (packQ 32 ++ (List.replicate 12 0 ++ (storedPrimaryKey ++ List.replicate 16 84)))
    (List.replicate 32 84) [1] 1

def changeToNewPassword : PasswordChange where
  password := "new password"
  oldPassword := some "test"
  key := none
  salt := [1, 2]
  iterations := 1
  randomKey := List.replicate 32 9
  nonce := List.replicate 12 3

/-- Behind the first commit of the change neither password yields a key. -/
theorem password_change_loses_key :
    Yields shortPrimitives storedSettings "test" storedPrimaryKey ∧
      ∃ s', setEncryptionPassword shortPrimitives storedSettings none changeToNewPassword 1 =
          .ok s' ∧
        ¬ KeyReachable shortPrimitives s' "test" "new password" storedPrimaryKey := by
  refine ⟨by decide, _, rfl, ?_⟩
  unfold KeyReachable
  decide

/-- The example meets the conditions; the change keeps the key when it stops behind its third
commit. -/
theorem password_change_keeps_key :
    ∃ s', setEncryptionPassword shortPrimitives storedSettings none changeToNewPassword 3 =
        .ok s' ∧
      KeyReachable shortPrimitives s' "test" "new password" storedPrimaryKey := by
  have hyields : Yields shortPrimitives storedSettings "test" storedPrimaryKey := by
    decide
  have hkey : changeToNewPassword.encryptionKey shortPrimitives storedSettings none =
      .ok storedPrimaryKey := by
    decide
  have hsecure : Secure shortPrimitives storedSettings "test" changeToNewPassword :=
    ⟨by decide, by decide, by decide⟩
  exact (setEncryptionPassword_keeps_key_iff hyields hkey hsecure rfl (by decide) 3).1.mpr
    ⟨rfl, rfl⟩

end Ace3.Crypto
