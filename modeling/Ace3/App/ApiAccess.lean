import Ace3.Analysis.Observable
import Ace3.Lib.Separators
import Ace3.Lib.Table
import Ace3.Lib.Trim

/-!
# Access to the API

The keys of `aceapi/auth.py` and the decision of `saq/permissions/logic.py`: which requests a key
admits, and that access which was taken away is gone, whatever administrators do next.
-/

namespace Ace3.App

open List
open Lib

/-! ## §1 Users and keys -/

/-- The functions that are called, and what the collation compares of a text. -/
structure ApiLibrary where
  sha256 : String → String
  lower : String → String
  fnmatchcase : String → String → Bool
  weight : String → String

inductive PermissionEffect where
  | allow
  | deny
  deriving DecidableEq

structure Permission where
  major : String
  minor : String
  effect : PermissionEffect

/-- A row of `auth_api_key` with its rows of `auth_api_key_permission`. -/
structure ApiKey where
  userId : Nat
  keyHash : String
  inheritUserScope : Bool
  scope : List Permission

/-- The users, whether they are enabled, the keys with their unique hashes, and what is granted to a
user and to the groups of a user. -/
structure ApiAccess where
  users : Table Bool
  apiKeys : Table ApiKey
  userPerms : Nat → List Permission
  groupPerms : Nat → List Permission
  key_inj : ∀ row ∈ apiKeys.rows, ∀ row' ∈ apiKeys.rows,
    row.2.keyHash = row'.2.keyHash → row = row'

namespace ApiAccess

variable {lib : ApiLibrary}

section

variable (lib) (s : ApiAccess)

/-! ## §2 What administrators do -/

def deleteKeys (condition : Nat × ApiKey → Bool) : ApiAccess :=
  { s with
    apiKeys := s.apiKeys.deleteWhere condition
    key_inj := fun row hrow row' hrow' => s.key_inj row (Table.mem_rows_deleteWhere.mp hrow).1
      row' (Table.mem_rows_deleteWhere.mp hrow').1 }

/-- Exactly one of `inherit` and a scope is given. No key and no pattern of a scope is there
twice. -/
def createApiKey (userId : Nat) (inherit : Bool) (scope : List (String × String))
    (apiKey : String) : ApiAccess :=
  if h : inherit = !scope.isEmpty ∨ ¬ s.users.hasId userId ∨
      ¬ (scope.map fun p => (lib.weight p.1, lib.weight p.2)).Nodup ∨
      ∃ row ∈ s.apiKeys.rows, row.2.keyHash = lib.sha256 apiKey then s
  else
    { s with
      apiKeys := s.apiKeys.insert
        ⟨userId, lib.sha256 apiKey, inherit, scope.map fun p => ⟨p.1, p.2, .allow⟩⟩
      key_inj := by
        have hnew : ∀ row ∈ s.apiKeys.rows, row.2.keyHash ≠ lib.sha256 apiKey :=
          fun row hrow hhash => h (.inr (.inr (.inr ⟨row, hrow, hhash⟩)))
        intro row hrow row' hrow' hhash
        rcases Table.mem_rows_insert.mp hrow with hrow | rfl <;>
          rcases Table.mem_rows_insert.mp hrow' with hrow' | rfl
        · exact s.key_inj row hrow row' hrow' hhash
        · exact absurd hhash (hnew row hrow)
        · exact absurd hhash.symm (hnew row' hrow')
        · rfl }

inductive AccessEvent where
  | addUser
  | deleteUser (userId : Nat)
  | setEnabled (userId : Nat) (enabled : Bool)
  /-- Grants and groups are changed, whatever to. -/
  | grant (userPerms groupPerms : Nat → List Permission)
  | createApiKey (userId : Nat) (inherit : Bool) (scope : List (String × String))
      (apiKey : String)
  | revokeApiKey (keyId : Nat)

def step : AccessEvent → ApiAccess
  | .addUser => { s with users := s.users.insert true }
  | .deleteUser userId =>
    { s.deleteKeys (·.2.userId = userId) with users := s.users.deleteWhere (·.1 = userId) }
  | .setEnabled userId enabled =>
    { s with users := s.users.updateWhere (·.1 = userId) fun _ => enabled }
  | .grant userPerms groupPerms => { s with userPerms, groupPerms }
  | .createApiKey userId inherit scope apiKey => s.createApiKey lib userId inherit scope apiKey
  | .revokeApiKey keyId => s.deleteKeys (·.1 = keyId)

/-! ## §3 The check of a request -/

def matchedEffects (perms : List Permission) (major minor : String) : List PermissionEffect :=
  (perms.filter fun p => lib.fnmatchcase major p.major && lib.fnmatchcase minor p.minor).map
    (·.effect)

def evaluatePermission (userPerms groupPerms : List Permission) (major minor : String) : Bool :=
  let effects := matchedEffects lib userPerms major minor ++
    matchedEffects lib groupPerms major minor
  if effects = [] then false
  else if .deny ∈ effects then false
  else .allow ∈ effects

structure ConfigApiKey where
  key : String
  /-- `none` for an entry that is a bare string. -/
  scope : Option (List String)

structure ApiAuthResult where
  /-- The owner of the key, `none` for a key of the configuration. -/
  authUserId : Option Nat
  keyScope : Option (List (String × String))

def strip (text : List Char) : String :=
  .ofList (Trim.trimEnds Analysis.isSpace Analysis.isSpace text)

def parsePermissionPattern (spec : String) : String × String :=
  let (major, rest) := Lib.partition ':' spec.toList
  let minor := strip (rest.getD [])
  (strip major, if minor = "" then "*" else minor)

def matchConfigApiKey (apikeys : List ConfigApiKey) (presented : String) : Option ApiAuthResult :=
  (apikeys.find? fun entry => presented = lib.lower (strip entry.key.toList)).map fun entry =>
    ⟨none, entry.scope.map (·.map parsePermissionPattern)⟩

def ApiKey.result (key : ApiKey) : ApiAuthResult where
  authUserId := some key.userId
  keyScope := if key.inheritUserScope then none
    else some ((key.scope.filter (·.effect = .allow)).map fun p => (p.major, p.minor))

def getUserApiKeyMatch (presented : String) : Option ApiAuthResult :=
  match s.apiKeys.rows.find? (·.2.keyHash = presented) with
  | none => none
  | some (_, key) => if (key.userId, true) ∈ s.users.rows then some (ApiKey.result key) else none

def verifyApiKey (apikeys : List ConfigApiKey) (auth : String) : Option ApiAuthResult :=
  if auth = "" then none
  else
    let presented := lib.lower (lib.sha256 auth)
    (matchConfigApiKey lib apikeys presented).or (s.getUserApiKeyMatch presented)

def keyScopeAllows (scope : List (String × String)) (major minor : String) : Bool :=
  scope.any fun p => lib.fnmatchcase major p.1 && lib.fnmatchcase minor p.2

def apiAuthCheck (apikeys : List ConfigApiKey) (auth major minor : String) : Bool :=
  match s.verifyApiKey lib apikeys auth with
  | none => false
  | some result =>
    (result.authUserId.all fun userId =>
      evaluatePermission lib (s.userPerms userId) (s.groupPerms userId) major minor) &&
      result.keyScope.all (keyScopeAllows lib · major minor)

end

variable {s : ApiAccess} {major minor : String}

/-! ## §4 What is admitted -/

variable (lib) in
/-- A pattern with this effect matches. -/
def Matches (perms : List Permission) (major minor : String) (effect : PermissionEffect) : Prop :=
  ∃ p ∈ perms, p.effect = effect ∧ lib.fnmatchcase major p.major ∧ lib.fnmatchcase minor p.minor

theorem evaluatePermission_iff {userPerms groupPerms : List Permission} :
    evaluatePermission lib userPerms groupPerms major minor ↔
      Matches lib (userPerms ++ groupPerms) major minor .allow ∧
        ¬ Matches lib (userPerms ++ groupPerms) major minor .deny := by
  have heffects : ∀ effect, effect ∈ matchedEffects lib userPerms major minor ++
      matchedEffects lib groupPerms major minor ↔
        Matches lib (userPerms ++ groupPerms) major minor effect := by
    simp only [matchedEffects, Matches, mem_append, mem_map, mem_filter, Bool.and_eq_true]
    grind
  simp only [evaluatePermission, ← heffects]
  grind

theorem getUserApiKeyMatch_eq_some_iff {presented : String} {result : ApiAuthResult} :
    s.getUserApiKeyMatch presented = some result ↔ ∃ row ∈ s.apiKeys.rows,
      row.2.keyHash = presented ∧ (row.2.userId, true) ∈ s.users.rows ∧
        ApiKey.result row.2 = result := by
  unfold getUserApiKeyMatch
  cases hfind : s.apiKeys.rows.find? (·.2.keyHash = presented) with
  | none =>
    simp only [reduceCtorEq, false_iff]
    rintro ⟨row, hrow, hhash, -⟩
    exact find?_eq_none.mp hfind row hrow (decide_eq_true hhash)
  | some found =>
    have hfound := mem_of_find?_eq_some hfind
    have hhash : found.2.keyHash = presented := by simpa using find?_some hfind
    simp only [Option.ite_none_right_eq_some, Option.some.injEq]
    constructor
    · exact fun h => ⟨found, hfound, hhash, h⟩
    · rintro ⟨row, hrow, hsame, h⟩
      obtain rfl := s.key_inj row hrow found hfound (hsame.trans hhash.symm)
      exact h

/-- A key that is none of the configuration admits a request exactly when it is there, its owner is
enabled, an ALLOW and no DENY granted to the owner or to a group of the owner matches, and the scope
of the key allows it. -/
theorem apiAuthCheck_iff {apikeys : List ConfigApiKey} {auth : String} (hauth : auth ≠ "")
    (hconfig : matchConfigApiKey lib apikeys (lib.lower (lib.sha256 auth)) = none)
    (s : ApiAccess) (major minor : String) :
    s.apiAuthCheck lib apikeys auth major minor ↔
      ∃ row ∈ s.apiKeys.rows, row.2.keyHash = lib.lower (lib.sha256 auth) ∧
        (row.2.userId, true) ∈ s.users.rows ∧
        (Matches lib (s.userPerms row.2.userId ++ s.groupPerms row.2.userId) major minor .allow ∧
          ¬ Matches lib (s.userPerms row.2.userId ++ s.groupPerms row.2.userId) major minor .deny) ∧
        (row.2.inheritUserScope ∨ Matches lib row.2.scope major minor .allow) := by
  have hscope : ∀ key : ApiKey,
      (ApiKey.result key).keyScope.all (keyScopeAllows lib · major minor) = true ↔
        key.inheritUserScope ∨ Matches lib key.scope major minor .allow := by
    intro key
    cases h : key.inheritUserScope <;> simp [ApiKey.result, keyScopeAllows, Matches, h]
  simp only [apiAuthCheck, verifyApiKey, if_neg hauth, hconfig, Option.none_or]
  constructor
  · intro h
    split at h
    · cases h
    next result hresult =>
      obtain ⟨row, hrow, hhash, henabled, rfl⟩ := getUserApiKeyMatch_eq_some_iff.mp hresult
      obtain ⟨hallowed, hallows⟩ := Bool.and_eq_true_iff.mp h
      exact ⟨row, hrow, hhash, henabled, evaluatePermission_iff.mp hallowed,
        (hscope row.2).mp hallows⟩
  · rintro ⟨row, hrow, hhash, henabled, hallowed, hallows⟩
    rw [getUserApiKeyMatch_eq_some_iff.mpr ⟨row, hrow, hhash, henabled, rfl⟩]
    exact Bool.and_eq_true_iff.mpr
      ⟨evaluatePermission_iff.mpr hallowed, (hscope row.2).mpr hallows⟩

def plainLibrary : ApiLibrary :=
  ⟨id, id, fun value pattern => pattern = value || pattern = "*", id⟩

/-- A user who may do everything with alerts, and a key that inherits it. -/
def keyed : ApiAccess where
  users := Table.empty.insert true
  apiKeys := Table.empty.insert ⟨1, "uuid", true, []⟩
  userPerms _ := [⟨"alert", "*", .allow⟩]
  groupPerms _ := []
  key_inj := by simp [Table.empty]

theorem mem_keyed : (1, (⟨1, "uuid", true, []⟩ : ApiKey)) ∈ keyed.apiKeys.rows := .head _

theorem key_reads_alerts : keyed.apiAuthCheck plainLibrary [] "uuid" "alert" "read" = true :=
  (apiAuthCheck_iff (by decide) rfl keyed "alert" "read").mpr ⟨_, mem_keyed, rfl, by decide,
    ⟨⟨_, .head _, rfl, by decide, by decide⟩, by simp [Matches, keyed]⟩, .inl rfl⟩

/-! ## §5 Access that was taken away -/

variable (lib) in
/-- A key with this hash is created. -/
def AccessEvent.Creates (keyHash : String) (e : AccessEvent) : Prop :=
  ∃ userId inherit scope apiKey, e = .createApiKey userId inherit scope apiKey ∧
    lib.sha256 apiKey = keyHash

def Lacks (keyHash : String) (s : ApiAccess) : Prop :=
  ∀ row ∈ s.apiKeys.rows, row.2.keyHash ≠ keyHash

theorem Lacks.step {keyHash : String} {e : AccessEvent} (h : s.Lacks keyHash)
    (he : ¬ e.Creates lib keyHash) : (s.step lib e).Lacks keyHash := by
  cases e with
  | deleteUser userId => exact fun row hrow => h row (Table.mem_rows_deleteWhere.mp hrow).1
  | revokeApiKey keyId => exact fun row hrow => h row (Table.mem_rows_deleteWhere.mp hrow).1
  | createApiKey userId inherit scope apiKey =>
    simp only [ApiAccess.step, createApiKey]
    split
    · exact h
    · intro row hrow
      rcases Table.mem_rows_insert.mp hrow with hold | rfl
      · exact h row hold
      · exact fun hhash => he ⟨_, _, _, _, rfl, hhash⟩
  | _ => exact h

/-- A key that was revoked authenticates nobody, whatever happens later, unless the same key is
created again or is in the configuration. -/
theorem revoked_key_is_refused {keyId : Nat} {key : ApiKey} (hkey : (keyId, key) ∈ s.apiKeys.rows)
    (events : List AccessEvent) (hevents : ∀ e ∈ events, ¬ e.Creates lib key.keyHash)
    (apikeys : List ConfigApiKey) (hconfig : matchConfigApiKey lib apikeys key.keyHash = none)
    {auth : String} (hauth : lib.lower (lib.sha256 auth) = key.keyHash) :
    (events.foldl (step lib) (s.step lib (.revokeApiKey keyId))).verifyApiKey lib apikeys auth =
      none := by
  have hlacks : (events.foldl (step lib) (s.step lib (.revokeApiKey keyId))).Lacks key.keyHash := by
    apply List.foldlRecOn events (step lib)
    · intro row hrow hhash
      obtain ⟨hrow, hother⟩ := Table.mem_rows_deleteWhere.mp hrow
      obtain rfl := s.key_inj row hrow _ hkey hhash
      exact hother (decide_eq_true rfl)
    · exact fun _ h e he => h.step (hevents e he)
  unfold verifyApiKey
  split
  · rfl
  · simp only [hauth, hconfig, Option.none_or]
    rw [Option.eq_none_iff_forall_ne_some]
    intro result hresult
    obtain ⟨row, hrow, hhash, -⟩ := getUserApiKeyMatch_eq_some_iff.mp hresult
    exact hlacks row hrow hhash

theorem revoked_uuid_is_refused : ([.addUser].foldl (step plainLibrary)
    (keyed.step plainLibrary (.revokeApiKey 1))).verifyApiKey plainLibrary [] "uuid" = none :=
  revoked_key_is_refused mem_keyed [.addUser] (by simp [AccessEvent.Creates]) [] rfl rfl

/-- The user is disabled or deleted. -/
def Out (userId : Nat) (s : ApiAccess) : Prop :=
  userId < s.users.nextId ∧ (userId, true) ∉ s.users.rows

theorem Out.step {userId : Nat} {e : AccessEvent} (h : s.Out userId)
    (he : e ≠ .setEnabled userId true) : (s.step lib e).Out userId := by
  cases e with
  | addUser =>
    refine ⟨Nat.lt_succ_of_lt h.1, fun hrow => ?_⟩
    rcases Table.mem_rows_insert.mp hrow with hold | hnew
    · exact h.2 hold
    · exact absurd (congrArg Prod.fst hnew) (Nat.ne_of_lt h.1)
  | deleteUser other => exact ⟨h.1, fun hrow => h.2 (Table.mem_rows_deleteWhere.mp hrow).1⟩
  | setEnabled other enabled =>
    refine ⟨h.1, fun hrow => ?_⟩
    obtain ⟨⟨id, old⟩, hold, hset⟩ := Table.mem_rows_updateWhere.mp hrow
    unfold Table.updateRow at hset
    split at hset
    next hsame =>
      obtain ⟨rfl, rfl⟩ := Prod.mk.inj hset
      exact he (by rw [of_decide_eq_true hsame])
    · exact h.2 (hset ▸ hold)
  | createApiKey other inherit scope apiKey =>
    simp only [ApiAccess.step, createApiKey]
    split <;> exact h
  | _ => exact h

/-- No key acts for a user who is disabled or deleted, whatever happens before the user is enabled
again. -/
theorem no_key_of_disabled_user {userId : Nat} (h : s.Out userId) (events : List AccessEvent)
    (hevents : .setEnabled userId true ∉ events) (apikeys : List ConfigApiKey) (auth : String) :
    ((events.foldl (step lib) s).verifyApiKey lib apikeys auth).bind (·.authUserId) ≠
      some userId := by
  have hout : (events.foldl (step lib) s).Out userId := by
    apply List.foldlRecOn events (step lib)
    · exact h
    · exact fun _ h e he => h.step fun heq => hevents (heq ▸ he)
  intro h
  obtain ⟨result, hresult, huser⟩ := Option.bind_eq_some_iff.mp h
  simp only [verifyApiKey] at hresult
  split at hresult
  · cases hresult
  rcases Option.or_eq_some_iff.mp hresult with hconfig | ⟨-, hkey⟩
  · obtain ⟨entry, -, rfl⟩ := Option.map_eq_some_iff.mp hconfig
    cases huser
  · obtain ⟨row, -, -, henabled, rfl⟩ := getUserApiKeyMatch_eq_some_iff.mp hkey
    obtain rfl := Option.some.inj huser
    exact hout.2 henabled

theorem disabled_user_is_refused : (([.addUser].foldl (step plainLibrary)
    (keyed.step plainLibrary (.setEnabled 1 false))).verifyApiKey plainLibrary [] "uuid").bind
      (·.authUserId) ≠ some 1 :=
  no_key_of_disabled_user ⟨by decide, by decide⟩ [.addUser] (by simp) [] "uuid"

end ApiAccess

end Ace3.App
