import Ace3.Export.ObservableExport
import Ace3.Lib.OrderedDict
import Ace3.Observables.ObservableValues

/-!
# The Table of Detections

The detections that analysts create (`saq/database/util/observable_detection.py`) and the table
`observable_detections` (`saq/database/model.py`). Contexts, users and batches of a row are left
out.
-/

namespace Ace3.Observables

open List Function
open Lib

/-! ## §1 Identities -/

/-- The white space that `bytes.fromhex` skips. -/
def isAsciiSpace (c : Char) : Bool := c = ' ' || (0x09 ≤ c.toNat && c.toNat ≤ 0x0D)

def hexValue (c : Char) : ℕ :=
  if c.isDigit then c.toNat - '0'.toNat
  else if 'a' ≤ c then c.toNat - 'a'.toNat + 10
  else c.toNat - 'A'.toNat + 10

/-- `bytes.fromhex`: white space may stand between the bytes. -/
def fromhex : Text → Option (List ℕ)
  | [] => some []
  | [c] => if isAsciiSpace c then some [] else none
  | c :: d :: rest =>
    if isAsciiSpace c then fromhex (d :: rest)
    else if isHex c && isHex d then (fromhex rest).map ((16 * hexValue c + hexValue d) :: ·)
    else none

/-- What the functions rely on besides the libraries of the observable classes. -/
structure DetectionSettings where
  libs : Libraries
  /-- The digest of `hashlib.sha256`, which does not collide. -/
  sha256 : Text → List ℕ
  sha256_injective : Injective sha256
  /-- What the collation of the column `type` compares of a type. -/
  collate : String → String

def maxDetectionValueLength : ℕ := 4096

/-- The length of the column `type`. -/
def maxTypeLength : ℕ := 64

inductive InvalidDetection where
  /-- The constructor raises. -/
  | raises
  /-- `create_observable` returns `None`. -/
  | notValid
  | tooLong (length : ℕ)
  | notHex
  | notSha256
  /-- The type does not fit into its column. -/
  | dataError
  deriving DecidableEq

variable (settings : DetectionSettings)

/-- `Observable.sha256_bytes`: a file observable has its digest as value. -/
def DetectionSettings.sha256Bytes (type : String) (value : Text) : Option (List ℕ) :=
  if type = "file" then fromhex value else some (settings.sha256 value)

structure DetectionIdentity where
  type : String
  value : Text
  valueSha256 : List ℕ
  hashed : settings.sha256Bytes type value = some valueSha256

def fileDetectionIdentity (observableValue : Text) :
    Except InvalidDetection (DetectionIdentity settings) :=
  let value := settings.libs.lowering.lower (strip observableValue)
  match hvalue : fromhex value with
  | none => .error .notHex
  | some valueSha256 =>
    if valueSha256.length ≠ 32 then .error .notSha256
    else .ok ⟨"file", value, valueSha256, by rw [DetectionSettings.sha256Bytes, if_pos rfl, hvalue]⟩

def identityFromObservable (observable : CreatedObservable) :
    Except InvalidDetection (DetectionIdentity settings) :=
  if maxDetectionValueLength < observable.value.length then
    .error (.tooLong observable.value.length)
  else
    match hhash : settings.sha256Bytes observable.type observable.value with
    | none => .error .notHex
    | some valueSha256 => .ok ⟨observable.type, observable.value, valueSha256, hhash⟩

def resolveDetectionIdentity (observableType : String) (observableValue : Text) :
    Except InvalidDetection (DetectionIdentity settings) :=
  if observableType = "file" then fileDetectionIdentity settings observableValue
  else
    match createObservable settings.libs observableType observableValue with
    | .error _ => .error .raises
    | .ok none => .error .notValid
    | .ok (some observable) => identityFromObservable settings observable

/-! ## §2 The table -/

/-- A row of `observable_detections`. -/
structure DetectionRow where
  id : ℕ
  type : String
  value : Text
  valueSha256 : List ℕ
  expiresOn : Option ℕ
  deriving DecidableEq

/-- What `uq_obs_det_type_sha256` is about. -/
def DetectionSettings.key (type : String) (valueSha256 : List ℕ) : String × List ℕ :=
  (settings.collate type, valueSha256)

/-- The filter of `get_active_detections_by_type`. -/
def DetectionRow.active (now : ℕ) (row : DetectionRow) : Bool :=
  match row.expiresOn with
  | none => true
  | some expiresOn => now < expiresOn

/-- The table: ids are assigned in order, hashes belong to their values, and the constraint
`uq_obs_det_type_sha256` holds. -/
structure DetectionTable where
  rows : List DetectionRow
  nextId : ℕ
  id_lt : ∀ row ∈ rows, row.id < nextId
  ids : (rows.map (·.id)).Nodup
  hashed : ∀ row ∈ rows, settings.sha256Bytes row.type row.value = some row.valueSha256
  keys : (rows.map fun row => settings.key row.type row.valueSha256).Nodup

namespace DetectionTable

variable {settings} (table : DetectionTable settings)

def empty : DetectionTable settings :=
  ⟨[], 1, fun _ h => absurd h not_mem_nil, nodup_nil,
    fun _ h => absurd h not_mem_nil, nodup_nil⟩

/-- `get_observable_detection`. -/
def find (type : String) (valueSha256 : List ℕ) : Option DetectionRow :=
  table.rows.find? fun row =>
    settings.key row.type row.valueSha256 = settings.key type valueSha256

theorem key_notMem_of_find_eq_none {type : String} {valueSha256 : List ℕ}
    (h : table.find type valueSha256 = none) : settings.key type valueSha256 ∉
      table.rows.map fun row => settings.key row.type row.valueSha256 := by
  intro hmem
  obtain ⟨row, hrow, hkey⟩ := mem_map.mp hmem
  have := List.find?_eq_none.mp h row hrow
  simp [hkey] at this

/-- `db.add` of a row with the next id, when there is none with its identity. -/
def insert (identity : DetectionIdentity settings) (expiresOn : Option ℕ)
    (hnew : table.find identity.type identity.valueSha256 = none) : DetectionTable settings where
  rows := table.rows ++
    [⟨table.nextId, identity.type, identity.value, identity.valueSha256, expiresOn⟩]
  nextId := table.nextId + 1
  id_lt row hrow := by
    rcases mem_append.mp hrow with hrow | hrow
    · exact Nat.lt_succ_of_lt (table.id_lt row hrow)
    · rw [mem_singleton.mp hrow]
      exact Nat.lt_succ_self _
  ids := by
    rw [map_append, nodup_append_comm, map_singleton, singleton_append,
      nodup_cons]
    refine ⟨fun hmem => ?_, table.ids⟩
    obtain ⟨row, hrow, hid⟩ := mem_map.mp hmem
    exact absurd (table.id_lt row hrow) (Nat.not_lt_of_ge (Nat.le_of_eq hid.symm))
  hashed row hrow := by
    rcases mem_append.mp hrow with hrow | hrow
    · exact table.hashed row hrow
    · rw [mem_singleton.mp hrow]
      exact identity.hashed
  keys := by
    rw [map_append, nodup_append_comm, map_singleton, singleton_append,
      nodup_cons]
    exact ⟨table.key_notMem_of_find_eq_none hnew, table.keys⟩

def expireRow (id : ℕ) (expiresOn : Option ℕ) (row : DetectionRow) : DetectionRow :=
  if row.id = id then { row with expiresOn } else row

@[simp] theorem expireRow_id (id : ℕ) (expiresOn : Option ℕ) (row : DetectionRow) :
    (expireRow id expiresOn row).id = row.id := by
  unfold expireRow
  split <;> rfl

@[simp] theorem expireRow_type (id : ℕ) (expiresOn : Option ℕ) (row : DetectionRow) :
    (expireRow id expiresOn row).type = row.type := by
  unfold expireRow
  split <;> rfl

@[simp] theorem expireRow_value (id : ℕ) (expiresOn : Option ℕ) (row : DetectionRow) :
    (expireRow id expiresOn row).value = row.value := by
  unfold expireRow
  split <;> rfl

@[simp] theorem expireRow_valueSha256 (id : ℕ) (expiresOn : Option ℕ) (row : DetectionRow) :
    (expireRow id expiresOn row).valueSha256 = row.valueSha256 := by
  unfold expireRow
  split <;> rfl

def setExpiration (id : ℕ) (expiresOn : Option ℕ) : DetectionTable settings where
  rows := table.rows.map (expireRow id expiresOn)
  nextId := table.nextId
  id_lt row hrow := by
    obtain ⟨old, hold, rfl⟩ := mem_map.mp hrow
    simpa using table.id_lt old hold
  ids := by simpa [comp_def] using table.ids
  hashed row hrow := by
    obtain ⟨old, hold, rfl⟩ := mem_map.mp hrow
    simpa using table.hashed old hold
  keys := by simpa [comp_def] using table.keys

def delete (selects : DetectionRow → Bool) : DetectionTable settings where
  rows := table.rows.filter (!selects ·)
  nextId := table.nextId
  id_lt row hrow := table.id_lt row (mem_of_mem_filter hrow)
  ids := table.ids.sublist (filter_sublist.map _)
  hashed row hrow := table.hashed row (mem_of_mem_filter hrow)
  keys := table.keys.sublist (filter_sublist.map _)

/-! ## §3 The functions of the module -/

/-- `_upsert`: an existing row keeps its value, and its expiration unless another is given. -/
def upsert (identity : DetectionIdentity settings) (defaultExpiration expiresOn : Option ℕ) :
    Except InvalidDetection (DetectionRow × DetectionTable settings) :=
  match hfound : table.find identity.type identity.valueSha256 with
  | some row =>
    match expiresOn with
    | none => .ok (row, table)
    | some _ => .ok (expireRow row.id expiresOn row, table.setExpiration row.id expiresOn)
  | none =>
    if maxTypeLength < identity.type.length then .error .dataError
    else
      let expiresOn := expiresOn.or defaultExpiration
      .ok (⟨table.nextId, identity.type, identity.value, identity.valueSha256, expiresOn⟩,
        table.insert identity expiresOn hfound)

def createObservableDetection (observableType : String) (observableValue : Text)
    (defaultExpiration expiresOn : Option ℕ) :
    Except InvalidDetection (DetectionRow × DetectionTable settings) := do
  let identity ← resolveDetectionIdentity settings observableType observableValue
  table.upsert identity defaultExpiration expiresOn

def enableObservableDetection (observable : CreatedObservable) (defaultExpiration : Option ℕ) :
    Except InvalidDetection (DetectionRow × DetectionTable settings) := do
  let identity ← identityFromObservable settings observable
  table.upsert identity defaultExpiration none

def disableObservableDetection (observable : CreatedObservable) :
    Except InvalidDetection (DetectionTable settings) := do
  let identity ← identityFromObservable settings observable
  return table.delete fun row =>
    settings.key row.type row.valueSha256 = settings.key identity.type identity.valueSha256

def deleteObservableDetection (detectionId : ℕ) : DetectionTable settings :=
  table.delete fun row => row.id = detectionId

def setObservableDetectionExpiration (detectionId : ℕ) (expiresOn : Option ℕ) :
    DetectionTable settings :=
  table.setExpiration detectionId expiresOn

def getActiveDetectionsByType (now : ℕ) : Export.Detections :=
  let detectionsByType : OrderedDict String (List (ℕ × String)) :=
    (table.rows.filter (·.active now)).foldl
      (fun detections row => detections.set row.type
        ((detections.get? row.type).getD [] ++ [(row.id, String.ofList row.value)]))
      .empty
  detectionsByType.items

end DetectionTable

/-- A call of one of the functions that write the table. -/
inductive DetectionOperation where
  | create (observableType : String) (observableValue : Text)
      (defaultExpiration expiresOn : Option ℕ)
  | enable (observable : CreatedObservable) (defaultExpiration : Option ℕ)
  | disable (observable : CreatedObservable)
  | delete (detectionId : ℕ)
  | setExpiration (detectionId : ℕ) (expiresOn : Option ℕ)
  deriving DecidableEq

/-- The table after a call; one that raises leaves it as it is. -/
def DetectionTable.apply {settings : DetectionSettings} (table : DetectionTable settings) :
    DetectionOperation → DetectionTable settings
  | .create observableType observableValue defaultExpiration expiresOn =>
    match table.createObservableDetection observableType observableValue defaultExpiration
      expiresOn with
    | .ok (_, after) => after
    | .error _ => table
  | .enable observable defaultExpiration =>
    match table.enableObservableDetection observable defaultExpiration with
    | .ok (_, after) => after
    | .error _ => table
  | .disable observable =>
    match table.disableObservableDetection observable with
    | .ok after => after
    | .error _ => table
  | .delete detectionId => table.deleteObservableDetection detectionId
  | .setExpiration detectionId expiresOn =>
    table.setObservableDetectionExpiration detectionId expiresOn

end Ace3.Observables
