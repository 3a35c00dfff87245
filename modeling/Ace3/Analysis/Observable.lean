import Mathlib.Data.List.Nodup

/-!
# Observables

The nodes of the analysis tree (`saq/analysis/observable.py`, `saq/analysis/base_node.py`,
`saq/analysis/detection_point.py`, `saq/analysis/relationship.py`, `saq/observables/file.py`) with
the fields that a module execution may change and the methods that change them.

What the tree uses of the classes in `OBSERVABLE_TYPE_MAPPING` is a parameter, as are the settings
and the file manager.
-/

namespace Ace3.Analysis

open List

/-! ## §1 Values -/

/-- A value that `uuid4()` returned: the number of the root it was drawn for, and the draw.
Distinct draws are distinct. -/
structure NodeUuid where
  root : Nat
  draw : Nat
  deriving DecidableEq

abbrev ObservableType := String

def fFile : ObservableType := "file"

/-- The time of an observable: the string it was constructed with, or a datetime. -/
inductive ObservableTime where
  | text (s : String)
  | datetime (microseconds : Int)
  deriving DecidableEq

/-- The details of a detection point or an analysis: nothing, a string, or anything else, which
is told apart by its `str()`. -/
inductive Details where
  | none
  | text (s : String)
  | object (repr : String)
  deriving DecidableEq

/-- Python's `str()`. -/
def Details.str : Details → String
  | none => "None"
  | text s => s
  | object repr => repr

/-- The characters that Python's `str.isspace` accepts. -/
def isSpace (c : Char) : Bool :=
  (0x09 ≤ c.toNat ∧ c.toNat ≤ 0x0D) ∨ (0x1C ≤ c.toNat ∧ c.toNat ≤ 0x20) ∨ c.toNat = 0x85 ∨
    c.toNat = 0xA0 ∨ c.toNat = 0x1680 ∨ (0x2000 ≤ c.toNat ∧ c.toNat ≤ 0x200A) ∨
    c.toNat = 0x2028 ∨ c.toNat = 0x2029 ∨ c.toNat = 0x202F ∨ c.toNat = 0x205F ∨ c.toNat = 0x3000

/-- `not value.strip()`. -/
def isBlank (value : String) : Bool :=
  value.toList.all isSpace

structure Runtime where
  /-- The value that the class of a type gives an observable, unless it raises
  `ObservableValueError`. -/
  construct : ObservableType → String → Option String
  /-- `_compare_value` compares these: the values themselves, or their caseless forms. -/
  compareKey : ObservableType → String → String
  /-- `parse_event_time`, unless it raises. -/
  parseEventTime : String → Option ObservableTime
  /-- `observable_limits`. -/
  observableLimits : ObservableType → Option Nat
  /-- Whether the blob store holds the content with this sha256. -/
  hasBlob : String → Bool
  /-- `store_file` on a staged blob with this sha256 and a target path: the sha256 and the
  relative path of the stored file, unless it raises. -/
  storeFile : String → Option String → Option (String × String)
  /-- Whether the class of an analysis can be imported. -/
  canImport : String → Bool
  /-- `get_builtin_signature_version()`. -/
  builtinSignatureVersion : String

/-! ## §2 Detection points and relationships -/

def builtinSignatureUuid : String := "87fe1a4a-0e60-4e3b-b712-da9d3db12fa7"

structure DetectionPoint where
  description : String
  details : Details
  queue : Option String
  signatureUuid : String
  signatureVersion : String
  deriving DecidableEq

/-- `DetectionPoint.json` as a delta holds it; a key that is missing reads as `None`. -/
structure DetectionDict where
  description : Option String
  details : Details
  queue : Option String
  signatureUuid : Option String
  signatureVersion : Option String
  deriving DecidableEq

/-- `value or default` for strings. -/
def orDefault (value : Option String) (default : String) : String :=
  match value with
  | none => default
  | some s => if s = "" then default else s

/-- `DetectionPoint.__init__`. -/
def DetectionPoint.new (rt : Runtime) (description : String) (details : Details)
    (queue signatureUuid signatureVersion : Option String) : DetectionPoint where
  description := description
  details := details
  queue := queue
  signatureUuid := orDefault signatureUuid builtinSignatureUuid
  signatureVersion := orDefault signatureVersion rt.builtinSignatureVersion

def DetectionPoint.json (detection : DetectionPoint) : DetectionDict where
  description := some detection.description
  details := detection.details
  queue := detection.queue
  signatureUuid := some detection.signatureUuid
  signatureVersion := some detection.signatureVersion

def validRelationshipTypes : List String :=
  ["related_to", "downloaded_from", "executed_on", "extracted_from", "is_hash_of", "logged_into",
    "redirected_from"]

/-- A relationship to the observable with the uuid `target`. -/
structure Relationship where
  rType : String
  target : NodeUuid
  deriving DecidableEq

/-! ## §3 Analysis objects -/

/-- `MODULE_PATH`: the module and class of an analysis, and the instance of its module. -/
structure AnalysisPath where
  classPath : String
  inst : Option String
  deriving DecidableEq

structure SummaryDetail where
  id : String
  header : Option String
  content : Option String
  format : Option String
  deriving DecidableEq

/-- An `Analysis` on an observable. -/
structure AnalysisObject where
  modulePath : AnalysisPath
  summary : Option String
  summaryDetails : List SummaryDetail
  completed : Bool
  delayed : Bool
  tags : List String
  details : Details
  /-- The uuids of its `_observables`. -/
  observables : List NodeUuid
  deriving DecidableEq

/-! ## §4 Observables -/

/-- What an observable is recorded under, which no method of it changes. A `FileObservable` is
one of type `F_FILE`; it has a file path. -/
structure ObservableIdentity where
  uuid : NodeUuid
  type : ObservableType
  value : String
  time : Option ObservableTime
  filePath : Option String
  deriving DecidableEq

structure Observable extends ObservableIdentity where
  volatile : Bool
  tags : List String
  detections : List DetectionPoint
  directives : List String
  relationships : List Relationship
  limitedAnalysis : List String
  excludedAnalysis : List String
  groupingTarget : Bool
  redirection : Option NodeUuid
  ignored : Bool
  /-- `_analysis`: none stands for `False`, no analysis was generated. -/
  analysis : List (AnalysisPath × Option AnalysisObject)
  deriving DecidableEq

def addNew {α : Type*} [DecidableEq α] (items : List α) (item : α) : List α :=
  if item ∈ items then items else items ++ [item]

theorem mem_addNew {α : Type*} [DecidableEq α] {items : List α} {item item' : α} :
    item' ∈ addNew items item ↔ item' ∈ items ∨ item' = item := by
  unfold addNew
  split
  next h =>
    refine ⟨.inl, ?_⟩
    rintro (h' | rfl)
    · exact h'
    · exact h
  next => simp

theorem mem_foldl_addNew {α : Type*} [DecidableEq α] {items : List α} (added : List α) {item : α} :
    item ∈ added.foldl addNew items ↔ item ∈ items ∨ item ∈ added := by
  induction added generalizing items with
  | nil => simp
  | cons first added ih => simp only [foldl_cons, ih, mem_addNew, mem_cons, or_assoc]

theorem nodup_foldl_addNew {α : Type*} [DecidableEq α] {items : List α} (added : List α)
    (h : items.Nodup) : (added.foldl addNew items).Nodup := by
  induction added generalizing items with
  | nil => exact h
  | cons a added ih =>
    apply ih
    unfold addNew
    split
    · exact h
    · next hnew =>
      exact nodup_append.mpr ⟨h, nodup_singleton a, fun x hx y hy hxy =>
        hnew (mem_singleton.mp hy ▸ hxy ▸ hx)⟩

namespace ObservableIdentity

/-- The comparison of `Observable.__eq__` after the uuids: type, time and `_compare_value`. -/
def matchesSpec (rt : Runtime) (o : ObservableIdentity) (type : ObservableType) (value : String)
    (time : Option ObservableTime) : Bool :=
  type = o.type ∧ o.time = time ∧ rt.compareKey o.type o.value = rt.compareKey o.type value

/-- `o == other`: two files are equal when content and path are, and a file equals nothing
else. -/
def eq (rt : Runtime) (o other : ObservableIdentity) : Bool :=
  if o.type = fFile then
    other.type = fFile ∧ o.value = other.value ∧ o.filePath = other.filePath
  else other.uuid = o.uuid ∨ o.matchesSpec rt other.type other.value other.time

end ObservableIdentity

namespace Observable

def new (identity : ObservableIdentity) (volatile : Bool) : Observable where
  toObservableIdentity := identity
  volatile := volatile
  tags := []
  detections := []
  directives := []
  relationships := []
  limitedAnalysis := []
  excludedAnalysis := []
  groupingTarget := false
  redirection := none
  ignored := false
  analysis := []

def addTag (o : Observable) (tag : String) : Observable :=
  { o with tags := addNew o.tags tag }

def addDirective (o : Observable) (directive : String) : Observable :=
  { o with directives := addNew o.directives directive }

def addDetectionPoint (o : Observable) (detection : DetectionPoint) : Observable :=
  { o with detections := addNew o.detections detection }

def addExcludedAnalysis (o : Observable) (name : String) : Observable :=
  { o with excludedAnalysis := addNew o.excludedAnalysis name }

def addLimitedAnalysis (o : Observable) (name : String) : Observable :=
  { o with limitedAnalysis := addNew o.limitedAnalysis name }

def setAnalysis (o : Observable) (analysis : AnalysisObject) : Observable :=
  if o.analysis.any (·.1 = analysis.modulePath) then
    { o with
      analysis := o.analysis.map fun slot =>
        if slot.1 = analysis.modulePath then (slot.1, some analysis) else slot }
  else { o with analysis := o.analysis ++ [(analysis.modulePath, some analysis)] }

end Observable

end Ace3.Analysis
