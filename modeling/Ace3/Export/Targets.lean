import Ace3.Export.ObservableExport
import Ace3.Lib.Slices
import Mathlib.Logic.Function.Basic

/-!
# The Export Targets

The three targets of `saq/observables/export`: the redis cache (`redis_cache.py`), the Splunk KV
store (`splunk_kvstore.py`) and the yara rules (`yara.py`). What `publish` does is a list of
operations on the system outside; a fault is an exception after some of them.

The python string functions on characters (`str.lower`) and the yara compiler are parameters.
-/

namespace Ace3.Export

/-! ## §1 The redis cache -/

/-- A value in the cache: the id of a detection, or the fingerprint of the published list. -/
inductive RedisValue (φ : Type) where
  | id (id : Nat)
  | fingerprint (fingerprint : φ)
  deriving DecidableEq

abbrev RedisDb (φ : Type) := String → Option (RedisValue φ)

/-- `REDIS_DB_FOR_DETECTION_A`, which the engine reads, and `REDIS_DB_FOR_DETECTION_B`, in which
the cache is rebuilt. -/
structure RedisCache (φ : Type) where
  live : RedisDb φ
  scratch : RedisDb φ

namespace RedisCache

variable {φ : Type}

def fingerprintKey : String := "__ace_export_fingerprint__"

inductive Command (φ : Type) where
  | flushdb
  | set (key : String) (value : RedisValue φ)
  | swapdb

/-- A command on the connection to the scratch database. -/
def apply (cache : RedisCache φ) : Command φ → RedisCache φ
  | .flushdb => { cache with scratch := fun _ => none }
  | .set key value => { cache with scratch := Function.update cache.scratch key (some value) }
  | .swapdb => ⟨cache.scratch, cache.live⟩

def fill (digest : List ExportEntry → φ) (entries : List ExportEntry) : List (Command φ) :=
  entries.map (fun entry => .set (entry.type ++ ":" ++ entry.value) (.id entry.id)) ++
    [.set fingerprintKey (.fingerprint (digest entries))]

/-- The commands of `publish`. -/
def commands (digest : List ExportEntry → φ) (entries : List ExportEntry) : List (Command φ) :=
  .flushdb :: fill digest entries ++ [.swapdb]

/-- `RedisObservableExport.publish`; a fault says how many commands the server has executed. -/
def publish (digest : List ExportEntry → φ) (fault : Option Nat) (entries : List ExportEntry)
    (cache : RedisCache φ) : RedisCache φ × PublishOutcome :=
  match fault with
  | none => ((commands digest entries).foldl apply cache, .returned)
  | some executed => (((commands digest entries).take executed).foldl apply cache, .raised)

def getLastFingerprint (cache : RedisCache φ) : Option φ :=
  match cache.live fingerprintKey with
  | some (.fingerprint fingerprint) => some fingerprint
  | _ => none

end RedisCache

/-- `RedisObservableExport`. Recording a fingerprint does nothing, since it is in the cache. -/
def redisExport {φ : Type} (digest : List ExportEntry → φ) :
    ObservableExport Unit (Option Nat) (RedisCache φ) (RedisDb φ) φ where
  buildExportList _ detections :=
    exportList <| detections.flatMap fun (type, typeDetections) =>
      typeDetections.map fun (id, value) => ⟨id, type, value⟩
  getLastFingerprint := RedisCache.getLastFingerprint
  publish _ := RedisCache.publish digest
  recordFingerprint _ _ cache := cache
  content := RedisCache.live
  faultless := none

/-! ## §2 State files -/

/-- A target beside the JSON file of its last fingerprint, which is missing or malformed when
there is none. -/
structure WithState (σ φ : Type) where
  system : σ
  fingerprint : Option φ

/-- `write_fingerprint`: the file is truncated before it is written. -/
def WithState.writeFingerprint {σ φ : Type} (outcome : RecordOutcome) (fingerprint : φ)
    (s : WithState σ φ) : WithState σ φ :=
  match outcome with
  | .written => { s with fingerprint := some fingerprint }
  | .raisedBefore => s
  | .raisedAfter => { s with fingerprint := none }

/-! ## §3 The Splunk KV store -/

structure Document where
  key : String
  id : Nat
  type : String
  value : String
  pattern : String
  deriving DecidableEq

structure SplunkKVStoreExportConfig where
  collection : String
  exportList : List String
  maxExport : Int
  deriving DecidableEq

namespace SplunkKVStore

/-- `URL_SCHEME_RE.sub("", pattern)`. -/
def dropScheme (pattern : List Char) : List Char :=
  let schemeChar (c : Char) := c.isLower && c.isAlpha || c.isDigit || c ∈ ['+', '.', '-']
  match pattern with
  | [] => []
  | first :: rest =>
    if first.isLower && (rest.dropWhile schemeChar).take 3 = [':', '/', '/'] then
      (rest.dropWhile schemeChar).drop 3
    else pattern

def rstripSlash (pattern : List Char) : List Char :=
  (pattern.reverse.dropWhile (· = '/')).reverse

def buildPattern (lower : String → String) (type value : String) : String :=
  let pattern := (lower value).toList
  let pattern := if type ∈ ["url", "uri_path"] then rstripSlash (dropScheme pattern) else pattern
  String.ofList (['*'] ++ pattern ++ ['*'])

def buildDocuments (lower : String → String) (entries : List ExportEntry) : List Document :=
  entries.map fun entry =>
    ⟨toString entry.id, entry.id, entry.type, entry.value,
      buildPattern lower entry.type entry.value⟩

inductive Operation where
  | delete (key : String)
  | save (document : Document)
  deriving DecidableEq

/-- Deleting a key, or saving a document in the place of the one with its key. -/
def apply (collection : List Document) : Operation → List Document
  | .delete key => collection.filter (·.key ≠ key)
  | .save document => collection.filter (·.key ≠ document.key) ++ [document]

/-- `_chunked`; in `range`, a step of zero is a `ValueError` and a negative one gives nothing. -/
def chunked {α : Type} (size : Int) (items : List α) : Option (List (List α)) :=
  if size = 0 then none
  else if size < 0 then some []
  else some (Lib.slices size.toNat items.length items)

def staleKeys (documents collection : List Document) : List String :=
  (collection.map (·.key)).dedup.filter (· ∉ documents.map (·.key))

/-- The chunks of the operations, which are not looked at when there are none. -/
def chunkedIfAny (size : Int) (operations : List Operation) : Option (List (List Operation)) :=
  if operations = [] then some [] else chunked size operations

def requests (config : SplunkKVStoreExportConfig) (documents collection : List Document) :
    Option (List (List Operation)) := do
  let stale := (staleKeys documents collection).insertionSort (· ≤ ·)
  let deletes ← chunkedIfAny config.maxExport (stale.map .delete)
  let saves ← chunkedIfAny config.maxExport (documents.map .save)
  return deletes ++ saves

/-- `SplunkKVStoreExport.publish`; a fault says how many documents the requests have reached. -/
def publish (lower : String → String) (config : SplunkKVStoreExportConfig) (fault : Option Nat)
    (entries : List ExportEntry) (collection : List Document) : List Document × PublishOutcome :=
  if config.collection = "" then (collection, .raised)
  else
    match requests config (buildDocuments lower entries) collection with
    | none => (collection, .raised)
    | some requests =>
      match fault with
      | none => (requests.flatten.foldl apply collection, .returned)
      | some reached => ((requests.flatten.take reached).foldl apply collection, .raised)

def lookup (collection : List Document) (key : String) : Option Document :=
  collection.find? (·.key = key)

end SplunkKVStore

def splunkExport {φ : Type} (ancestors : String → List String) (lower : String → String)
    (config : SplunkKVStoreExportConfig) :
    ObservableExport Unit (Option Nat) (WithState (List Document) φ)
      (String → Option Document) φ where
  buildExportList _ detections :=
    exportList (selectDetections ancestors config.exportList detections)
  getLastFingerprint := WithState.fingerprint
  publish _ fault entries s :=
    let (collection, outcome) := SplunkKVStore.publish lower config fault entries s.system
    ({ s with system := collection }, outcome)
  recordFingerprint := WithState.writeFingerprint
  content s := SplunkKVStore.lookup s.system
  faultless := none

/-! ## §4 The yara rules -/

/-- What an export of yara rules reads besides the list. -/
structure YaraEnv where
  exportList : List String
  minimumLength : Nat
  /-- The template of a type, or the default one; none if it cannot be read. -/
  template : String → Option String
  modifiers : String → String
  /-- `date.today()`. -/
  today : String
  /-- `yara.compile` accepts the source. -/
  compiles : String → Bool

/-- What may go wrong in a call of `publish`. -/
structure YaraFaults where
  /-- The directory cannot be created. -/
  directoryFails : Bool
  /-- An exception at the rule file with this index, and what it leaves in a file that was being
  written. -/
  writeFails : Option (Nat × Option String)
  /-- The directory cannot be listed. -/
  listFails : Bool
  /-- The types whose rule files cannot be removed. -/
  removeFails : List String
  deriving DecidableEq

abbrev RuleFiles := String → Option String

namespace Yara

def formatYaraString (value : String) : String :=
  ((((value.replace "\\" "\\\\").replace "\"" "\\\"").replace "\n" "").replace "\r" "")

def formatYaraJsonString (value : String) : String :=
  ((((value.replace "\\" "\\\\\\\\").replace "\"" "\\\"").replace "\n" "").replace "\r" "")

def formatStrings (entry : ExportEntry) (modifiers : String) : String :=
  let yaraValue := formatYaraString entry.value
  let yaraJsonValue := formatYaraJsonString entry.value
  "          $obsd_" ++ toString entry.id ++ " = \"" ++ yaraValue ++ "\" " ++ modifiers ++ "\n" ++
    if yaraValue ≠ yaraJsonValue then
      "          $obsd_json_" ++ toString entry.id ++ " = \"" ++ yaraJsonValue ++ "\" " ++
        modifiers ++ "\n"
    else ""

def loadTemplate (env : YaraEnv) (type : String) : Option String :=
  (env.template type).map fun template =>
    let ruleName := String.ofList (type.toList.filter fun c => c.isAlphanum || c = '_')
    ((template.replace "TEMPLATE_RULE_NAME" ruleName).replace "TEMPLATE_TAGS" ruleName).replace
      "TEMPLATE_DATE_STRING" env.today

/-- The rule that `_export_type` writes for a type, if it writes one. -/
def rule (env : YaraEnv) (type : String) (entries : List ExportEntry) : Option String :=
  match loadTemplate env type with
  | none => none
  | some template =>
    let strings := (entries.map (formatStrings · (env.modifiers type))).filter fun string =>
      env.compiles (template.replace "TEMPLATE_STRINGS" string)
    let rule := template.replace "TEMPLATE_STRINGS" (String.join strings)
    if strings ≠ [] ∧ env.compiles rule then some rule else none

/-- The loop over `_export_type`: the files, the exported types, and whether it went through. A
file with the right content is not written again. -/
def exportTypes (env : YaraEnv) : List (String × List ExportEntry) → Option (Nat × Option String) →
    RuleFiles → RuleFiles × List String × Bool
  | [], _, files => (files, [], true)
  | (type, _) :: _, some (0, left), files =>
    (if left.isSome then Function.update files type left else files, [], false)
  | (type, entries) :: rest, fault, files =>
    let fault := fault.map fun (index, left) => (index - 1, left)
    match rule env type entries with
    | none => exportTypes env rest fault files
    | some rule =>
      let (files, exported, finished) :=
        exportTypes env rest fault (Function.update files type (some rule))
      (files, type :: exported, finished)

/-- `_prune`: files whose removal fails stay. -/
def prune (faults : YaraFaults) (exported : List String) (files : RuleFiles) : RuleFiles :=
  fun type =>
    if type ∈ exported ∨ faults.listFails ∨ type ∈ faults.removeFails then files type else none

def pruneLogsError (faults : YaraFaults) (exported : List String) (files : RuleFiles) : Bool :=
  faults.listFails || faults.removeFails.any fun type => type ∉ exported ∧ (files type).isSome

def publish (env : YaraEnv) (faults : YaraFaults) (entries : List ExportEntry)
    (files : RuleFiles) : RuleFiles × PublishOutcome :=
  if faults.directoryFails then (files, .raised)
  else
    match exportTypes env (entriesByType entries) faults.writeFails files with
    | (files, _, false) => (files, .raised)
    | (files, exported, true) =>
      (prune faults exported files,
        if pruneLogsError faults exported files then .returnedWithErrors else .returned)

end Yara

def yaraExport {φ : Type} (ancestors : String → List String) :
    ObservableExport YaraEnv YaraFaults (WithState RuleFiles φ) RuleFiles φ where
  buildExportList env detections :=
    exportList <| (selectDetections ancestors env.exportList detections).filter
      (·.value.length ≥ env.minimumLength)
  getLastFingerprint := WithState.fingerprint
  publish env faults entries s :=
    let (files, outcome) := Yara.publish env faults entries s.system
    ({ s with system := files }, outcome)
  recordFingerprint := WithState.writeFingerprint
  content := WithState.system
  faultless := ⟨false, none, false, []⟩

end Ace3.Export
