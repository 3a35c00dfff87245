import Ace3.Query.Decoder
import Ace3.Query.FieldLookup
import Ace3.Query.TemplateRendering
import Mathlib.Data.List.Infix

/-!
# Extraction of Observables

What a query returns is turned into observables and files: each mapping reads the values of its
fields from an event, and every value gives an observable, or the content of one file for each
name. Relationships are tracked by the observables they are for.
-/

namespace Ace3.Query

open Lib Lib.Nested
open Analysis (Runtime Observable ObservableIdentity ObservableTime fFile)
open EmailArchive (strip)
open ObservableModifier (Pattern)

/-! ## §1 Mappings -/

inductive FieldsMode where
  | any
  | all
  deriving DecidableEq

structure RelationshipMapping where
  type : String
  targetType : String
  targetValue : String
  deriving DecidableEq

def isTemplate (text : String) : Bool := decide (['{', '{'] <:+: text.toList)

/-- `ObservableMapping`, with what its validators ensure. -/
structure ObservableMapping where
  field : Option String
  fields : List String
  type : String
  tags : List String
  directives : List String
  time : Bool
  /-- The compiled `ignored_values`, by `fullmatch`. -/
  ignoredValuePatterns : List Pattern
  displayType : Option String
  displayValue : Option String
  fieldsMode : FieldsMode
  fieldLookupType : LookupType
  value : Option String
  fileName : Option String
  fileDecoder : Option DecoderType
  volatile : Bool
  relationships : List RelationshipMapping
  limit : Option ℕ
  fallbackType : Option String
  /-- `validate_field_or_fields`. -/
  fields_ne : fields ≠ []
  /-- `validate_fields_mode_any_with_value`. -/
  value_of_any : fieldsMode = .any → value = none
  /-- `validate_display_value_for_file_type`. -/
  displayValue_of_file : type = fFile → displayValue = none
  /-- `validate_templated_type_constraints`. -/
  file_of_template : isTemplate type = true → fileName = none ∧ fileDecoder = none
  fallback_of_static : isTemplate type = false → fallbackType = none
  fallback_static : ∀ fallback ∈ fallbackType, isTemplate fallback = false ∧ fallback ≠ fFile

namespace ObservableMapping

def getFields (mapping : ObservableMapping) : List String :=
  match mapping.field with
  | some field => if field = "" then mapping.fields else [field]
  | none => mapping.fields

def isIgnoredValue (mapping : ObservableMapping) (value : String) : Bool :=
  mapping.ignoredValuePatterns.any (· value)

end ObservableMapping

/-- `all(is_field_present(f) for f in fields)`, which stops at the first missing field. -/
def allPresent (isPresent : String → Except LookupError Bool) :
    List String → Except LookupError Bool
  | [] => .ok true
  | field :: fields =>
    match isPresent field with
    | .ok true => allPresent isPresent fields
    | result => result

def resolveFields (mapping : ObservableMapping) (isPresent : String → Except LookupError Bool) :
    Except LookupError (List (List String)) :=
  match mapping.fieldsMode with
  | .any => (mapping.getFields.filterM isPresent).map fun fields => fields.map ([·])
  | .all => (allPresent isPresent mapping.getFields).map fun present =>
      if present then [mapping.getFields] else []

/-! ## §2 The environment -/

structure ExtractionEnv where
  jinja : Jinja
  glom : Glom
  runtime : Runtime
  /-- `str(value)`, of a value that is neither a string nor bytes. -/
  str : Val → String
  /-- `raw.decode("utf-8", errors="ignore")`. -/
  decodeUtf8 : List UInt8 → String
  /-- `str.lower`. -/
  lower : String → String
  /-- `get_all_valid_types()`. -/
  validTypes : List String
  /-- `value_filter(field_name, obs_type, value)`, if there is one. -/
  valueFilter : Option (String → String → String → String)
  /-- `global_ignored_patterns`. -/
  globalIgnoredPatterns : List Pattern
  eventTime : Option ObservableTime
  /-- `hash(text)` of a string. -/
  hash : String → ℤ
  /-- The text of a time in `str(observable)`. -/
  timeText : ObservableTime → String
  /-- The number of the root that uuids are drawn for. -/
  root : ℕ

inductive ExtractionError where
  | lookup (error : LookupError)
  | keyError (field : String)
  | decode (error : DecodeError)
  deriving DecidableEq

variable (env : ExtractionEnv)

def interpolateStrict (template : Option String) (event : Event) : List String :=
  match template with
  | none => []
  | some template =>
    match renderEventTemplateMulti env.jinja template event true with
    | .ok rendered => rendered
    | .error .raised => []

def resolveMappingType (mapping : ObservableMapping) (event : Event) : Option String :=
  match renderEventTemplate env.jinja mapping.type event true with
  | .error .raised => none
  | .ok none => none
  | .ok (some rendered) =>
    let resolved := env.lower (strip rendered)
    if resolved ≠ fFile ∧ resolved ∈ env.validTypes then some resolved
    else
      match mapping.fallbackType with
      | some fallback => if fallback ∈ env.validTypes then some fallback else none
      | none => none

/-! ## §3 Values -/

def observedText : Val → String
  | .atom (.bytes raw) => env.decodeUtf8 raw
  | .atom (.str s) => s
  | value => env.str value

def interpretEventValue (mapping : ObservableMapping) (event : Event)
    (fieldOverride : Option String) : Except ExtractionError (List String) :=
  let observed : Except ExtractionError (List Val) :=
    match mapping.value with
    | none =>
      let fieldName := fieldOverride.getD (mapping.fields.headD "")
      match extractEventValue env.glom event mapping.fieldLookupType fieldName with
      | .error e => .error (.lookup e)
      | .ok none => .error (.keyError fieldName)
      | .ok (some (.list items)) => .ok items
      | .ok (some value) => .ok [value]
    | some template =>
      .ok ((interpolateStrict env (some template) event).map fun s => .atom (.str s))
  observed.map fun values =>
    (match mapping.limit with
      | none => values
      | some limit => values.take limit).map (observedText env)

/-- The value is empty, or one of the patterns matches it. -/
def isSkipped (mapping : ObservableMapping) (value : String) : Bool :=
  value = "" || env.globalIgnoredPatterns.any (· value) || mapping.isIgnoredValue value

/-! ## §4 What a value gives -/

structure FileContent where
  fileName : String
  content : List UInt8
  directives : List String
  tags : List String
  volatile : Bool
  displayType : Option String
  displayValue : Option String
  deriving DecidableEq

/-- `ExtractedObservable`; the display settings are those of the observable. -/
structure ExtractedObservable where
  observable : Observable
  displayType : Option String
  displayValue : Option String
  mapping : ObservableMapping
  matchedField : String

/-- The values that a list of templates renders to, less the empty ones. -/
def interpolateAll (templates : List String) (event : Event) : List String :=
  templates.flatMap fun template => (interpolateStrict env (some template) event).filter (· ≠ "")

def encodeUtf8 (value : String) : List UInt8 := value.toUTF8.data.toList

def fileContentsOf (mapping : ObservableMapping) (event : Event) (content : List UInt8) :
    List FileContent :=
  ((interpolateStrict env mapping.fileName event).filter (· ≠ "")).map fun fileName =>
    { fileName := fileName
      content := content
      directives := interpolateAll env mapping.directives event
      tags := interpolateAll env mapping.tags event
      volatile := mapping.volatile
      displayType := mapping.displayType
      displayValue := mapping.displayValue }

/-- `create_observable`, the time and `apply_mapping_properties`; nothing when the value is invalid
for the type. -/
def createObservable (mapping : ObservableMapping) (event : Event) (type value : String)
    (matchedField : String) (drawn : ℕ) : Option ExtractedObservable :=
  let finalValue :=
    match env.valueFilter with
    | some valueFilter => valueFilter matchedField type value
    | none => value
  (env.runtime.construct type finalValue).map fun value =>
    let identity : ObservableIdentity :=
      { uuid := ⟨env.root, drawn⟩
        type := type
        value := value
        time := if mapping.time then env.eventTime else none
        filePath := none }
    let directed := (interpolateAll env mapping.directives event).foldl
      Observable.addDirective (Observable.new identity mapping.volatile)
    { observable := (interpolateAll env mapping.tags event).foldl Observable.addTag directed
      displayType := mapping.displayType
      displayValue := mapping.displayValue
      mapping := mapping
      matchedField := matchedField }

/-! ## §5 Extraction -/

def observableText (o : ObservableIdentity) : String :=
  match o.time with
  | some time => o.type ++ "(" ++ o.value ++ "@" ++ env.timeText time ++ ")"
  | none => o.type ++ "(" ++ o.value ++ ")"

/-- Whether a dictionary finds the key under one that it holds: it is the same object, or the
hashes and the observables are equal. -/
def sameKey (held key : ObservableIdentity) : Bool :=
  held.uuid = key.uuid ||
    (env.hash (observableText env held) = env.hash (observableText env key) &&
      held.eq env.runtime key)

/-- `dict[Observable, list[RelationshipMapping]]`. -/
abbrev Tracking := List (ObservableIdentity × List RelationshipMapping)

def trackSet (key : ObservableIdentity) (relationships : List RelationshipMapping) :
    Tracking → Tracking
  | [] => [(key, relationships)]
  | (held, tracked) :: items =>
    if sameKey env held key then (held, relationships) :: items
    else (held, tracked) :: trackSet key relationships items

def trackGet (key : ObservableIdentity) : Tracking → List RelationshipMapping
  | [] => []
  | (held, tracked) :: items => if sameKey env held key then tracked else trackGet key items

/-- What the loops over mappings, field groups and values fill. -/
structure Extraction where
  extracted : List ExtractedObservable
  fileContents : List FileContent
  relationshipTracking : Tracking
  /-- The number of observables created so far, from which uuids are drawn. -/
  drawn : ℕ

def extractObservable (mapping : ObservableMapping) (event : Event) (type matchedField : String)
    (state : Extraction) (value : String) : Extraction :=
  match createObservable env mapping event type value matchedField state.drawn with
  | none => state
  | some created =>
    { state with
      extracted := state.extracted ++ [created]
      relationshipTracking :=
        if mapping.relationships.isEmpty then state.relationshipTracking
        else trackSet env created.observable.toObservableIdentity mapping.relationships
          state.relationshipTracking
      drawn := state.drawn + 1 }

/-- One round of the loop of `_process_mapping_values`, with the variable
`decoded_observed_value`. -/
def processValue (mapping : ObservableMapping) (event : Event) (type matchedField : String)
    (state : Extraction × Option (List UInt8)) (value : String) :
    Except ExtractionError (Extraction × Option (List UInt8)) :=
  if isSkipped env mapping value then .ok state
  else if type = fFile then
    let decoded : Except ExtractionError (Option (List UInt8)) :=
      match mapping.fileDecoder with
      | some decoder => ((decodeValue value decoder).map some).mapError .decode
      | none => .ok state.2
    decoded.map fun decoded =>
      let content := decoded.getD (encodeUtf8 value)
      ({ state.1 with
        fileContents := state.1.fileContents ++ fileContentsOf env mapping event content },
        some content)
  else .ok (extractObservable env mapping event type matchedField state.1 value, state.2)

def mappingType (mapping : ObservableMapping) (event : Event) : Option String :=
  if isTemplate mapping.type then resolveMappingType env mapping event else some mapping.type

def processMappingValues (mapping : ObservableMapping) (event : Event)
    (matchedField : String) (fieldOverride : Option String) (state : Extraction) :
    Except ExtractionError Extraction :=
  match mappingType env mapping event with
  | none => .ok state
  | some type =>
    match interpretEventValue env mapping event fieldOverride with
    | .error e => .error e
    | .ok values =>
      (values.foldlM (processValue env mapping event type matchedField) (state, none)).map (·.1)

def fieldGroups (mapping : ObservableMapping) (event : Event) :
    Except ExtractionError (List (List String)) :=
  (resolveFields mapping (isFieldPresent env.glom event mapping.fieldLookupType)).mapError .lookup

/-- `field_group[0] if len(field_group) == 1 else None`. -/
def overrideOf : List String → Option String
  | [field] => some field
  | _ => none

def processMapping (event : Event) (state : Extraction) (mapping : ObservableMapping) :
    Except ExtractionError Extraction :=
  match fieldGroups env mapping event with
  | .error e => .error e
  | .ok groups =>
    groups.foldlM (fun state group =>
      processMappingValues env mapping event (group.headD "") (overrideOf group) state) state

def extractObservablesFromEvent (event : Event) (mappings : List ObservableMapping) :
    Except ExtractionError Extraction :=
  mappings.foldlM (processMapping env event) ⟨[], [], [], 0⟩

/-- An environment in which templates have no expressions, every value suits every type, and
strings are all that is observed. -/
def plainEnv : ExtractionEnv where
  jinja := { parse := fun _ => some (.other []), render := fun template _ _ => .text template }
  glom := { toInt := fun _ => none, glom := fun _ _ => .error .pathAccess }
  runtime :=
    { construct := fun _ value => some value
      compareKey := fun _ value => value
      parseEventTime := fun _ => none
      observableLimits := fun _ => none
      hasBlob := fun _ => false
      storeFile := fun _ _ => none
      canImport := fun _ => false
      builtinSignatureVersion := "" }
  str := fun _ => ""
  decodeUtf8 := fun _ => ""
  lower := id
  validTypes := []
  valueFilter := none
  globalIgnoredPatterns := []
  eventTime := none
  hash := fun text => text.length
  timeText := fun _ => ""
  root := 0

end Ace3.Query
