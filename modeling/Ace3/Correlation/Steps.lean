import Ace3.Correlation.Expressions

/-!
# Steps of a Correlation

What the logic of a correlation is made of, and what is traced of it
(`saq/collectors/hunter/correlation/schema.py`, `trace.py`, `actions.py`, `transforms.py`).
-/

namespace Ace3.Correlation

open Lib.Json

/-! ## §1 Commands -/

structure TimeRangeConfig where
  before : Option String
  after : Option String
  relativeTimeField : Option String
  relativeTimeFormat : Option String
  deriving DecidableEq

structure CommandConfig where
  /-- `query`, `executable` or `defined`; any other text raises when the command is executed. -/
  type : String
  timeout : String
  cache : Option String
  source : Option String
  query : Option String
  timeRange : Option TimeRangeConfig
  sourceOptions : Dict
  path : Option String
  stdin : Option Bool
  args : Option (List String)
  env : Option (List (String × String))
  name : Option String
  arguments : Option Dict

/-- A `PredefinedCommandConfig`, which has what a command has, and a name of its own. -/
structure PredefinedCommandConfig where
  name : String
  command : CommandConfig

/-! ## §2 Steps -/

structure MergeTimeSpecConfig where
  lField : String
  lFormat : String
  rField : String
  rFormat : String
  deriving DecidableEq

/-- `type` and `method` of a transform, in the combinations that are valid, with what goes with
them. Other texts are accepted as a method, and raise when the transform is applied. -/
inductive TransformMethod where
  | property (name type : String)
  | merge (spec : MergeTimeSpecConfig)
  | mutate
  | unknown (type method : String)

def TransformMethod.type : TransformMethod → String
  | property _ _ => "event"
  | merge _ | mutate => "stream"
  | unknown type _ => type

def TransformMethod.name : TransformMethod → String
  | property _ _ => "property"
  | merge _ => "merge"
  | mutate => "mutate"
  | unknown _ method => method

structure TransformConfig where
  method : TransformMethod
  command : CommandConfig

/-- The types of actions, and the one that only the engine returns. -/
inductive ActionType where
  | filter | stop | discard | alert | log | timeout
  deriving DecidableEq

def ActionType.name : ActionType → String
  | filter => "filter"
  | stop => "stop"
  | discard => "discard"
  | alert => "alert"
  | log => "log"
  | timeout => "timeout"

/-- An `ActionConfig`, whose type has passed `validate_action`. -/
structure ActionConfig where
  type : ActionType
  valid : type ≠ .timeout := by decide
  queue : Option String
  analysisMode : Option String
  logLevel : String
  logMessage : Option String
  deriving DecidableEq

structure ActionResult where
  actionType : ActionType
  queueOverride : Option String
  analysisModeOverride : Option String
  deriving DecidableEq

def ActionResult.of (actionType : ActionType) : ActionResult := ⟨actionType, none, none⟩

def ActionResult.isInterrupt (result : ActionResult) : Bool :=
  result.actionType ∈ [.filter, .stop, .discard, .alert, .timeout]

/-- A `StepConfig`. A condition without an else branch is one whose else branch is empty. -/
inductive StepConfig where
  | condition (description : Option String) (when : ExpressionConfig)
      (execute else_ : List StepConfig)
  | transform (description : Option String) (transform : TransformConfig)
  | action (description : Option String) (action : ActionConfig)

/-! ## §3 Traces -/

/-- `branch_taken`. -/
inductive Branch where
  | execute | else_ | none
  deriving DecidableEq

def Branch.name : Branch → String
  | execute => "execute"
  | else_ => "else"
  | none => "none"

structure TransformTrace where
  transformType : String
  method : String
  commandType : String
  renderedCommand : Option String
  propertyName : Option String
  propertyValue : Option String
  resultCount : Option Nat
  mergeDropped : Option Nat
  queryTimeSpec : Option String
  error : Option String

structure ActionTrace where
  actionType : String
  renderedLogMessage : Option String
  isInterrupt : Bool
  error : Option String

inductive StepTrace where
  | condition (description : Option String) (expression : ExpressionTrace) (branchTaken : Branch)
      (branchSteps : List StepTrace) (error : Option String)
  | transform (description : Option String) (trace : TransformTrace)
  | action (description : Option String) (trace : ActionTrace)

inductive EventOutcome where
  | alert | filter | stop | discard | timeout | error | streamReset
  deriving DecidableEq

def EventOutcome.name : EventOutcome → String
  | alert => "alert"
  | filter => "filter"
  | stop => "stop"
  | discard => "discard"
  | timeout => "timeout"
  | error => "error"
  | streamReset => "stream_reset"

structure EventTrace where
  eventIndex : Nat
  steps : List StepTrace
  outcome : EventOutcome

structure StreamEvent where
  eventType : String
  atEventIndex : Option Nat
  detail : Option String

structure CorrelationTrace where
  eventTraces : List EventTrace
  streamEvents : List StreamEvent

/-! ## §4 Transforms -/

/-- A point in time that `_parse_time_value` returns, with or without a time zone. -/
structure Instant where
  aware : Bool
  moment : Int
  deriving DecidableEq

structure Parsers extends Library where
  int : String → Except String Value
  float : String → Except String Value
  /-- `_parse_time_value`, none where it raises. -/
  parseTime : Value → String → Option Instant

def contains (value : Value) (name : String) : Except String Bool :=
  match value with
  | .dict items => .ok (Dict.get name items).isSome
  | .list items => .ok (items.any fun
    | .str item => item = name
    | _ => false)
  | .str text => .ok (decide (name.toList <:+: text.toList))
  | _ => .error "argument is not iterable"

def field (value : Value) (name : String) : Option Value :=
  match value with
  | .dict items => Dict.get name items
  | _ => none

structure TimedEvent where
  time : Instant
  isNew : Bool
  event : Event

/-- The order of the events of a merge, with the existing events first where the times are equal. -/
def TimedEvent.le (e e' : TimedEvent) : Bool :=
  e.time.moment < e'.time.moment ∨ (e.time.moment = e'.time.moment ∧ (e.isNew → e'.isNew))

namespace Parsers

variable (lib : Parsers)

def parsePropertyValue (output propertyType : String) : Except String Value :=
  match propertyType with
  | "list" => do return .list (← (lib.lines output).mapM lib.loads)
  | "dict" => lib.loads output
  | "int" => lib.int (lib.strip output)
  | "float" => lib.float (lib.strip output)
  | "bool" => .ok (.bool (lib.lower (lib.strip output) ∈ ["true", "1", "yes"]))
  | _ => .ok (.str (lib.strip output))

/-- The rows of an output that have the field with the time, and how many do not. -/
def readRows (rField : String) : List String → Except String (List Value × Nat)
  | [] => .ok ([], 0)
  | line :: lines => do
    let row ← lib.loads line
    let found ← contains row rField
    let (rows, dropped) ← readRows rField lines
    return if found then (row :: rows, dropped) else (rows, dropped + 1)

/-- `_parse_time_value` of a field, none if there is none. -/
def timeOf (value : Value) (name format : String) : Option Instant :=
  (field value name).bind fun value => lib.parseTime value format

def newEvents (nextId : Nat) (rows : List Value) : List Event :=
  rows.mapIdx fun i row => ⟨nextId + i, row⟩

/-- `_apply_merge` of the existing events and the new ones, and how many of these are dropped. Times
with and without a zone cannot be compared. -/
def applyMerge (output : String) (existing : List Event) (spec : MergeTimeSpecConfig)
    (nextId : Nat) : Except String (List Event × Nat) := do
  let (rows, dropped) ← lib.readRows spec.rField (lib.lines output)
  existing.forM fun e => do discard (contains e.value spec.lField)
  let timed := (existing.filterMap fun e =>
      (lib.timeOf e.value spec.lField spec.lFormat).map (TimedEvent.mk · false e)) ++
    (newEvents nextId rows).filterMap fun e =>
      (lib.timeOf e.value spec.rField spec.rFormat).map (TimedEvent.mk · true e)
  let unparsed := rows.countP fun row => (lib.timeOf row spec.rField spec.rFormat).isNone
  if timed.any (·.time.aware) && timed.any (!·.time.aware) then
    .error "can't compare offset-naive and offset-aware datetimes"
  else
    let untimed := existing.filter fun e =>
      (lib.timeOf e.value spec.lField spec.lFormat).isNone
    return (untimed ++ (timed.mergeSort TimedEvent.le).map (·.event), dropped + unparsed)

def applyMutate (output : String) (nextId : Nat) : Except String (List Event) := do
  return newEvents nextId (← (lib.lines output).mapM lib.loads)

end Parsers

end Ace3.Correlation
