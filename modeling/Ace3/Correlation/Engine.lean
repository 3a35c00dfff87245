import Ace3.Correlation.Steps

/-!
# The Correlation Engine

The interpreter of the steps for one event, and the loop over the stream of events
(`saq/collectors/hunter/correlation/engine.py`).
-/

namespace Ace3.Correlation

open Lib.Json

/-! ## §1 The engine -/

/-- What the engine is created with, and what it calls: the clock, which tells whether the timeout
is reached and how it writes the elapsed time, and the commands, both of a world that changes. -/
structure Engine (Ω : Type*) extends Parsers where
  logic : List StepConfig
  predefinedCommands : List PredefinedCommandConfig
  huntSourceType : Option String
  secrets : Value
  /-- `to_command_config`, which raises where the overrides are not valid. -/
  toCommandConfig : CommandConfig → Option Dict → Except String CommandConfig
  elapsed : Ω → (Bool × String) × Ω
  /-- `execute_command`, of a transform of the type, with the current source. -/
  executeCommand : CommandConfig → Value → List Value → String → Option String → Ω →
    Except String String × Ω
  /-- `format_timespec_for_display` of the resolved range of a query, if it can be resolved. -/
  queryTimeSpec : CommandConfig → Value → String → Option String → Option String
  /-- What `_log_action` raises, if it does. -/
  logError : ActionConfig → Value → List Value → Option String

structure Walk (Ω : Type*) where
  world : Ω
  currentSource : Option String
  event : Event
  events : List Event
  /-- Python gives new objects ids that no other object has. -/
  nextId : Nat

/-- A place in the logic: the index of a step in its list, and the conditions and branches that
lead to the list, from the outside. -/
structure Place where
  outer : List (Nat × Branch)
  index : Nat
  deriving DecidableEq

inductive Ending where
  /-- None is returned: the steps are done. -/
  | fell
  | interrupt (result : ActionResult)
  /-- A `_StreamReset`. The place of the transform is not part of it in the source. -/
  | reset (newStream : List Event) (resumeStepIndex : Nat) (place : Place)
  /-- A `_StepError`. -/
  | failed (message : String)
  /-- Another exception, which nothing in the engine catches. -/
  | raised (message : String)

structure Processed (Ω : Type*) where
  walk : Walk Ω
  steps : List StepTrace
  ending : Ending

/-- The ending of a step in a branch, seen from the condition. -/
def Ending.within (index : Nat) (branch : Branch) : Ending → Ending
  | reset newStream resume place =>
    reset newStream resume ⟨(index, branch) :: place.outer, place.index⟩
  | ending => ending

namespace Engine

variable {Ω : Type*} (c : Engine Ω)

/-! ## §2 Actions and transforms -/

/-- What `execute_action` returns. -/
def actionResult (action : ActionConfig) : ActionResult :=
  match action.type with
  | .alert => ⟨.alert, action.queue, action.analysisMode⟩
  | type => .of type

def executeAction (description : Option String) (action : ActionConfig) (w : Walk Ω) :
    Processed Ω :=
  let values := w.events.map (·.value)
  match c.logError action w.event.value values with
  | some error =>
    ⟨w, [.action description ⟨action.type.name, none, false, some error⟩], .failed error⟩
  | none =>
    let result := actionResult action
    let message := (action.logMessage.filter (· ≠ "")).bind fun template =>
      ((c.render template w.event.value values).toOption).map (sanitizeValue c.secrets)
    ⟨w, [.action description ⟨result.actionType.name, message, result.isInterrupt, none⟩],
      if result.isInterrupt then .interrupt result else .fell⟩

/-- `_render_command_summary`: without the environment, and none if a template cannot be
rendered. -/
def renderCommandSummary (command : CommandConfig) (event : Value) (events : List Value) :
    Option String :=
  match command.type, command.query, command.path, command.name with
  | "query", some query, _, _ =>
    if query = "" then none else (c.render query event events).toOption
  | "executable", _, some path, _ =>
    if path = "" then none
    else (((command.args.getD []).mapM (c.render · event events)).toOption).map fun args =>
      c.strip (path ++ " " ++ " ".intercalate args)
  | "defined", _, _, some name => if name = "" then none else some ("defined:" ++ name)
  | _, _, _, _ => none

def effectiveQueryCommand (command : CommandConfig) : Except String (Option CommandConfig) :=
  if command.type = "query" then .ok (some command)
  else if command.type = "defined" ∧ command.name.any (· ≠ "") then
    match c.predefinedCommands.find? fun predefined =>
      some predefined.name = command.name ∧ predefined.command.type = "query" with
    | some predefined => (c.toCommandConfig predefined.command command.arguments).map some
    | none => .ok none
  else .ok none

def resolveCommandSource (command : CommandConfig) : Option String :=
  if command.type = "query" then command.source
  else if command.type = "defined" ∧ command.name.any (· ≠ "") then
    (c.predefinedCommands.find? fun predefined =>
      some predefined.name = command.name ∧ predefined.command.type = "query").bind
        (·.command.source)
  else none

def truncateRepr (value : Value) : String :=
  if 200 < (c.repr value).length then .ofList ((c.repr value).toList.take 200) ++ "..."
  else c.repr value

def setProperty (event : Value) (name : String) (value : Value) : Except String Value :=
  match event with
  | .dict items => .ok (.dict (Dict.set name value items))
  | _ => .error "object does not support item assignment"

def transformTrace (transform : TransformConfig) (query : Option CommandConfig) (w : Walk Ω) :
    TransformTrace where
  transformType := transform.method.type
  method := transform.method.name
  commandType := transform.command.type
  renderedCommand := (c.renderCommandSummary transform.command w.event.value
    (w.events.map (·.value))).map (sanitizeValue c.secrets)
  propertyName := none
  propertyValue := none
  resultCount := none
  mergeDropped := none
  queryTimeSpec := query.bind fun command =>
    c.queryTimeSpec command w.event.value transform.method.type w.currentSource
  error := none

def failTransform (description : Option String) (trace : TransformTrace) (error : String)
    (w : Walk Ω) : Processed Ω :=
  let message := sanitizeValue c.secrets error
  ⟨w, [.transform description { trace with error := some message }], .failed message⟩

/-- A stream transform has taken place: the trace of the step is kept, and processing is to go on
after it. -/
def resetStream (description : Option String) (trace : TransformTrace) (newStream : List Event)
    (stepIndex : Nat) (w : Walk Ω) : Processed Ω :=
  ⟨w, [.transform description trace], .reset newStream (stepIndex + 1) ⟨[], stepIndex⟩⟩

/-- `apply_transform` to the output of the command, and what `_execute_transform` does with the
result. -/
def applyTransform (description : Option String) (transform : TransformConfig)
    (trace : TransformTrace) (output : String) (eventIndex stepIndex : Nat) (w : Walk Ω) :
    Processed Ω :=
  match transform.method with
  | .property name type =>
    match (c.parsePropertyValue output type).bind (setProperty w.event.value name) with
    | .error error => c.failTransform description trace error w
    | .ok value =>
      let event : Event := ⟨w.event.id, value⟩
      let trace := if name = "" then trace else
        { trace with
          propertyName := some name
          propertyValue := some (c.truncateRepr ((field value name).getD .null)) }
      ⟨{ w with event := event, events := w.events.set eventIndex event },
        [.transform description trace], .fell⟩
  | .merge spec =>
    match c.applyMerge output w.events spec w.nextId with
    | .error error => c.failTransform description trace error w
    | .ok (newStream, dropped) =>
      resetStream description { trace with mergeDropped := some dropped } newStream stepIndex
        { w with nextId := w.nextId + (c.lines output).length }
  | .mutate =>
    match c.applyMutate output w.nextId with
    | .error error => c.failTransform description trace error w
    | .ok newStream =>
      -- a query replaces the source of the stream, too
      let source := (c.resolveCommandSource transform.command).or w.currentSource
      resetStream description trace newStream stepIndex
        { w with currentSource := source, nextId := w.nextId + (c.lines output).length }
  | .unknown _ method => c.failTransform description trace ("invalid transform method: " ++ method) w

/-- `_execute_transform`. The command that is effective is found before anything is caught. -/
def executeTransform (description : Option String) (transform : TransformConfig)
    (eventIndex stepIndex : Nat) (w : Walk Ω) : Processed Ω :=
  match c.effectiveQueryCommand transform.command with
  | .error error => ⟨w, [], .raised error⟩
  | .ok query =>
    let trace := c.transformTrace transform query w
    match c.executeCommand transform.command w.event.value (w.events.map (·.value))
      transform.method.type w.currentSource w.world with
    | (.error error, world) => c.failTransform description trace error { w with world := world }
    | (.ok output, world) =>
      let trace := { trace with resultCount := some (c.lines output).length }
      c.applyTransform description transform trace output eventIndex stepIndex
        { w with world := world }

/-! ## §3 Steps -/

def evaluateCondition (when : ExpressionConfig) (w : Walk Ω) :
    Except String (Bool × ExpressionTrace) :=
  (c.evaluate w.event.value (w.events.map (·.value)) when).map fun (result, trace) =>
    (result, { trace with renderedValue := trace.renderedValue.map (sanitizeValue c.secrets) })

def closeCondition (description : Option String) (trace : ExpressionTrace) (stepIndex : Nat)
    (branch : Branch) (p : Processed Ω) : Processed Ω :=
  match p.ending with
  | .reset _ _ _ | .raised _ => ⟨p.walk, [], p.ending.within stepIndex branch⟩
  | _ => ⟨p.walk, [.condition description trace branch p.steps none], p.ending⟩

mutual

def processStep (eventIndex stepIndex : Nat) (w : Walk Ω) : StepConfig → Processed Ω
  | .condition description when execute else_ =>
    match c.evaluateCondition when w with
    | .error error => ⟨w, [], .raised error⟩
    | .ok (result, trace) =>
      match trace.error with
      | some error => ⟨w, [.condition description trace .none [] (some error)], .failed error⟩
      | none =>
        if result then
          closeCondition description trace stepIndex .execute
            (processEventSteps eventIndex 0 w execute)
        else if else_.isEmpty then ⟨w, [.condition description trace .none [] none], .fell⟩
        else
          closeCondition description trace stepIndex .else_ (processEventSteps eventIndex 0 w else_)
  | .transform description transform =>
    c.executeTransform description transform eventIndex stepIndex w
  | .action description action => c.executeAction description action w

def processEventSteps (eventIndex stepIndex : Nat) (w : Walk Ω) : List StepConfig → Processed Ω
  | [] => ⟨w, [], .fell⟩
  | step :: steps =>
    let ((expired, _), world) := c.elapsed w.world
    if expired then ⟨{ w with world := world }, [], .interrupt (.of .timeout)⟩
    else
      let p := processStep eventIndex stepIndex { w with world := world } step
      match p.ending with
      | .fell =>
        let rest := processEventSteps eventIndex (stepIndex + 1) p.walk steps
        ⟨rest.walk, p.steps ++ rest.steps, rest.ending⟩
      | _ => p

end

/-! ## §4 The loop -/

structure CorrelationResult where
  events : List Event
  eventActions : Nat → Option ActionResult
  discarded : Bool
  trace : CorrelationTrace
  alertEventOriginIndices : List Nat

/-- The variables of `execute`. -/
structure Loop (Ω : Type*) where
  world : Ω
  currentSource : Option String
  nextId : Nat
  events : List Event
  eventIndex : Nat
  startStepIndex : Nat
  alertEvents : List (Nat × Event)
  eventActions : Nat → Option ActionResult
  eventTraces : List EventTrace
  streamEvents : List StreamEvent

namespace Loop

variable {Ω : Type*} (s : Loop Ω)

def start (c : Engine Ω) (world : Ω) (events : List Event) : Loop Ω where
  world := world
  currentSource := c.huntSourceType
  nextId := (events.map (·.id)).foldl max 0 + 1
  events := events
  eventIndex := 0
  startStepIndex := 0
  alertEvents := []
  eventActions _ := none
  eventTraces := []
  streamEvents := []

/-- What the walk over the steps of an event has changed. -/
def absorb (w : Walk Ω) : Loop Ω :=
  { s with
    world := w.world
    currentSource := w.currentSource
    nextId := w.nextId
    events := w.events }

def keep (index : Nat) (event : Event) (result : ActionResult) : Loop Ω :=
  { s with
    alertEvents := s.alertEvents ++ [(index, event)]
    eventActions := Function.update s.eventActions index (some result) }

def traced (index : Nat) (steps : List StepTrace) (outcome : EventOutcome) : Loop Ω :=
  { s with eventTraces := s.eventTraces ++ [⟨index, steps, outcome⟩] }

/-- A `StreamEvent` is appended. -/
def noted (eventType : String) (detail : Option String) : Loop Ω :=
  { s with streamEvents := s.streamEvents ++ [⟨eventType, some s.eventIndex, detail⟩] }

def next : Loop Ω := { s with eventIndex := s.eventIndex + 1 }

/-- The stream is replaced, and all of it is to be processed from a step on. Of the traces only
that of the event with the transform is kept. -/
def reset (newStream : List Event) (resumeStepIndex : Nat) (steps : List StepTrace) : Loop Ω :=
  { s.noted "stream_reset" (some
      s!"stream reset to {newStream.length} events, resuming at step {resumeStepIndex}") with
    events := newStream
    eventIndex := 0
    startStepIndex := resumeStepIndex
    alertEvents := []
    eventActions := fun _ => none
    eventTraces := [⟨s.eventIndex, steps, .streamReset⟩] }

/-- The events from the current one on become alerts, because the time is over. -/
def timedOut : List Event → Nat → Loop Ω → Loop Ω
  | [], _, s => s
  | event :: events, index, s =>
    timedOut events (index + 1) ((s.keep index event (.of .alert)).traced index [] .timeout)

def result (discarded : Bool) : CorrelationResult where
  events := if discarded then [] else s.alertEvents.map (·.2)
  eventActions := s.eventActions
  discarded := discarded
  trace := ⟨s.eventTraces, s.streamEvents⟩
  alertEventOriginIndices := if discarded then [] else s.alertEvents.map (·.1)

end Loop

inductive Progress (Ω : Type*) where
  | running (s : Loop Ω)
  | finished (result : CorrelationResult)
  | raised (message : String)

def processCurrent (s : Loop Ω) (event : Event) : Processed Ω :=
  c.processEventSteps s.eventIndex s.startStepIndex
    ⟨s.world, s.currentSource, event, s.events, s.nextId⟩ (c.logic.drop s.startStepIndex)

/-- What is made of the way in which the steps of the current event ended. -/
def conclude (s : Loop Ω) (p : Processed Ω) : Progress Ω :=
  let event := p.walk.event
  let s := s.absorb p.walk
  match p.ending with
  | .raised message => .raised message
  | .reset newStream resume _ => .running (s.reset newStream resume p.steps)
  | .failed _ =>
    .running ((s.keep s.eventIndex event (.of .alert)).traced s.eventIndex p.steps .error).next
  | .fell =>
    .running ((s.keep s.eventIndex event (.of .alert)).traced s.eventIndex p.steps .alert).next
  | .interrupt result =>
    match result.actionType with
    | .alert => .running ((s.keep s.eventIndex event result).traced s.eventIndex p.steps .alert).next
    | .filter => .running (s.traced s.eventIndex p.steps .filter).next
    | .stop => .finished ((s.traced s.eventIndex p.steps .stop).result false)
    | .discard =>
      .finished (((s.traced s.eventIndex p.steps .discard).noted "discard" none).result true)
    | .log =>
      .running ((s.keep s.eventIndex event (.of .alert)).traced s.eventIndex p.steps .alert).next
    | .timeout =>
      let ((_, elapsed), world) := c.elapsed s.world
      let s := { s with world := world }.noted "timeout"
        (some s!"timeout after {elapsed} mid-event; remaining steps skipped")
      .running ((s.keep s.eventIndex event (.of .alert)).traced s.eventIndex p.steps .timeout).next

/-- One turn of `while event_index < len(events)`. -/
def turn (s : Loop Ω) : Progress Ω :=
  match s.events[s.eventIndex]? with
  | none => .finished (s.result false)
  | some event =>
    let ((expired, elapsed), world) := c.elapsed s.world
    let s := { s with world := world }
    if expired then
      let s := s.noted "timeout" (some s!"timeout after {elapsed}")
      .finished ((Loop.timedOut (s.events.drop s.eventIndex) s.eventIndex s).result false)
    else c.conclude s (c.processCurrent s event)

def run : Nat → Loop Ω → Option (Except String CorrelationResult)
  | 0, _ => none
  | turns + 1, s =>
    match c.turn s with
    | .running s => run turns s
    | .finished result => some (.ok result)
    | .raised message => some (.error message)

def execute (world : Ω) (events : List Event) (turns : Nat) :
    Option (Except String CorrelationResult) :=
  c.run turns (.start c world events)

end Engine

end Ace3.Correlation
