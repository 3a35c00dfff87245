import Ace3.Correlation.Engine
import Mathlib.Logic.Relation

/-!
# No Event is Lost

The engine for logic without stream transforms, and without `stop` and `discard`.
-/

namespace Ace3.Correlation

open Lib.Json

variable {Ω : Type*}

/-! ## §1 Steps that are reached -/

mutual

def StepConfig.plain : StepConfig → Bool
  | .condition _ _ execute else_ => plainSteps execute && plainSteps else_
  | .transform _ transform => transform.method.type ≠ "stream"
  | .action _ action => action.type ≠ .stop ∧ action.type ≠ .discard

def plainSteps : List StepConfig → Bool
  | [] => true
  | step :: steps => step.plain && plainSteps steps

end

namespace Engine

variable (c : Engine Ω)

/-- The clock is read, and the timeout is not reached. -/
def tick (w : Walk Ω) : Option (Walk Ω) :=
  if (c.elapsed w.world).1.1 then none else some { w with world := (c.elapsed w.world).2 }

/-- With a list of steps, an event in a walk reaches a step in another walk. -/
inductive Reaches (eventIndex : Nat) (step' : StepConfig) (w' : Walk Ω) :
    Nat → Walk Ω → List StepConfig → Prop where
  | here (stepIndex : Nat) (steps : List StepConfig) :
    Reaches eventIndex step' w' stepIndex w' (step' :: steps)
  /-- The steps before are completed. -/
  | later {stepIndex : Nat} {w w₁ : Walk Ω} {step : StepConfig} {steps : List StepConfig} :
    c.tick w = some w₁ → (c.processStep eventIndex stepIndex w₁ step).ending = .fell →
    Reaches eventIndex step' w' (stepIndex + 1) (c.processStep eventIndex stepIndex w₁ step).walk
      steps →
    Reaches eventIndex step' w' stepIndex w (step :: steps)
  /-- The step is in the branch of a condition that is taken. -/
  | branch {stepIndex : Nat} {w w₁ : Walk Ω} {description : Option String}
      {when : ExpressionConfig} {execute else_ steps : List StepConfig} {result : Bool}
      {trace : ExpressionTrace} :
    c.tick w = some w₁ → c.evaluateCondition when w₁ = .ok (result, trace) →
    trace.error = none →
    Reaches eventIndex step' w' 0 w₁ (if result then execute else else_) →
    Reaches eventIndex step' w' stepIndex w (.condition description when execute else_ :: steps)

/-- The evaluation of the expression raises, or a predefined query does not take the arguments. -/
def Raises (w : Walk Ω) : StepConfig → Prop
  | .condition _ when _ _ => ∃ message, c.evaluateCondition when w = .error message
  | .transform _ transform => ∃ message, c.effectiveQueryCommand transform.command = .error message
  | .action _ _ => False

def Unhandled (eventIndex stepIndex : Nat) (w : Walk Ω) (steps : List StepConfig) : Prop :=
  ∃ step' w' w₁, c.Reaches eventIndex step' w' stepIndex w steps ∧ c.tick w' = some w₁ ∧
    c.Raises w₁ step'

def Expired (eventIndex stepIndex : Nat) (w : Walk Ω) (steps : List StepConfig) : Prop :=
  ∃ step' w', c.Reaches eventIndex step' w' stepIndex w steps ∧ c.tick w' = none

variable {c} {eventIndex stepIndex : Nat} {w w₁ : Walk Ω} {step : StepConfig}
  {steps : List StepConfig}

theorem tick_eq_none : c.tick w = none ↔ (c.elapsed w.world).1.1 = true := by
  unfold tick
  cases (c.elapsed w.world).1.1 <;> simp

theorem tick_eq_some : c.tick w = some w₁ ↔
    (c.elapsed w.world).1.1 = false ∧ w₁ = { w with world := (c.elapsed w.world).2 } := by
  unfold tick
  cases (c.elapsed w.world).1.1 <;> simp [eq_comm]

theorem processEventSteps_expired (h : c.tick w = none) :
    c.processEventSteps eventIndex stepIndex w (step :: steps) =
      ⟨{ w with world := (c.elapsed w.world).2 }, [], .interrupt (.of .timeout)⟩ := by
  rw [processEventSteps]
  simp only [tick_eq_none.mp h, if_true]

theorem processEventSteps_of_ne (h : c.tick w = some w₁)
    (hne : (c.processStep eventIndex stepIndex w₁ step).ending ≠ .fell) :
    c.processEventSteps eventIndex stepIndex w (step :: steps) =
      c.processStep eventIndex stepIndex w₁ step := by
  obtain ⟨hrunning, rfl⟩ := tick_eq_some.mp h
  rw [processEventSteps]
  simp only [hrunning, Bool.false_eq_true, if_false]

theorem processEventSteps_of_fell (h : c.tick w = some w₁)
    (hfell : (c.processStep eventIndex stepIndex w₁ step).ending = .fell) :
    c.processEventSteps eventIndex stepIndex w (step :: steps) =
      ⟨(c.processEventSteps eventIndex (stepIndex + 1)
          (c.processStep eventIndex stepIndex w₁ step).walk steps).walk,
        (c.processStep eventIndex stepIndex w₁ step).steps ++
          (c.processEventSteps eventIndex (stepIndex + 1)
            (c.processStep eventIndex stepIndex w₁ step).walk steps).steps,
        (c.processEventSteps eventIndex (stepIndex + 1)
          (c.processStep eventIndex stepIndex w₁ step).walk steps).ending⟩ := by
  obtain ⟨hrunning, rfl⟩ := tick_eq_some.mp h
  rw [processEventSteps]
  simp only [hrunning, Bool.false_eq_true, if_false, hfell]

theorem closeCondition_raised {description : Option String} {trace : ExpressionTrace}
    {branch : Branch} {p : Processed Ω} :
    (∃ message, (closeCondition description trace stepIndex branch p).ending = .raised message) ↔
      ∃ message, p.ending = .raised message := by
  unfold closeCondition
  cases hending : p.ending <;> simp [Ending.within]

mutual

theorem processStep_raised (eventIndex stepIndex : Nat) (w : Walk Ω) :
    ∀ step : StepConfig, (∃ message, (c.processStep eventIndex stepIndex w step).ending =
        .raised message) →
      c.Raises w step ∨ ∃ description when execute else_ result trace,
        step = .condition description when execute else_ ∧
        c.evaluateCondition when w = .ok (result, trace) ∧ trace.error = none ∧
        c.Unhandled eventIndex 0 w (if result then execute else else_)
  | .condition description when execute else_, h => by
    rw [processStep] at h
    cases hevaluate : c.evaluateCondition when w with
    | error error => exact .inl ⟨error, hevaluate⟩
    | ok pair =>
      obtain ⟨result, trace⟩ := pair
      simp only [hevaluate] at h
      cases herror : trace.error with
      | some error =>
        simp only [herror] at h
        obtain ⟨message, h⟩ := h
        cases h
      | none =>
        simp only [herror] at h
        refine .inr ⟨description, when, execute, else_, result, trace, rfl, hevaluate, herror, ?_⟩
        cases result with
        | true =>
          rw [if_pos rfl] at h ⊢
          exact processEventSteps_raised eventIndex 0 w execute (closeCondition_raised.mp h)
        | false =>
          rw [if_neg Bool.false_ne_true] at h ⊢
          split at h
          · obtain ⟨message, h⟩ := h
            cases h
          · exact processEventSteps_raised eventIndex 0 w else_ (closeCondition_raised.mp h)
  | .transform description transform, h => by
    left
    rw [processStep, executeTransform] at h
    cases hquery : c.effectiveQueryCommand transform.command with
    | error error => exact ⟨error, hquery⟩
    | ok query =>
      -- from here on everything that is raised is caught
      simp only [hquery] at h
      obtain ⟨message, h⟩ := h
      split at h
      · cases h
      · unfold applyTransform at h
        cases hmethod : transform.method <;> simp only [hmethod] at h <;> (try split at h) <;> cases h
  | .action description action, h => by
    rw [processStep, executeAction] at h
    obtain ⟨message, h⟩ := h
    cases hlog : c.logError action w.event.value (w.events.map (·.value)) with
    | some error =>
      simp only [hlog] at h
      cases h
    | none =>
      simp only [hlog] at h
      split at h <;> cases h

theorem processEventSteps_raised (eventIndex stepIndex : Nat) (w : Walk Ω) :
    ∀ steps : List StepConfig, (∃ message, (c.processEventSteps eventIndex stepIndex w steps).ending =
        .raised message) →
      c.Unhandled eventIndex stepIndex w steps
  | [], h => by
    obtain ⟨message, h⟩ := h
    rw [processEventSteps] at h
    cases h
  | step :: steps, h => by
    cases htick : c.tick w with
    | none =>
      obtain ⟨message, h⟩ := h
      rw [processEventSteps_expired htick] at h
      cases h
    | some w₁ =>
      by_cases hfell : (c.processStep eventIndex stepIndex w₁ step).ending = .fell
      · rw [processEventSteps_of_fell htick hfell] at h
        obtain ⟨step', w', w₂, hreach, htick', hraises⟩ :=
          processEventSteps_raised eventIndex (stepIndex + 1) _ steps h
        exact ⟨step', w', w₂, .later htick hfell hreach, htick', hraises⟩
      · rw [processEventSteps_of_ne htick hfell] at h
        rcases processStep_raised eventIndex stepIndex w₁ step h with hraises |
          ⟨description, when, execute, else_, result, trace, rfl, hevaluate, herror, step', w', w₂,
            hreach, htick', hraises⟩
        · exact ⟨step, w, w₁, .here stepIndex steps, htick, hraises⟩
        · exact ⟨step', w', w₂, .branch htick hevaluate herror hreach, htick', hraises⟩

end

/-- An exception gets out of the steps exactly where the event reaches a step that raises what
nothing catches. -/
theorem raised_iff_unhandled :
    (∃ message, (c.processEventSteps eventIndex stepIndex w steps).ending = .raised message) ↔
      c.Unhandled eventIndex stepIndex w steps := by
  refine ⟨processEventSteps_raised eventIndex stepIndex w steps, ?_⟩
  rintro ⟨step', w', w₁, hreach, htick, hraises⟩
  induction hreach with
  | here stepIndex steps =>
    have hraised : ∃ message, (c.processStep eventIndex stepIndex w₁ step').ending =
        .raised message := by
      cases step' with
      | condition description when execute else_ =>
        obtain ⟨message, hevaluate⟩ := hraises
        exact ⟨message, by rw [processStep, hevaluate]⟩
      | transform description transform =>
        obtain ⟨message, hquery⟩ := hraises
        exact ⟨message, by rw [processStep, executeTransform, hquery]⟩
      | action description action => exact hraises.elim
    obtain ⟨message, hraised⟩ := hraised
    rw [processEventSteps_of_ne htick (by rw [hraised]; exact Ending.noConfusion)]
    exact ⟨message, hraised⟩
  | later htick' hfell _ ih =>
    rw [processEventSteps_of_fell htick' hfell]
    exact ih
  | @branch stepIndex w w₁' description when execute else_ steps result trace htick' hevaluate
      herror _ ih =>
    obtain ⟨message, ih⟩ := ih
    have hraised : ∃ message, (c.processStep eventIndex stepIndex w₁'
        (.condition description when execute else_)).ending = .raised message := by
      rw [processStep, hevaluate]
      simp only [herror]
      cases result with
      | true => exact closeCondition_raised.mpr ⟨message, ih⟩
      | false =>
        simp only [Bool.false_eq_true, if_false] at ih ⊢
        -- an empty branch raises nothing
        cases else_ with
        | nil =>
          rw [processEventSteps] at ih
          cases ih
        | cons step steps => exact closeCondition_raised.mpr ⟨message, ih⟩
    obtain ⟨message, hraised⟩ := hraised
    rw [processEventSteps_of_ne htick' (by rw [hraised]; exact Ending.noConfusion)]
    exact ⟨message, hraised⟩

theorem timeout_of_expired (h : c.Expired eventIndex stepIndex w steps) :
    (c.processEventSteps eventIndex stepIndex w steps).ending = .interrupt (.of .timeout) := by
  obtain ⟨step', w', hreach, htick⟩ := h
  induction hreach with
  | here stepIndex steps => rw [processEventSteps_expired htick]
  | later htick' hfell _ ih =>
    rw [processEventSteps_of_fell htick' hfell]
    exact ih
  | @branch stepIndex w w₁' description when execute else_ steps result trace htick' hevaluate
      herror _ ih =>
    have hending : (c.processStep eventIndex stepIndex w₁'
        (.condition description when execute else_)).ending = .interrupt (.of .timeout) := by
      rw [processStep, hevaluate]
      simp only [herror]
      cases result with
      | true =>
        simp only [if_true] at ih ⊢
        simp only [closeCondition, ih]
      | false =>
        simp only [Bool.false_eq_true, if_false] at ih ⊢
        cases else_ with
        | nil =>
          rw [processEventSteps] at ih
          cases ih
        | cons step steps => simp only [List.isEmpty_cons, Bool.false_eq_true, if_false,
            closeCondition, ih]
    rw [processEventSteps_of_ne htick' (by rw [hending]; exact Ending.noConfusion)]
    exact hending

end Engine

/-! ## §2 Traces -/

mutual

def StepTrace.filters : StepTrace → Bool
  | .condition _ _ _ branchSteps _ => anyFilters branchSteps
  | .transform _ _ => false
  | .action _ trace => trace.isInterrupt && trace.actionType = "filter"

def anyFilters : List StepTrace → Bool
  | [] => false
  | step :: steps => step.filters || anyFilters steps

end

mutual

def StepTrace.fails : StepTrace → Bool
  | .condition _ _ _ branchSteps error => error.isSome || anyFails branchSteps
  | .transform _ trace => trace.error.isSome
  | .action _ trace => trace.error.isSome

def anyFails : List StepTrace → Bool
  | [] => false
  | step :: steps => step.fails || anyFails steps

end

@[simp] theorem anyFilters_append (steps steps' : List StepTrace) :
    anyFilters (steps ++ steps') = (anyFilters steps || anyFilters steps') := by
  induction steps with
  | nil => simp [anyFilters]
  | cons step steps ih => simp [anyFilters, ih, Bool.or_assoc]

@[simp] theorem anyFails_append (steps steps' : List StepTrace) :
    anyFails (steps ++ steps') = (anyFails steps || anyFails steps') := by
  induction steps with
  | nil => simp [anyFails]
  | cons step steps ih => simp [anyFails, ih, Bool.or_assoc]

/-- What the trace of the steps says goes with how they ended. -/
inductive Agrees : Ending → Bool → Bool → Prop where
  | fell : Agrees .fell false false
  | filter (result : ActionResult) : result.actionType = .filter →
    Agrees (.interrupt result) true false
  | alert (result : ActionResult) : result.actionType = .alert →
    Agrees (.interrupt result) false false
  | timeout (result : ActionResult) : result.actionType = .timeout →
    Agrees (.interrupt result) false false
  | failed (message : String) : Agrees (.failed message) false true
  | raised (message : String) (filters fails : Bool) : Agrees (.raised message) filters fails

variable {filters fails : Bool}

theorem Agrees.of_fell (h : Agrees .fell filters fails) :
    filters = false ∧ fails = false := by
  cases h
  exact ⟨rfl, rfl⟩

theorem Agrees.of_failed {message : String} (h : Agrees (.failed message) filters fails) :
    filters = false ∧ fails = true := by
  cases h
  exact ⟨rfl, rfl⟩

theorem Agrees.of_interrupt {result : ActionResult} (h : Agrees (.interrupt result) filters fails) :
    fails = false ∧ ((result.actionType = .filter ∧ filters = true) ∨
      ((result.actionType = .alert ∨ result.actionType = .timeout) ∧ filters = false)) := by
  cases h with
  | filter _ h => exact ⟨rfl, .inl ⟨h, rfl⟩⟩
  | alert _ h => exact ⟨rfl, .inr ⟨.inl h, rfl⟩⟩
  | timeout _ h => exact ⟨rfl, .inr ⟨.inr h, rfl⟩⟩

theorem Agrees.ne_reset {ending : Ending} (h : Agrees ending filters fails) (newStream : List Event)
    (resume : Nat) (place : Place) :
    ending ≠ .reset newStream resume place := by
  rintro rfl
  cases h

/-- An event is processed: the object stays the same, and it is the only one that is changed. -/
structure Fair (eventIndex : Nat) (w : Walk Ω) (p : Processed Ω) : Prop where
  id : p.walk.event.id = w.event.id
  events : p.walk.events = w.events.set eventIndex p.walk.event
  agrees : Agrees p.ending (anyFilters p.steps) (anyFails p.steps)

/-! ## §3 One event -/

section Fairness

variable {eventIndex : Nat} {w : Walk Ω}

def Walk.Current (eventIndex : Nat) (w : Walk Ω) : Prop := w.events.set eventIndex w.event = w.events

variable {p : Processed Ω}

theorem Fair.current (h : Fair eventIndex w p) :
    Walk.Current eventIndex p.walk := by
  unfold Walk.Current
  rw [h.events, List.set_set]

theorem Fair.trans {p' : Processed Ω} (h : Fair eventIndex w p) (h' : Fair eventIndex p.walk p')
    (hagrees : Agrees p'.ending (anyFilters (p.steps ++ p'.steps))
      (anyFails (p.steps ++ p'.steps))) :
    Fair eventIndex w ⟨p'.walk, p.steps ++ p'.steps, p'.ending⟩ :=
  ⟨h'.id.trans h.id, by rw [h'.events, h.events, List.set_set], hagrees⟩

theorem Fair.of_world {world : Ω} (h : Fair eventIndex { w with world := world } p) :
    Fair eventIndex w p :=
  ⟨h.id, h.events, h.agrees⟩

end Fairness

namespace Engine

variable {c : Engine Ω} {eventIndex stepIndex : Nat} {w : Walk Ω}

theorem fair_executeAction (hw : Walk.Current eventIndex w) (description : Option String)
    (action : ActionConfig) (hplain : (StepConfig.action description action).plain = true) :
    Fair eventIndex w (c.executeAction description action w) := by
  cases hlog : c.logError action w.event.value (w.events.map (·.value)) with
  | some error =>
    simp only [executeAction, hlog]
    exact ⟨rfl, hw.symm, .failed _⟩
  | none =>
    simp only [executeAction, hlog]
    refine ⟨rfl, hw.symm, ?_⟩
    have htype := of_decide_eq_true hplain
    dsimp only
    unfold actionResult
    cases haction : action.type with
    | filter => exact .filter _ rfl
    | stop => exact absurd haction htype.1
    | discard => exact absurd haction htype.2
    | alert => exact .alert _ rfl
    | log => exact .fell
    | timeout => exact absurd haction action.valid

theorem fair_executeTransform (hw : Walk.Current eventIndex w) (description : Option String)
    (transform : TransformConfig)
    (hplain : (StepConfig.transform description transform).plain = true) :
    Fair eventIndex w (c.executeTransform description transform eventIndex stepIndex w) := by
  have hfail : ∀ (trace : TransformTrace) (error : String) (world : Ω),
      Fair eventIndex w (c.failTransform description trace error { w with world := world }) :=
    fun trace error world => ⟨rfl, hw.symm, .failed _⟩
  have htype := of_decide_eq_true hplain
  unfold executeTransform
  split
  · exact ⟨rfl, hw.symm, .raised _ _ _⟩
  · dsimp only
    split
    · exact hfail _ _ _
    · unfold applyTransform
      cases hmethod : transform.method with
      | property name type =>
        dsimp only
        split
        · exact hfail _ _ _
        · refine ⟨rfl, rfl, ?_⟩
          -- the property is part of the trace or not
          by_cases hname : name = ""
          · rw [if_pos hname]
            exact .fell
          · rw [if_neg hname]
            exact .fell
      | merge spec => exact absurd (by rw [hmethod]; rfl) htype
      | mutate => exact absurd (by rw [hmethod]; rfl) htype
      | unknown type method => exact hfail _ _ _

theorem fair_closeCondition {p : Processed Ω} (description : Option String)
    (trace : ExpressionTrace) (branch : Branch) (h : Fair eventIndex w p) :
    Fair eventIndex w (closeCondition description trace stepIndex branch p) := by
  obtain ⟨hid, hevents, hagrees⟩ := h
  unfold closeCondition
  cases hending : p.ending with
  | fell =>
    rw [hending] at hagrees
    refine ⟨hid, hevents, ?_⟩
    simpa [anyFilters, anyFails, StepTrace.filters, StepTrace.fails] using hagrees
  | interrupt result =>
    rw [hending] at hagrees
    refine ⟨hid, hevents, ?_⟩
    simpa [anyFilters, anyFails, StepTrace.filters, StepTrace.fails] using hagrees
  | reset newStream resume place =>
    rw [hending] at hagrees
    cases hagrees
  | failed message =>
    rw [hending] at hagrees
    refine ⟨hid, hevents, ?_⟩
    simpa [anyFilters, anyFails, StepTrace.filters, StepTrace.fails] using hagrees
  | raised message => exact ⟨hid, hevents, .raised _ _ _⟩

mutual

theorem fair_processStep (eventIndex stepIndex : Nat) (w : Walk Ω)
    (hw : Walk.Current eventIndex w) :
    ∀ step : StepConfig, step.plain = true →
      Fair eventIndex w (c.processStep eventIndex stepIndex w step)
  | .condition description when execute else_, hplain => by
    obtain ⟨hexecute, helse⟩ := Bool.and_eq_true_iff.mp hplain
    rw [processStep]
    split
    · exact ⟨rfl, hw.symm, .raised _ _ _⟩
    · split
      · exact ⟨rfl, hw.symm, .failed _⟩
      · split
        · exact fair_closeCondition _ _ _ (fair_processEventSteps eventIndex 0 w hw execute hexecute)
        · split
          · exact ⟨rfl, hw.symm, .fell⟩
          · exact fair_closeCondition _ _ _ (fair_processEventSteps eventIndex 0 w hw else_ helse)
  | .transform description transform, hplain => by
    rw [processStep]
    exact fair_executeTransform hw description transform hplain
  | .action description action, hplain => by
    rw [processStep]
    exact fair_executeAction hw description action hplain

theorem fair_processEventSteps (eventIndex stepIndex : Nat) (w : Walk Ω)
    (hw : Walk.Current eventIndex w) :
    ∀ steps : List StepConfig, plainSteps steps = true →
      Fair eventIndex w (c.processEventSteps eventIndex stepIndex w steps)
  | [], _ => by
    rw [processEventSteps]
    exact ⟨rfl, hw.symm, .fell⟩
  | step :: steps, hplain => by
    obtain ⟨hstep, hsteps⟩ := Bool.and_eq_true_iff.mp hplain
    cases htick : c.tick w with
    | none =>
      rw [processEventSteps_expired htick]
      exact ⟨rfl, hw.symm, .timeout _ rfl⟩
    | some w₁ =>
      obtain ⟨-, rfl⟩ := tick_eq_some.mp htick
      have hfirst := fair_processStep eventIndex stepIndex { w with world := (c.elapsed w.world).2 }
        hw step hstep
      by_cases hfell : (c.processStep eventIndex stepIndex
          { w with world := (c.elapsed w.world).2 } step).ending = .fell
      · rw [processEventSteps_of_fell htick hfell]
        have hrest := fair_processEventSteps eventIndex (stepIndex + 1) _ hfirst.current steps hsteps
        refine (hfirst.trans hrest ?_).of_world
        -- nothing has been filtered or has failed so far
        have hagrees := hfirst.agrees
        rw [hfell] at hagrees
        obtain ⟨hfilters, hfails⟩ := hagrees.of_fell
        rw [anyFilters_append, anyFails_append, hfilters, hfails, Bool.false_or, Bool.false_or]
        exact hrest.agrees
      · rw [processEventSteps_of_ne htick hfell]
        exact hfirst.of_world

end

end Engine

/-! ## §4 The loop -/

/-- The outcome of an event is what its trace says. -/
structure EventTrace.Matching (trace : EventTrace) : Prop where
  outcome : trace.outcome ∈ [.alert, .filter, .timeout, .error]
  filter : trace.outcome = .filter ↔ anyFilters trace.steps = true
  error : trace.outcome = .error ↔ anyFails trace.steps = true

/-- There is one trace for each of the events, in their order, and the events that were not
filtered are kept, in their order, with their own indices. -/
structure CorrelationResult.Conserves (input : List Event) (result : Engine.CorrelationResult) :
    Prop where
  notDiscarded : result.discarded = false
  traces : result.trace.eventTraces.map (·.eventIndex) = List.range input.length
  matching : ∀ trace ∈ result.trace.eventTraces, trace.Matching
  origins : result.alertEventOriginIndices =
    (result.trace.eventTraces.filter (·.outcome ≠ .filter)).map (·.eventIndex)
  events : result.events.map (fun e => some e.id) =
    result.alertEventOriginIndices.map fun i => (input[i]?).map (·.id)

namespace Engine

open Relation

variable {c : Engine Ω} {input : List Event} {s s' : Loop Ω} {n : Nat}

/-- The walk with which the current event of the loop starts, once the clock has been read. -/
def Loop.walk (s : Loop Ω) (world : Ω) (event : Event) : Walk Ω :=
  ⟨world, s.currentSource, event, s.events, s.nextId⟩

/-- In no turn that the loop gets to does the event reach a step that raises what nothing
catches. -/
def Handled (c : Engine Ω) (s : Loop Ω) : Prop :=
  ∀ s', ReflTransGen (fun s s' => c.turn s = .running s') s s' → ∀ event,
    s'.events[s'.eventIndex]? = some event → (c.elapsed s'.world).1.1 = false →
      ¬ c.Unhandled s'.eventIndex s'.startStepIndex (s'.walk (c.elapsed s'.world).2 event)
        (c.logic.drop s'.startStepIndex)

/-- The time is over when it is the turn of the event, or before it is through. -/
def MeetsTimeout (c : Engine Ω) (s : Loop Ω) (event : Event) : Prop :=
  (c.elapsed s.world).1.1 = true ∨
    c.Expired s.eventIndex s.startStepIndex (s.walk (c.elapsed s.world).2 event)
      (c.logic.drop s.startStepIndex)

def TimeoutsRecorded (c : Engine Ω) (s : Loop Ω) (result : CorrelationResult) : Prop :=
  ∀ s', ReflTransGen (fun s s' => c.turn s = .running s') s s' → ∀ event,
    s'.events[s'.eventIndex]? = some event → c.MeetsTimeout s' event →
      ∃ trace ∈ result.trace.eventTraces,
        trace.eventIndex = s'.eventIndex ∧ trace.outcome = .timeout

structure Conserved (input : List Event) (n : Nat) (s : Loop Ω) : Prop where
  traces : s.eventTraces.map (·.eventIndex) = List.range n
  matching : ∀ trace ∈ s.eventTraces, trace.Matching
  origins : s.alertEvents.map (·.1) =
    (s.eventTraces.filter (·.outcome ≠ .filter)).map (·.eventIndex)
  events : ∀ pair ∈ s.alertEvents, (input[pair.1]?).map (·.id) = some pair.2.id

/-- The loop goes through the events one after the other. -/
structure OnTrack (input : List Event) (s : Loop Ω) : Prop where
  ids : s.events.map (·.id) = input.map (·.id)
  start : s.startStepIndex = 0
  index_le : s.eventIndex ≤ input.length
  conserved : Conserved input s.eventIndex s

variable {event : Event}

theorem Conserved.advance (h : Conserved input n s) {trace : EventTrace}
    (htraces : s'.eventTraces = s.eventTraces ++ [trace]) (hindex : trace.eventIndex = n)
    (hmatching : trace.Matching)
    (halerts : s'.alertEvents =
      s.alertEvents ++ if trace.outcome = .filter then [] else [(n, event)])
    (hid : (input[n]?).map (·.id) = some event.id) : Conserved input (n + 1) s' := by
  refine ⟨?_, ?_, ?_, ?_⟩
  · rw [htraces, List.map_append, h.traces, List.range_succ, List.map_singleton, hindex]
  · intro trace' hmem
    rw [htraces] at hmem
    rcases List.mem_append.mp hmem with hmem | hmem
    · exact h.matching trace' hmem
    · rwa [List.mem_singleton.mp hmem]
  · rw [htraces, halerts, List.map_append, List.filter_append, List.map_append, h.origins]
    by_cases hfilter : trace.outcome = .filter
    · simp [hfilter]
    · simp [hfilter, hindex]
  · intro pair hmem
    rw [halerts] at hmem
    rcases List.mem_append.mp hmem with hmem | hmem
    · exact h.events pair hmem
    · split at hmem
      · cases hmem
      · rw [List.mem_singleton.mp hmem]
        exact hid

theorem Conserved.conserves (h : Conserved input input.length s) :
    CorrelationResult.Conserves input (s.result false) := by
  refine ⟨rfl, h.traces, h.matching, h.origins, ?_⟩
  simp only [Loop.result, Bool.false_eq_true, if_false, List.map_map]
  apply List.map_congr_left
  intro pair hmem
  exact (h.events pair hmem).symm

theorem Conserved.timedOut (h : Conserved input n s) {events : List Event}
    (hids : events.map (·.id) = (input.drop n).map (·.id)) (hn : n ≤ input.length) :
    Conserved input input.length (Loop.timedOut events n s) := by
  induction events generalizing n s with
  | nil =>
    have hlength : input.length - n = 0 := by simpa using congrArg List.length hids.symm
    obtain rfl : n = input.length := by omega
    exact h
  | cons event events ih =>
    have hlt : n < input.length := by
      have hlength := congrArg List.length hids
      simp only [List.length_map, List.length_cons, List.length_drop] at hlength
      omega
    rw [List.drop_eq_getElem_cons hlt, List.map_cons, List.map_cons] at hids
    obtain ⟨hid, hrest⟩ := List.cons.inj hids
    rw [Loop.timedOut]
    have htraced : Conserved input (n + 1)
        ((s.keep n event (.of .alert)).traced n [] .timeout) := by
      apply h.advance rfl rfl
      · exact ⟨by simp, by simp [anyFilters], by simp [anyFails]⟩
      · rfl
      · rw [List.getElem?_eq_getElem hlt, Option.map_some, hid]
    exact ih htraced hrest hlt

theorem eventTraces_timedOut (events : List Event) (n : Nat) (s : Loop Ω) :
    s.eventTraces <+: (Loop.timedOut events n s).eventTraces := by
  induction events generalizing n s with
  | nil => exact List.prefix_rfl
  | cons event events ih =>
    rw [Loop.timedOut]
    apply List.IsPrefix.trans _ (ih _ _)
    exact List.prefix_append _ _

theorem eventTraces_conclude {p : Processed Ω} (h : c.conclude s p = .running s')
    (hreset : ∀ newStream resume place, p.ending ≠ .reset newStream resume place) :
    ∃ outcome, s'.eventTraces = s.eventTraces ++ [⟨s.eventIndex, p.steps, outcome⟩] ∧
      (p.ending = .interrupt (.of .timeout) → outcome = .timeout) := by
  unfold conclude at h
  cases hending : p.ending with
  | fell =>
    rw [hending] at h
    cases h
    exact ⟨.alert, rfl, nofun⟩
  | failed message =>
    rw [hending] at h
    cases h
    exact ⟨.error, rfl, nofun⟩
  | raised message =>
    rw [hending] at h
    cases h
  | reset newStream resume place => exact absurd hending (hreset newStream resume place)
  | interrupt result =>
    rw [hending] at h
    cases htype : result.actionType <;> simp only [htype] at h <;> cases h
    · refine ⟨.filter, rfl, fun htimeout => ?_⟩
      rw [Ending.interrupt.inj htimeout] at htype
      cases htype
    · refine ⟨.alert, rfl, fun htimeout => ?_⟩
      rw [Ending.interrupt.inj htimeout] at htype
      cases htype
    · refine ⟨.alert, rfl, fun htimeout => ?_⟩
      rw [Ending.interrupt.inj htimeout] at htype
      cases htype
    · exact ⟨.timeout, rfl, fun _ => rfl⟩

theorem OnTrack.conclude (h : OnTrack input s) {world : Ω} {p : Processed Ω}
    (hevent : s.events[s.eventIndex]? = some event)
    (hfair : Fair s.eventIndex (s.walk world event) p) (hraised : ∀ m, p.ending ≠ .raised m) :
    ∃ s', c.conclude s p = .running s' ∧ OnTrack input s' ∧ s'.eventIndex = s.eventIndex + 1 := by
  have hlt : s.eventIndex < s.events.length := (List.getElem?_eq_some_iff.mp hevent).1
  have hlength : s.events.length = input.length := by simpa using congrArg List.length h.ids
  have hinput : (input[s.eventIndex]?).map (·.id) = some p.walk.event.id := by
    rw [← List.getElem?_map, ← h.ids, List.getElem?_map, hevent, hfair.id]
    rfl
  have hids : p.walk.events.map (·.id) = input.map (·.id) := by
    rw [hfair.events, List.map_set, hfair.id, ← h.ids]
    have hindex : s.eventIndex < (s.events.map (·.id)).length := by simpa using hlt
    have hsame : (s.events.map (·.id))[s.eventIndex] = event.id := by
      rw [List.getElem_map, (List.getElem?_eq_some_iff.mp hevent).2]
    show (s.events.map (·.id)).set s.eventIndex event.id = s.events.map (·.id)
    rw [← hsame, List.set_getElem_self]
  have hagrees := hfair.agrees
  -- whatever is recorded of the event, its trace goes with the outcome
  have hadvance : ∀ (s' : Loop Ω) (outcome : EventOutcome),
      EventTrace.Matching ⟨s.eventIndex, p.steps, outcome⟩ →
      s'.eventTraces = s.eventTraces ++ [⟨s.eventIndex, p.steps, outcome⟩] →
      s'.alertEvents = (s.alertEvents ++
        if outcome = .filter then [] else [(s.eventIndex, p.walk.event)]) →
      s'.events = p.walk.events → s'.startStepIndex = s.startStepIndex →
      s'.eventIndex = s.eventIndex + 1 → OnTrack input s' := by
    intro s' outcome hmatching htraces halerts hevents hstart hindex
    refine ⟨hevents ▸ hids, hstart.trans h.start, by omega, ?_⟩
    rw [hindex]
    exact h.conserved.advance htraces rfl hmatching halerts hinput
  unfold Engine.conclude
  cases hending : p.ending with
  | raised message => exact absurd hending (hraised message)
  | reset newStream resume place =>
    rw [hending] at hagrees
    cases hagrees
  | failed message =>
    obtain ⟨hfilters, hfails⟩ := (hending ▸ hagrees).of_failed
    refine ⟨_, rfl, hadvance _ .error ?_ rfl rfl rfl rfl rfl, rfl⟩
    exact ⟨by simp, by simp [hfilters], by simp [hfails]⟩
  | fell =>
    obtain ⟨hfilters, hfails⟩ := (hending ▸ hagrees).of_fell
    refine ⟨_, rfl, hadvance _ .alert ?_ rfl rfl rfl rfl rfl, rfl⟩
    exact ⟨by simp, by simp [hfilters], by simp [hfails]⟩
  | interrupt result =>
    obtain ⟨hfails, ⟨htype, hfilters⟩ | ⟨htype | htype, hfilters⟩⟩ := (hending ▸ hagrees).of_interrupt
    · simp only [htype]
      refine ⟨_, rfl, hadvance _ .filter ?_ rfl (List.append_nil _).symm rfl rfl rfl, rfl⟩
      exact ⟨by simp, by simp [hfilters], by simp [hfails]⟩
    · simp only [htype]
      refine ⟨_, rfl, hadvance _ .alert ?_ rfl rfl rfl rfl rfl, rfl⟩
      exact ⟨by simp, by simp [hfilters], by simp [hfails]⟩
    · simp only [htype]
      refine ⟨_, rfl, hadvance _ .timeout ?_ rfl rfl rfl rfl rfl, rfl⟩
      exact ⟨by simp, by simp [hfilters], by simp [hfails]⟩

theorem turn_of_running (hevent : s.events[s.eventIndex]? = some event)
    (hrunning : (c.elapsed s.world).1.1 = false) :
    c.turn s = c.conclude { s with world := (c.elapsed s.world).2 }
      (c.processEventSteps s.eventIndex s.startStepIndex (s.walk (c.elapsed s.world).2 event)
        (c.logic.drop s.startStepIndex)) := by
  unfold turn
  simp only [hevent, hrunning, Bool.false_eq_true, if_false]
  rfl

theorem timeoutsRecorded_timedOut (hevent : s.events[s.eventIndex]? = some event)
    (hexpired : (c.elapsed s.world).1.1 = true) {s₁ : Loop Ω} :
    c.TimeoutsRecorded s
      ((Loop.timedOut (s.events.drop s.eventIndex) s.eventIndex s₁).result false) := by
  intro s' hsteps event' _ _
  have hfinished : ∀ s'', c.turn s ≠ .running s'' := by
    intro s'' hturn
    simp only [turn, hevent, hexpired, if_true] at hturn
    cases hturn
  rcases ReflTransGen.cases_head hsteps with rfl | ⟨s'', hturn, -⟩
  · have hlt := (List.getElem?_eq_some_iff.mp hevent).1
    rw [List.drop_eq_getElem_cons hlt, Loop.timedOut]
    refine ⟨⟨s.eventIndex, [], .timeout⟩, ?_, rfl, rfl⟩
    apply (eventTraces_timedOut _ _ _).subset
    exact List.mem_append_right _ (List.mem_singleton_self _)
  · exact absurd hturn (hfinished s'')

/-- **The loop comes to its end** from where every event is handled, and has conserved the
events. -/
theorem OnTrack.run (hplain : plainSteps c.logic = true) (h : OnTrack input s)
    (hhandled : c.Handled s) :
    ∃ turns result, c.run turns s = some (.ok result) ∧
      CorrelationResult.Conserves input result ∧ c.TimeoutsRecorded s result ∧
      s.eventTraces <+: result.trace.eventTraces := by
  -- by induction on the number of events that are left
  induction hleft : input.length - s.eventIndex generalizing s with
  | zero =>
    have hlength : s.events.length = input.length := by simpa using congrArg List.length h.ids
    have hnone : s.events[s.eventIndex]? = none := by
      rw [List.getElem?_eq_none_iff]
      have := h.index_le
      omega
    have hturn : c.turn s = .finished (s.result false) := by rw [turn, hnone]
    refine ⟨1, s.result false, by rw [Engine.run, hturn], ?_, ?_, List.prefix_rfl⟩
    · have hindex : s.eventIndex = input.length := by
        have := h.index_le
        omega
      exact (hindex ▸ h.conserved).conserves
    · intro s' hsteps event hevent _
      rcases ReflTransGen.cases_head hsteps with rfl | ⟨s'', hturn', -⟩
      · rw [hnone] at hevent
        cases hevent
      · rw [hturn] at hturn'
        cases hturn'
  | succ left ih =>
    have hlength : s.events.length = input.length := by simpa using congrArg List.length h.ids
    have hlt : s.eventIndex < s.events.length := by omega
    have hevent := List.getElem?_eq_getElem hlt
    cases hexpired : (c.elapsed s.world).1.1 with
    | true =>
      obtain ⟨s₁, hfinal, htraces, halerts⟩ : ∃ s₁ : Loop Ω, c.turn s = .finished
          ((Loop.timedOut (s.events.drop s.eventIndex) s.eventIndex s₁).result false) ∧
          s₁.eventTraces = s.eventTraces ∧ s₁.alertEvents = s.alertEvents := by
        rw [turn]
        simp only [hevent, hexpired, if_true]
        exact ⟨_, rfl, rfl, rfl⟩
      refine ⟨1, _, by rw [Engine.run, hfinal], ?_, timeoutsRecorded_timedOut hevent hexpired,
        htraces ▸ eventTraces_timedOut _ _ _⟩
      apply Conserved.conserves
      apply Conserved.timedOut (n := s.eventIndex)
      · exact ⟨htraces ▸ h.conserved.traces, htraces ▸ h.conserved.matching,
          htraces ▸ halerts ▸ h.conserved.origins, halerts ▸ h.conserved.events⟩
      · show (s.events.drop s.eventIndex).map (·.id) = _
        rw [List.map_drop, h.ids, List.map_drop]
      · exact h.index_le
    | false =>
      have hturn := turn_of_running hevent hexpired
      have hw : Walk.Current s.eventIndex (s.walk (c.elapsed s.world).2 s.events[s.eventIndex]) :=
        List.set_getElem_self hlt
      have hfair := fair_processEventSteps (c := c) s.eventIndex s.startStepIndex _ hw
        (c.logic.drop s.startStepIndex) (by rw [h.start]; exact hplain)
      have hraised : ∀ m, (c.processEventSteps s.eventIndex s.startStepIndex
          (s.walk (c.elapsed s.world).2 s.events[s.eventIndex])
          (c.logic.drop s.startStepIndex)).ending ≠ .raised m := fun m hm =>
        hhandled s .refl _ hevent hexpired (raised_iff_unhandled.mp ⟨m, hm⟩)
      have hworld : OnTrack input { s with world := (c.elapsed s.world).2 } :=
        ⟨h.ids, h.start, h.index_le, ⟨h.conserved.traces, h.conserved.matching,
          h.conserved.origins, h.conserved.events⟩⟩
      obtain ⟨s', hconclude, htrack, hindex⟩ := hworld.conclude hevent hfair hraised
      obtain ⟨outcome, htraces, htimeout⟩ := eventTraces_conclude hconclude
        (fun newStream resume place hreset => hfair.agrees.ne_reset _ _ _ hreset)
      rw [hconclude] at hturn
      have hhandled' : c.Handled s' := fun s'' hsteps => hhandled s'' (.head hturn hsteps)
      have hleft' : input.length - s'.eventIndex = left := by
        have : s'.eventIndex = s.eventIndex + 1 := hindex
        omega
      obtain ⟨turns, result, hrun, hconserves, hrecorded, hprior⟩ := ih htrack hhandled' hleft'
      have htraced : s.eventTraces <+: s'.eventTraces := htraces ▸ List.prefix_append _ _
      refine ⟨turns + 1, result, by rw [Engine.run, hturn]; exact hrun, hconserves, ?_,
        htraced.trans hprior⟩
      intro s'' hsteps event' hevent' hmeets
      rcases ReflTransGen.cases_head hsteps with rfl | ⟨s₁, hturn₁, hsteps₁⟩
      · -- the event of this turn
        rw [hevent] at hevent'
        obtain rfl := Option.some.inj hevent'
        have hexpires := hmeets.resolve_left (by rw [hexpired]; exact Bool.false_ne_true)
        have houtcome := htimeout (timeout_of_expired hexpires)
        obtain ⟨trace, hmem, htrace⟩ : ∃ trace ∈ s'.eventTraces,
            trace.eventIndex = s.eventIndex ∧ trace.outcome = outcome :=
          ⟨_, htraces ▸ List.mem_append_right _ (List.mem_singleton_self _), rfl, rfl⟩
        exact ⟨trace, hprior.subset hmem, htrace.1, htrace.2.trans houtcome⟩
      · rw [hturn] at hturn₁
        cases hturn₁
        exact hrecorded s'' hsteps₁ event' hevent' hmeets

theorem run_of_reached {result : CorrelationResult}
    (hsteps : ReflTransGen (fun s s' => c.turn s = .running s') s s') :
    ∀ {turns : Nat}, c.run turns s = some (.ok result) →
      ∃ turns', c.run turns' s' = some (.ok result) := by
  induction hsteps using ReflTransGen.head_induction_on with
  | refl => exact fun hrun => ⟨_, hrun⟩
  | head hturn _ ih =>
    intro turns hrun
    cases turns with
    | zero => cases hrun
    | succ turns =>
      rw [Engine.run, hturn] at hrun
      exact ih hrun

theorem onTrack_start (world : Ω) (events : List Event) : OnTrack events (.start c world events) :=
  ⟨rfl, rfl, Nat.zero_le _, ⟨rfl, nofun, rfl, nofun⟩⟩

/-- **Events are conserved exactly when every exception is handled**: for logic without stream
transforms, `stop` and `discard`, `execute` returns, with every event that was not filtered and
a trace of each, in which timeouts are recorded, exactly when no event reaches a condition whose
expression raises, or a transform whose predefined query does not take its arguments. -/
theorem conserves_iff_handled (c : Engine Ω) (hplain : plainSteps c.logic = true) (world : Ω)
    (events : List Event) :
    (∃ turns result, c.execute world events turns = some (.ok result) ∧
        CorrelationResult.Conserves events result ∧
        c.TimeoutsRecorded (.start c world events) result) ↔
      c.Handled (.start c world events) := by
  constructor
  · rintro ⟨turns, result, hrun, -⟩ s hsteps event hevent hrunning hunhandled
    obtain ⟨turns', hrun'⟩ := run_of_reached hsteps hrun
    obtain ⟨message, hraised⟩ := raised_iff_unhandled.mpr hunhandled
    cases turns' with
    | zero => cases hrun'
    | succ turns' =>
      -- what is raised gets out of the loop
      rw [Engine.run, turn_of_running hevent hrunning] at hrun'
      simp only [conclude, hraised] at hrun'
      cases hrun'
  · intro hhandled
    obtain ⟨turns, result, hrun, hconserves, hrecorded, -⟩ :=
      (onTrack_start world events).run hplain hhandled
    exact ⟨turns, result, hrun, hconserves, hrecorded⟩

/-! ## §5 A pattern that cannot be compiled -/

section Examples

/-- An engine whose templates are texts, and whose patterns are words that must not be left open.
There is always time. -/
def sampleEngine (logic : List StepConfig) : Engine Unit where
  render template _ _ := .ok template
  strip text := text
  lower text := text
  str value :=
    match value with
    | .str text => text
    | _ => ""
  repr _ := ""
  fnmatch text pattern := text = pattern
  search pattern text _ :=
    if pattern = "(" then .error "missing ), unterminated subpattern at position 0"
    else .ok (pattern = text)
  lines output := if output = "" then [] else [output]
  loads text := .ok (.dict [("data", .str text)])
  int _ := .error "invalid literal for int()"
  float _ := .error "could not convert string to float"
  parseTime _ _ := none
  logic := logic
  predefinedCommands := []
  huntSourceType := none
  secrets := .dict []
  toCommandConfig command _ := .ok command
  elapsed _ := ((false, ""), ())
  executeCommand _ _ _ _ _ _ := (.ok "", ())
  queryTimeSpec _ _ _ _ := none
  logError _ _ _ := none

def simpleAction (type : ActionType) (valid : type ≠ .timeout) : StepConfig :=
  .action none ⟨type, valid, none, none, "INFO", none⟩

def filterAction : StepConfig := simpleAction .filter (by decide)

def dropTagged (pattern : String) : List StepConfig :=
  [.condition none (.compare .regex "tag" pattern true) [filterAction] []]

def taggedEvent (id : Nat) (tag : String) : Event := ⟨id, .dict [("tag", .str tag)]⟩

/-- With an open parenthesis in the pattern, no event gets through at all. -/
theorem open_pattern_loses_events :
    plainSteps (dropTagged "(") = true ∧
      ¬ ∃ turns result, (sampleEngine (dropTagged "(")).execute () [taggedEvent 1 "keep"] turns =
          some (.ok result) ∧
        CorrelationResult.Conserves [taggedEvent 1 "keep"] result ∧
        (sampleEngine (dropTagged "(")).TimeoutsRecorded
          (.start (sampleEngine (dropTagged "(")) () [taggedEvent 1 "keep"]) result := by
  refine ⟨rfl, ?_⟩
  rintro ⟨turns, result, hrun, -⟩
  cases turns with
  | zero => cases hrun
  | succ turns =>
    have hraised : (sampleEngine (dropTagged "(")).execute () [taggedEvent 1 "keep"] (turns + 1) =
        some (.error "missing ), unterminated subpattern at position 0") := rfl
    rw [hraised] at hrun
    cases hrun

/-- Events that are dropped right away are conserved. -/
theorem dropped_events_are_traced :
    ∃ turns result, (sampleEngine [simpleAction .filter (by decide)]).execute ()
        [taggedEvent 1 "keep", taggedEvent 2 "drop"] turns = some (.ok result) ∧
      CorrelationResult.Conserves [taggedEvent 1 "keep", taggedEvent 2 "drop"] result ∧
      (sampleEngine [simpleAction .filter (by decide)]).TimeoutsRecorded
        (.start (sampleEngine [simpleAction .filter (by decide)]) ()
          [taggedEvent 1 "keep", taggedEvent 2 "drop"]) result := by
  apply (conserves_iff_handled _ rfl () _).mpr
  rintro s - event - - ⟨step', w', w₁, hreach, -, hraises⟩
  -- the only step is an action, and actions raise nothing
  have hlogic : (sampleEngine [simpleAction .filter (by decide)]).logic =
      [simpleAction .filter (by decide)] := rfl
  rw [hlogic] at hreach
  cases hstart : s.startStepIndex with
  | zero =>
    rw [hstart] at hreach
    cases hreach with
    | here => exact hraises
    | later _ hfell _ => cases hfell
  | succ start =>
    rw [hstart, List.drop_succ_cons, List.drop_nil] at hreach
    cases hreach

end Examples

end Engine

end Ace3.Correlation
