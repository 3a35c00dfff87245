import Ace3.Correlation.Conservation
import Ace3.Correlation.Tracing

/-!
# Errors in Conditions

What becomes of an error in the expression of a condition: whether the step fails and the event is
routed to alert, or the error passes as a truth value, or gets out of the engine.
-/

namespace Ace3.Correlation

open Lib.Json

variable {Ω : Type*}

/-! ## §1 Errors that are visited -/

namespace Library

variable (lib : Library) (event : Value) (events : List Value)

/-- The evaluation of a sub-expression that is visited raises, at any depth. -/
inductive VisitsError : ExpressionConfig → Prop where
  | jinja {value error : String} :
    lib.render value event events = .error error → VisitsError (.jinja value)
  | compare {type : Comparison} {property value : String} {caseSensitive : Bool} {error : String} :
    lib.evaluateExpression event events (.compare type property value caseSensitive) =
      .error error →
    VisitsError (.compare type property value caseSensitive)
  | invalid (message : String) : VisitsError (.invalid message)
  | sub {expr sub : ExpressionConfig} :
    sub ∈ lib.visited event events expr → VisitsError sub → VisitsError expr

variable {lib event events}

theorem VisitsError.render {value : String} (h : lib.VisitsError event events (.jinja value)) :
    ∃ error, lib.render value event events = .error error := by
  cases h with
  | jinja hrender => exact ⟨_, hrender⟩
  | sub hmem _ => cases hmem

theorem error_of_evaluate {expr : ExpressionConfig} {result : Bool} {trace : ExpressionTrace}
    (h : lib.evaluate event events expr = .ok (result, trace))
    (hjinja : ∀ value, expr ≠ .jinja value) : trace.error = none := by
  cases expr with
  | jinja value => exact absurd rfl (hjinja value)
  | invalid message =>
    rw [evaluate] at h
    cases h
  | compare type property value caseSensitive =>
    rw [evaluate] at h
    simp only [bind, Except.bind] at h
    split at h
    · cases h
    · split at h <;> cases h
      rfl
  | and value | or value | not value =>
    rw [evaluate] at h
    simp only [bind, Except.bind] at h
    split at h <;> cases h
    rfl

end Library

namespace Engine

/-! ## §2 Steps that fail -/

section Fails

variable (c : Engine Ω) (eventIndex : Nat) (w : Walk Ω)

def FailsAsStep (description : Option String) (when : ExpressionConfig)
    (execute else_ : List StepConfig) : Prop :=
  ∃ trace error, ∀ stepIndex,
    c.processStep eventIndex stepIndex w (.condition description when execute else_) =
      ⟨w, [.condition description trace .none [] (some error)], .failed error⟩

/-- The turn of an event ends with the event as it is now among the alerts, and with the outcome
of an error. -/
def RoutedToAlert (s : Loop Ω) (event : Event) : Prop :=
  ∃ s' steps, c.turn s = .running s' ∧
    s'.alertEvents = s.alertEvents ++ [(s.eventIndex, event)] ∧
    s'.eventActions s.eventIndex = some (.of .alert) ∧
    s'.eventTraces = s.eventTraces ++ [⟨s.eventIndex, steps, .error⟩]

end Fails

variable {c : Engine Ω} {eventIndex stepIndex : Nat} {w w₁ w' : Walk Ω} {step' : StepConfig}
  {steps : List StepConfig} {description : Option String} {when : ExpressionConfig}
  {execute else_ : List StepConfig} {error : String}

variable {p : Processed Ω}

theorem closeCondition_failed {trace : ExpressionTrace} {branch : Branch}
    (h : p.ending = .failed error) :
    (closeCondition description trace stepIndex branch p).ending = .failed error ∧
      (closeCondition description trace stepIndex branch p).walk = p.walk := by
  simp only [closeCondition, h, and_self]

theorem failed_of_reaches (hreach : c.Reaches eventIndex step' w' stepIndex w steps)
    (htick : c.tick w' = some w₁)
    (hfailed : ∀ i, (c.processStep eventIndex i w₁ step').ending = .failed error ∧
      (c.processStep eventIndex i w₁ step').walk = w₁) :
    (c.processEventSteps eventIndex stepIndex w steps).ending = .failed error ∧
      (c.processEventSteps eventIndex stepIndex w steps).walk = w₁ := by
  induction hreach with
  | here stepIndex steps =>
    rw [processEventSteps_of_ne htick (by rw [(hfailed stepIndex).1]; exact Ending.noConfusion)]
    exact hfailed stepIndex
  | later htick' hfell _ ih =>
    rw [processEventSteps_of_fell htick' hfell]
    exact ih
  | @branch stepIndex w w₂ description when execute else_ steps result trace htick' hevaluate
      herror _ ih =>
    have hstep : (c.processStep eventIndex stepIndex w₂
        (.condition description when execute else_)).ending = .failed error ∧
        (c.processStep eventIndex stepIndex w₂
          (.condition description when execute else_)).walk = w₁ := by
      rw [processStep, hevaluate]
      simp only [herror]
      cases result with
      | true =>
        simp only [if_true] at ih ⊢
        exact ⟨(closeCondition_failed ih.1).1, (closeCondition_failed ih.1).2.trans ih.2⟩
      | false =>
        simp only [Bool.false_eq_true, if_false] at ih ⊢
        -- an empty branch does not fail
        cases else_ with
        | nil =>
          rw [processEventSteps] at ih
          cases ih.1
        | cons step steps =>
          exact ⟨(closeCondition_failed ih.1).1, (closeCondition_failed ih.1).2.trans ih.2⟩
    rw [processEventSteps_of_ne htick' (by rw [hstep.1]; exact Ending.noConfusion)]
    exact hstep

theorem conclude_failed {s : Loop Ω} (h : p.ending = .failed error) :
    c.conclude s p = .running ((((s.absorb p.walk).keep s.eventIndex p.walk.event
      (.of .alert)).traced s.eventIndex p.steps .error).next) := by
  simp only [conclude, h]
  rfl

theorem routedToAlert_of_failed {s : Loop Ω} {event : Event}
    (hevent : s.events[s.eventIndex]? = some event) (hrunning : (c.elapsed s.world).1.1 = false)
    (hp : c.processEventSteps s.eventIndex s.startStepIndex
      (s.walk (c.elapsed s.world).2 event) (c.logic.drop s.startStepIndex) = p)
    (hfailed : p.ending = .failed error) : c.RoutedToAlert s p.walk.event := by
  have hturn := turn_of_running hevent hrunning
  rw [hp, conclude_failed hfailed] at hturn
  exact ⟨_, p.steps, hturn, rfl, Function.update_self .., rfl⟩

/-! ## §3 Which errors are reported -/

theorem failsAsStep_of_jinja {value : String}
    (h : c.VisitsError w.event.value (w.events.map (·.value)) (.jinja value)) :
    c.FailsAsStep eventIndex w description (.jinja value) execute else_ := by
  obtain ⟨error, hrender⟩ := h.render
  refine ⟨.ofJinja false none (some error), error, fun stepIndex => ?_⟩
  have hevaluate : c.evaluateCondition (.jinja value) w =
      .ok (false, .ofJinja false none (some error)) := by
    rw [evaluateCondition, Library.evaluate, hrender]
    rfl
  rw [processStep, hevaluate]
  rfl

theorem not_failsAsStep (hjinja : ∀ value, when ≠ .jinja value) :
    ¬ c.FailsAsStep eventIndex w description when execute else_ := by
  rintro ⟨trace', error, h⟩
  have h := h 0
  rw [processStep] at h
  cases hevaluate : c.evaluateCondition when w with
  | error message =>
    simp only [hevaluate] at h
    cases congrArg Processed.ending h
  | ok pair =>
    obtain ⟨result, trace⟩ := pair
    have herror : trace.error = none := by
      rw [evaluateCondition] at hevaluate
      cases hpair : c.evaluate w.event.value (w.events.map (·.value)) when with
      | error message =>
        rw [hpair] at hevaluate
        cases hevaluate
      | ok pair =>
        obtain ⟨result', trace'⟩ := pair
        rw [hpair] at hevaluate
        cases hevaluate
        exact (Library.error_of_evaluate hpair hjinja :)
    simp only [hevaluate, herror] at h
    -- no trace of a branch shows an error of the condition
    have hclose : ∀ branch p, closeCondition description trace 0 branch p ≠
        ⟨w, [.condition description trace' .none [] (some error)], .failed error⟩ := by
      intro branch p heq
      have hsteps := congrArg Processed.steps heq
      rw [closeCondition] at hsteps
      split at hsteps <;> simp at hsteps
    cases result with
    | true => exact hclose _ _ h
    | false =>
      simp only [Bool.false_eq_true, if_false] at h
      split at h
      · cases congrArg Processed.steps h
      · exact hclose _ _ h

/-- An event reaches a condition in time. An error that the evaluation of the expression visits fails
the step and routes the event to alert, with no branch taken, if and
only if there is no such error or the expression is a single template. -/
theorem errors_are_reported_iff (c : Engine Ω) {s : Loop Ω} {event : Event}
    (hevent : s.events[s.eventIndex]? = some event) (hrunning : (c.elapsed s.world).1.1 = false)
    (hreach : c.Reaches s.eventIndex (.condition description when execute else_) w'
      s.startStepIndex (s.walk (c.elapsed s.world).2 event) (c.logic.drop s.startStepIndex))
    (htick : c.tick w' = some w₁) :
    (c.VisitsError w₁.event.value (w₁.events.map (·.value)) when →
        c.FailsAsStep s.eventIndex w₁ description when execute else_ ∧
          c.RoutedToAlert s w₁.event) ↔
      (¬ c.VisitsError w₁.event.value (w₁.events.map (·.value)) when ∨
        ∃ value, when = .jinja value) := by
  constructor
  · intro h
    by_contra hcond
    rw [not_or, not_not, not_exists] at hcond
    exact not_failsAsStep hcond.2 (h hcond.1).1
  · rintro (hnone | ⟨value, rfl⟩) hvisits
    · exact absurd hvisits hnone
    · have hfails : c.FailsAsStep s.eventIndex w₁ description (.jinja value) execute else_ :=
        failsAsStep_of_jinja hvisits
      obtain ⟨trace, error, hstep⟩ := hfails
      have hfailed := failed_of_reaches hreach htick fun i => ⟨congrArg Processed.ending (hstep i),
        congrArg Processed.walk (hstep i)⟩
      have halert := routedToAlert_of_failed hevent hrunning rfl hfailed.1
      rw [hfailed.2] at halert
      exact ⟨⟨trace, error, hstep⟩, halert⟩

/-! ## §4 A negated template -/

section Examples

def strictEngine (logic : List StepConfig) : Engine Unit where
  __ := sampleEngine logic
  render template _ _ :=
    if template = "{{ _event.user.name }}" then .error "'dict object' has no attribute 'user'"
    else .ok template

/-- Events for which an expression is true are dropped. -/
def dropWhen (when : ExpressionConfig) : List StepConfig :=
  [.condition none when [filterAction] []]

/-- The state before the turn of an event, and the walk with which it reaches the first step. -/
def strictStart (when : ExpressionConfig) : Loop Unit :=
  .start (strictEngine (dropWhen when)) () [taggedEvent 1 "keep"]

def strictWalk (when : ExpressionConfig) : Walk Unit :=
  (strictStart when).walk () (taggedEvent 1 "keep")

/-- The error of the template is turned into false, and by the negation into true: the event is
filtered. -/
theorem negated_error_filters_event :
    let when := ExpressionConfig.not (.jinja "{{ _event.user.name }}")
    let c := strictEngine (dropWhen when)
    c.VisitsError (strictWalk when).event.value ((strictWalk when).events.map (·.value)) when ∧
      ¬ (c.FailsAsStep 0 (strictWalk when) none when [simpleAction .filter (by decide)] [] ∧
        c.RoutedToAlert (strictStart when) (strictWalk when).event) ∧
      ∃ s', c.turn (strictStart when) = .running s' ∧ s'.alertEvents = [] ∧
        s'.eventTraces.map (·.outcome) = [.filter] := by
  refine ⟨.sub (List.mem_singleton_self _) (.jinja rfl), ?_, _, rfl, rfl, rfl⟩
  rintro ⟨hfails, -⟩
  exact not_failsAsStep (fun _ => ExpressionConfig.noConfusion) hfails

/-- The same template by itself fails the step, and the event is kept. -/
theorem bare_error_is_reported :
    let when := ExpressionConfig.jinja "{{ _event.user.name }}"
    (strictEngine (dropWhen when)).FailsAsStep 0 (strictWalk when) none when
        [simpleAction .filter (by decide)] [] ∧
      (strictEngine (dropWhen when)).RoutedToAlert (strictStart when) (strictWalk when).event := by
  intro when
  have hevent : (strictStart when).events[(strictStart when).eventIndex]? =
      some (taggedEvent 1 "keep") := rfl
  have hreach : (strictEngine (dropWhen when)).Reaches (strictStart when).eventIndex
      (.condition none when [simpleAction .filter (by decide)] []) (strictWalk when)
      (strictStart when).startStepIndex (strictWalk when) (dropWhen when) := .here 0 []
  have htick : (strictEngine (dropWhen when)).tick (strictWalk when) =
      some (strictWalk when) := rfl
  exact (errors_are_reported_iff _ hevent rfl hreach htick).mpr (.inr ⟨_, rfl⟩) (.jinja rfl)

end Examples

end Engine

end Ace3.Correlation
