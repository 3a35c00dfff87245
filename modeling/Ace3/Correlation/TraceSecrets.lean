import Ace3.Correlation.MergeScope

/-!
# Secrets in the Trace

Which texts get into the trace of a correlation as they are, and which ones have their secrets
masked.
-/

namespace Ace3.Correlation

open List
open Lib.Json Lib.Masking

variable {Ω : Type*}

/-! ## §1 The texts of a trace -/

def Clean (secrets : Value) (text : String) : Prop :=
  ∀ secret ∈ leafStrings secrets, ¬ secret.toList <:+: text.toList

/-- The secrets are not empty, and can be told from what masks them. -/
def Maskable (secrets : Value) : Prop :=
  ∀ secret ∈ leafStrings secrets, secret ≠ "" ∧ '*' ∉ secret.toList

mutual

def ExpressionTrace.texts : ExpressionTrace → List String
  | ⟨expressionType, _, renderedValue, propertyName, propertyValue, compareValue, subExpressions,
      error⟩ =>
    expressionType :: (renderedValue.toList ++ propertyName.toList ++ propertyValue.toList ++
      compareValue.toList ++ error.toList ++ textsOfExpressions subExpressions)

def textsOfExpressions : List ExpressionTrace → List String
  | [] => []
  | trace :: traces => trace.texts ++ textsOfExpressions traces

end

def TransformTrace.texts (trace : TransformTrace) : List String :=
  [trace.transformType, trace.method, trace.commandType] ++ trace.renderedCommand.toList ++
    trace.propertyName.toList ++ trace.propertyValue.toList ++ trace.queryTimeSpec.toList ++
    trace.error.toList

def ActionTrace.texts (trace : ActionTrace) : List String :=
  trace.actionType :: (trace.renderedLogMessage.toList ++ trace.error.toList)

def StepTrace.ownTexts : StepTrace → List String
  | .condition description expression branchTaken _ error =>
    description.toList ++ expression.texts ++ branchTaken.name :: error.toList
  | .transform description trace => description.toList ++ trace.texts
  | .action description trace => description.toList ++ trace.texts

def StepTrace.branchSteps : StepTrace → List StepTrace
  | .condition _ _ _ branchSteps _ => branchSteps
  | _ => []

mutual

def StepTrace.texts : StepTrace → List String
  | .condition description expression branchTaken branchSteps error =>
    (StepTrace.condition description expression branchTaken [] error).ownTexts ++
      textsOfSteps branchSteps
  | .transform description trace => (StepTrace.transform description trace).ownTexts
  | .action description trace => (StepTrace.action description trace).ownTexts

def textsOfSteps : List StepTrace → List String
  | [] => []
  | step :: steps => step.texts ++ textsOfSteps steps

end

def EventTrace.texts (trace : EventTrace) : List String :=
  trace.outcome.name :: textsOfSteps trace.steps

def StreamEvent.texts (event : StreamEvent) : List String :=
  event.eventType :: event.detail.toList

def CorrelationTrace.texts (trace : CorrelationTrace) : List String :=
  trace.eventTraces.flatMap (·.texts) ++ trace.streamEvents.flatMap (·.texts)

theorem clean_sanitizeValue {secrets : Value} (h : Maskable secrets) (text : String) :
    Clean secrets (sanitizeValue secrets text) := by
  intro secret hmem
  obtain ⟨hne, hstar⟩ := h secret hmem
  rw [sanitizeValue, String.toList_ofList]
  have hwords : ∀ word ∈ (leafStrings secrets).map String.toList, '*' ∉ word := by
    intro word hword
    obtain ⟨other, hother, rfl⟩ := mem_map.mp hword
    exact (h other hother).2
  have hmask : ∀ letter ∈ ['*', '*', '*'], letter = '*' := by simp
  apply not_infix_maskWords hmask (cons_ne_nil _ _) hwords (mem_map_of_mem hmem)
  exact fun hnil => hne (String.toList_eq_nil_iff.mp hnil)

theorem textsOfSteps_append (steps steps' : List StepTrace) :
    textsOfSteps (steps ++ steps') = textsOfSteps steps ++ textsOfSteps steps' := by
  induction steps with
  | nil => rfl
  | cons step steps ih => rw [cons_append, textsOfSteps, textsOfSteps, ih, append_assoc]

/-! ## §2 What is not sanitized -/

namespace Library

variable (lib : Library)

mutual

/-- What the evaluation of an expression puts into its trace. -/
def expressionReveals (event : Value) (events : List Value) : ExpressionConfig → List String
  | .jinja value =>
    match lib.render value event events with
    | .ok rendered => ["jinja", rendered]
    | .error error => ["jinja", error]
  | .compare type property value caseSensitive =>
    match lib.propertyValue event property caseSensitive with
    | .ok propertyValue =>
      type.name :: property :: lib.cased caseSensitive value :: propertyValue.toList
    | .error _ => []
  | .and value => "and" :: andReveals event events value
  | .or value => "or" :: orReveals event events value
  | .not value => "not" :: expressionReveals event events value
  | .invalid _ => []

def andReveals (event : Value) (events : List Value) : List ExpressionConfig → List String
  | [] => []
  | sub :: subs =>
    expressionReveals event events sub ++
      match lib.evaluate event events sub with
      | .ok (true, _) => andReveals event events subs
      | _ => []

def orReveals (event : Value) (events : List Value) : List ExpressionConfig → List String
  | [] => []
  | sub :: subs =>
    expressionReveals event events sub ++
      match lib.evaluate event events sub with
      | .ok (false, _) => orReveals event events subs
      | _ => []

end

end Library

namespace Engine

variable (c : Engine Ω)

/-- The expression of a condition: of a jinja expression that can be rendered the value is
sanitized. -/
def conditionReveals (when : ExpressionConfig) (w : Walk Ω) : List String :=
  match when with
  | .jinja value =>
    match c.render value w.event.value (w.events.map (·.value)) with
    | .ok _ => ["jinja"]
    | .error error => ["jinja", error]
  | when => c.expressionReveals w.event.value (w.events.map (·.value)) when

def branchTaken (when : ExpressionConfig) (else_ : List StepConfig) (w : Walk Ω) : Branch :=
  match c.evaluateCondition when w with
  | .ok (result, trace) =>
    if trace.error.isSome then .none else if result then .execute
    else if else_.isEmpty then .none else .else_
  | .error _ => .none

def commandReveals (transform : TransformConfig) (w : Walk Ω) : List String :=
  [transform.method.type, transform.method.name, transform.command.type] ++
    match c.effectiveQueryCommand transform.command with
    | .ok (some query) =>
      (c.queryTimeSpec query w.event.value transform.method.type w.currentSource).toList
    | _ => []

def propertyReveals (transform : TransformConfig) (w : Walk Ω) : List String :=
  match transform.method, (c.executeCommand transform.command w.event.value
    (w.events.map (·.value)) transform.method.type w.currentSource w.world).1 with
  | .property name type, .ok output =>
    match (c.parsePropertyValue output type).bind (setProperty w.event.value name) with
    | .ok value =>
      if name = "" then [] else [name, c.truncateRepr ((field value name).getD .null)]
    | .error _ => []
  | _, _ => []

/-- The texts that a step puts into its trace as they are. -/
def reveals (w : Walk Ω) : StepConfig → List String
  | .condition description when _ else_ =>
    description.toList ++ c.conditionReveals when w ++ [(c.branchTaken when else_ w).name]
  | .transform description transform =>
    description.toList ++ c.commandReveals transform w ++ c.propertyReveals transform w
  | .action description action =>
    description.toList ++ action.type.name ::
      (c.logError action w.event.value (w.events.map (·.value))).toList

end Engine

/-! ## §3 The trace of a step -/

theorem bind_eq_ok {α β : Type} {x : Except String α} {f : α → Except String β} {b : β}
    (h : (x >>= f) = .ok b) : ∃ a, x = .ok a ∧ f a = .ok b := by
  cases x with
  | error error => cases h
  | ok a => exact ⟨a, rfl, h⟩

namespace Library

variable {lib : Library} {event : Value} {events : List Value}

mutual

theorem mem_texts_of_evaluate : ∀ {when : ExpressionConfig} {result : Bool}
    {trace : ExpressionTrace}, lib.evaluate event events when = .ok (result, trace) →
      ∀ t, t ∈ trace.texts ↔ t ∈ lib.expressionReveals event events when
  | .jinja value, result, trace, h, t => by
    rw [evaluate] at h
    rw [expressionReveals]
    cases hrender : lib.render value event events with
    | ok rendered =>
      simp only [hrender] at h ⊢
      cases h
      simp [ExpressionTrace.ofJinja, ExpressionTrace.texts, textsOfExpressions]
    | error error =>
      simp only [hrender] at h ⊢
      cases h
      simp [ExpressionTrace.ofJinja, ExpressionTrace.texts, textsOfExpressions]
  | .compare type property value caseSensitive, result, trace, h, t => by
    rw [evaluate] at h
    obtain ⟨propertyValue, hproperty, h⟩ := bind_eq_ok h
    obtain ⟨result', -, h⟩ := bind_eq_ok h
    cases h
    simp only [expressionReveals, hproperty, ExpressionTrace.texts, textsOfExpressions]
    simp
    grind
  | .and value, result, trace, h, t => by
    rw [evaluate] at h
    obtain ⟨⟨result', traces⟩, hsubs, h⟩ := bind_eq_ok h
    cases h
    rw [expressionReveals]
    simp [ExpressionTrace.ofSubs, ExpressionTrace.texts, mem_texts_of_evaluateAnd hsubs t]
  | .or value, result, trace, h, t => by
    rw [evaluate] at h
    obtain ⟨⟨result', traces⟩, hsubs, h⟩ := bind_eq_ok h
    cases h
    rw [expressionReveals]
    simp [ExpressionTrace.ofSubs, ExpressionTrace.texts, mem_texts_of_evaluateOr hsubs t]
  | .not value, result, trace, h, t => by
    rw [evaluate] at h
    obtain ⟨⟨result', trace'⟩, hsub, h⟩ := bind_eq_ok h
    cases h
    rw [expressionReveals]
    simp [ExpressionTrace.ofSubs, ExpressionTrace.texts, textsOfExpressions,
      mem_texts_of_evaluate hsub t]
  | .invalid message, result, trace, h, t => by
    rw [evaluate] at h
    cases h

theorem mem_texts_of_evaluateAnd : ∀ {subs : List ExpressionConfig} {result : Bool}
    {traces : List ExpressionTrace}, lib.evaluateAnd event events subs = .ok (result, traces) →
      ∀ t, t ∈ textsOfExpressions traces ↔ t ∈ lib.andReveals event events subs
  | [], result, traces, h, t => by
    rw [evaluateAnd] at h
    cases h
    rw [andReveals, textsOfExpressions]
  | sub :: subs, result, traces, h, t => by
    rw [evaluateAnd] at h
    obtain ⟨⟨result', trace⟩, hsub, h⟩ := bind_eq_ok h
    rw [andReveals, mem_append, ← mem_texts_of_evaluate hsub t, hsub]
    cases result' with
    | false =>
      cases h
      simp [textsOfExpressions]
    | true =>
      obtain ⟨⟨result'', traces'⟩, hsubs, h⟩ := bind_eq_ok h
      cases h
      rw [textsOfExpressions, mem_append, mem_texts_of_evaluateAnd hsubs t]

theorem mem_texts_of_evaluateOr : ∀ {subs : List ExpressionConfig} {result : Bool}
    {traces : List ExpressionTrace}, lib.evaluateOr event events subs = .ok (result, traces) →
      ∀ t, t ∈ textsOfExpressions traces ↔ t ∈ lib.orReveals event events subs
  | [], result, traces, h, t => by
    rw [evaluateOr] at h
    cases h
    rw [orReveals, textsOfExpressions]
  | sub :: subs, result, traces, h, t => by
    rw [evaluateOr] at h
    obtain ⟨⟨result', trace⟩, hsub, h⟩ := bind_eq_ok h
    rw [orReveals, mem_append, ← mem_texts_of_evaluate hsub t, hsub]
    cases result' with
    | true =>
      cases h
      simp [textsOfExpressions]
    | false =>
      obtain ⟨⟨result'', traces'⟩, hsubs, h⟩ := bind_eq_ok h
      cases h
      rw [textsOfExpressions, mem_append, mem_texts_of_evaluateOr hsubs t]

end

theorem renderedValue_of_evaluate {when : ExpressionConfig} {result : Bool}
    {trace : ExpressionTrace} (h : lib.evaluate event events when = .ok (result, trace))
    (hjinja : ∀ value, when ≠ .jinja value) : trace.renderedValue = none := by
  cases when with
  | jinja value => exact absurd rfl (hjinja value)
  | invalid message =>
    rw [evaluate] at h
    cases h
  | compare type property value caseSensitive =>
    rw [evaluate] at h
    obtain ⟨propertyValue, -, h⟩ := bind_eq_ok h
    obtain ⟨result', -, h⟩ := bind_eq_ok h
    cases h
    rfl
  | and value | or value | not value =>
    rw [evaluate] at h
    obtain ⟨pair, -, h⟩ := bind_eq_ok h
    cases h
    rfl

end Library

namespace Engine

variable {c : Engine Ω} {eventIndex stepIndex : Nat} {w : Walk Ω}

def CleanTexts (secrets : Value) (texts : List String) : Prop := ∀ t ∈ texts, Clean secrets t

section Texts

variable {secrets : Value} {texts texts' : List String} {text : String}

@[simp] theorem cleanTexts_nil : CleanTexts secrets [] := nofun

@[simp] theorem cleanTexts_cons :
    CleanTexts secrets (text :: texts) ↔ Clean secrets text ∧ CleanTexts secrets texts :=
  forall_mem_cons

@[simp] theorem cleanTexts_append :
    CleanTexts secrets (texts ++ texts') ↔ CleanTexts secrets texts ∧ CleanTexts secrets texts' :=
  forall_mem_append

theorem cleanTexts_sanitized (h : Maskable secrets) (text : Option String) :
    CleanTexts secrets (text.map (sanitizeValue secrets)).toList := by
  cases text with
  | none => exact cleanTexts_nil
  | some text => exact cleanTexts_cons.mpr ⟨clean_sanitizeValue h text, cleanTexts_nil⟩

end Texts

theorem with_renderedValue {trace : ExpressionTrace}
    (h : trace.renderedValue = none) (f : String → String) :
    { trace with renderedValue := trace.renderedValue.map f } = trace := by
  cases trace
  cases h
  rfl

theorem cleanTexts_evaluateCondition (hmaskable : Maskable c.secrets) {when : ExpressionConfig}
    {result : Bool} {trace : ExpressionTrace}
    (h : c.evaluateCondition when w = .ok (result, trace)) :
    CleanTexts c.secrets trace.texts ↔ CleanTexts c.secrets (c.conditionReveals when w) := by
  unfold evaluateCondition at h
  cases hevaluate : c.evaluate w.event.value (w.events.map (·.value)) when with
  | error error =>
    rw [hevaluate] at h
    cases h
  | ok pair =>
    obtain ⟨result', plain⟩ := pair
    rw [hevaluate] at h
    cases h
    -- of all other expressions nothing is sanitized
    have hplain : (∀ value, when ≠ .jinja value) →
        c.conditionReveals when w = c.expressionReveals w.event.value (w.events.map (·.value)) when →
        (CleanTexts c.secrets (ExpressionTrace.texts { plain with
            renderedValue := plain.renderedValue.map (sanitizeValue c.secrets) }) ↔
          CleanTexts c.secrets (c.conditionReveals when w)) := by
      intro hjinja hreveals
      rw [hreveals, with_renderedValue
        (Library.renderedValue_of_evaluate hevaluate hjinja)]
      exact forall_congr' fun t => imp_congr (Library.mem_texts_of_evaluate hevaluate t) Iff.rfl
    cases when with
    | jinja value =>
      rw [Library.evaluate] at hevaluate
      rw [conditionReveals]
      cases hrender : c.render value w.event.value (w.events.map (·.value)) with
      | ok rendered =>
        simp only [hrender] at hevaluate ⊢
        cases hevaluate
        simp [ExpressionTrace.ofJinja, ExpressionTrace.texts, textsOfExpressions,
          clean_sanitizeValue hmaskable]
      | error error =>
        simp only [hrender] at hevaluate ⊢
        cases hevaluate
        simp [ExpressionTrace.ofJinja, ExpressionTrace.texts, textsOfExpressions]
    | compare type property value caseSensitive => exact hplain nofun rfl
    | and value | or value | not value => exact hplain nofun rfl
    | invalid message =>
      rw [Library.evaluate] at hevaluate
      cases hevaluate

theorem error_mem_texts {trace : ExpressionTrace} {error : String}
    (h : trace.error = some error) : error ∈ trace.texts := by
  cases trace
  cases h
  simp [ExpressionTrace.texts]

theorem steps_closeCondition_eq {description : Option String} {trace : ExpressionTrace}
    {branch : Branch} {p : Processed Ω} :
    (closeCondition description trace stepIndex branch p).steps = [] ∨
      (closeCondition description trace stepIndex branch p).steps =
        [.condition description trace branch p.steps none] := by
  unfold closeCondition
  cases p.ending with
  | reset _ _ _ | raised _ => exact .inl rfl
  | fell | interrupt _ | failed _ => exact .inr rfl

theorem steps_closeCondition {description : Option String} {trace : ExpressionTrace}
    {branch : Branch} {p : Processed Ω} {step : StepTrace}
    (h : (closeCondition description trace stepIndex branch p).steps = [step]) :
    step = .condition description trace branch p.steps none := by
  rcases steps_closeCondition_eq with hnil | hone
  · rw [hnil] at h
    cases h
  · rw [hone] at h
    exact (List.cons.inj h).1.symm

theorem cleanTexts_executeAction (hmaskable : Maskable c.secrets) {description : Option String}
    {action : ActionConfig} {trace : StepTrace}
    (h : (c.executeAction description action w).steps = [trace]) :
    CleanTexts c.secrets trace.ownTexts ↔
      CleanTexts c.secrets (c.reveals w (.action description action)) := by
  rw [reveals]
  unfold executeAction at h
  cases hlog : c.logError action w.event.value (w.events.map (·.value)) with
  | some error =>
    simp only [hlog] at h
    obtain rfl := (List.cons.inj h).1
    simp [StepTrace.ownTexts, ActionTrace.texts]
  | none =>
    simp only [hlog] at h
    obtain rfl := (List.cons.inj h).1
    have hname : (actionResult action).actionType = action.type := by
      unfold actionResult
      cases action.type <;> rfl
    have hmessage : ∀ message : Option String, CleanTexts c.secrets
        (message.bind fun template => (c.render template w.event.value
          (w.events.map (·.value))).toOption.map (sanitizeValue c.secrets)).toList := by
      intro message
      cases message with
      | none => exact cleanTexts_nil
      | some template => exact cleanTexts_sanitized hmaskable _
    simp [StepTrace.ownTexts, ActionTrace.texts, hname, hmessage]

section Transforms

variable {transform : TransformConfig} {query : Option CommandConfig} {description : Option String}

theorem cleanTexts_transformTrace (hmaskable : Maskable c.secrets)
    (hquery : c.effectiveQueryCommand transform.command = .ok query) :
    CleanTexts c.secrets (c.transformTrace transform query w).texts ↔
      CleanTexts c.secrets (c.commandReveals transform w) := by
  rw [commandReveals, hquery]
  cases query <;>
    simp [transformTrace, TransformTrace.texts, cleanTexts_sanitized hmaskable]

theorem cleanTexts_failTransform (hmaskable : Maskable c.secrets) {trace : TransformTrace}
    (hnone : trace.error = none) {error : String} {step : StepTrace}
    (h : (c.failTransform description trace error w).steps = [step]) :
    CleanTexts c.secrets step.ownTexts ↔
      CleanTexts c.secrets (description.toList ++ trace.texts) := by
  obtain rfl := (List.cons.inj h).1
  simp [StepTrace.ownTexts, TransformTrace.texts, hnone, clean_sanitizeValue hmaskable]

theorem cleanTexts_applyTransform (hmaskable : Maskable c.secrets) {trace : TransformTrace}
    {output : String} {w' : Walk Ω} {step : StepTrace}
    (h : (c.applyTransform description transform trace output eventIndex stepIndex w').steps =
      [step])
    (hnone : trace.error = none ∧ trace.propertyName = none ∧ trace.propertyValue = none)
    (hwalk : w'.event = w.event)
    (houtput : (c.executeCommand transform.command w.event.value (w.events.map (·.value))
      transform.method.type w.currentSource w.world).1 = .ok output) :
    CleanTexts c.secrets step.ownTexts ↔
      CleanTexts c.secrets (description.toList ++ trace.texts ++ c.propertyReveals transform w) := by
  obtain ⟨herror, hname, hvalue⟩ := hnone
  unfold propertyReveals
  rw [houtput]
  unfold applyTransform at h
  cases hmethod : transform.method with
  | property name type =>
    simp only [hmethod, hwalk] at h ⊢
    cases hset : (c.parsePropertyValue output type).bind (setProperty w.event.value name) with
    | error error =>
      simp only [hset] at h ⊢
      rw [append_nil]
      exact cleanTexts_failTransform hmaskable herror h
    | ok value =>
      simp only [hset] at h ⊢
      obtain rfl := (List.cons.inj h).1
      split
      · simp [StepTrace.ownTexts]
      · simp [StepTrace.ownTexts, TransformTrace.texts, hname, hvalue]
        grind
  | merge spec =>
    simp only [hmethod] at h ⊢
    rw [append_nil]
    split at h
    · exact cleanTexts_failTransform hmaskable herror h
    · obtain rfl := (List.cons.inj h).1
      exact Iff.rfl
  | mutate =>
    simp only [hmethod] at h ⊢
    rw [append_nil]
    split at h
    · exact cleanTexts_failTransform hmaskable herror h
    · obtain rfl := (List.cons.inj h).1
      exact Iff.rfl
  | unknown type method =>
    simp only [hmethod] at h ⊢
    rw [append_nil]
    exact cleanTexts_failTransform hmaskable herror h

theorem cleanTexts_executeTransform (hmaskable : Maskable c.secrets) {step : StepTrace}
    (h : (c.executeTransform description transform eventIndex stepIndex w).steps = [step]) :
    CleanTexts c.secrets step.ownTexts ↔
      CleanTexts c.secrets (c.reveals w (.transform description transform)) := by
  rw [reveals]
  unfold executeTransform at h
  cases hquery : c.effectiveQueryCommand transform.command with
  | error error =>
    simp only [hquery] at h
    cases h
  | ok query =>
    simp only [hquery] at h
    have hbefore := cleanTexts_transformTrace (w := w) hmaskable hquery
    cases hexecute : c.executeCommand transform.command w.event.value (w.events.map (·.value))
        transform.method.type w.currentSource w.world with
    | mk outcome world =>
      cases outcome with
      | error error =>
        simp only [hexecute] at h
        have hproperty : c.propertyReveals transform w = [] := by
          unfold propertyReveals
          rw [hexecute]
          cases transform.method <;> rfl
        rw [cleanTexts_failTransform hmaskable rfl h, hproperty, append_nil,
          cleanTexts_append, cleanTexts_append, hbefore]
      | ok output =>
        simp only [hexecute] at h
        have happly := cleanTexts_applyTransform (w := w) hmaskable h ⟨rfl, rfl, rfl⟩ rfl
          (congrArg Prod.fst hexecute)
        rw [happly, cleanTexts_append, cleanTexts_append, cleanTexts_append, cleanTexts_append,
          ← hbefore]
        exact Iff.rfl

end Transforms

/-- **The trace of a step is clean exactly when what it reveals is**: all the rest is sanitized. -/
theorem cleanTexts_ownTexts (hmaskable : Maskable c.secrets) {step : StepConfig}
    {trace : StepTrace} (h : (c.processStep eventIndex stepIndex w step).steps = [trace]) :
    CleanTexts c.secrets trace.ownTexts ↔ CleanTexts c.secrets (c.reveals w step) := by
  cases step with
  | condition description when execute else_ =>
    rw [processStep] at h
    rw [reveals, branchTaken]
    cases hevaluate : c.evaluateCondition when w with
    | error error =>
      simp only [hevaluate] at h
      cases h
    | ok pair =>
      obtain ⟨result, expression⟩ := pair
      have hexpression := cleanTexts_evaluateCondition hmaskable hevaluate
      simp only [hevaluate] at h ⊢
      cases herror : expression.error with
      | some error =>
        simp only [herror] at h ⊢
        obtain rfl := (List.cons.inj h).1
        have hmem := error_mem_texts herror
        simp only [StepTrace.ownTexts, cleanTexts_append, cleanTexts_cons, ← hexpression,
          Option.toList_some, Option.isSome_some, if_true]
        have hclean : CleanTexts c.secrets expression.texts → Clean c.secrets error := (· error hmem)
        grind
      | none =>
        simp only [herror] at h ⊢
        have hown : ∀ branch branchSteps, CleanTexts c.secrets
            (StepTrace.condition description expression branch branchSteps none).ownTexts ↔
            CleanTexts c.secrets
              (description.toList ++ c.conditionReveals when w ++ [branch.name]) := by
          intro branch branchSteps
          simp only [StepTrace.ownTexts, cleanTexts_append, ← hexpression, Option.toList_none]
        cases hresult : result with
        | true =>
          rw [hresult, if_pos rfl] at h
          obtain rfl := steps_closeCondition h
          exact hown _ _
        | false =>
          rw [hresult, if_neg Bool.false_ne_true] at h
          cases hempty : else_.isEmpty with
          | true =>
            rw [hempty, if_pos rfl] at h
            obtain rfl := (List.cons.inj h).1
            exact hown _ _
          | false =>
            rw [hempty, if_neg Bool.false_ne_true] at h
            obtain rfl := steps_closeCondition h
            exact hown _ _
  | transform description transform =>
    rw [processStep] at h
    exact cleanTexts_executeTransform hmaskable h
  | action description action =>
    rw [processStep] at h
    exact cleanTexts_executeAction hmaskable h

/-! ## §4 The trace of a run -/

theorem cleanTexts_step {trace : StepTrace} {secrets : Value} :
    CleanTexts secrets trace.texts ↔
      CleanTexts secrets trace.ownTexts ∧ CleanTexts secrets (textsOfSteps trace.branchSteps) := by
  cases trace with
  | condition description expression branchTaken branchSteps error =>
    rw [StepTrace.texts, cleanTexts_append]
    exact Iff.rfl
  | transform description trace | action description trace =>
    rw [StepTrace.texts]
    exact ⟨fun h => ⟨h, cleanTexts_nil⟩, And.left⟩

variable (c) in
/-- The step leaves no trace: what it raises is not caught, or the stream is reset in its branch. -/
def Lost (eventIndex stepIndex : Nat) (w : Walk Ω) (step : StepConfig) : Prop :=
  (∃ message, (c.processStep eventIndex stepIndex w step).ending = .raised message) ∨
    ((∃ newStream resume place, (c.processStep eventIndex stepIndex w step).ending =
        .reset newStream resume place) ∧
      ∃ description when execute else_, step = .condition description when execute else_)

theorem steps_executeTransform {description : Option String} {transform : TransformConfig} :
    ((∃ message, (c.executeTransform description transform eventIndex stepIndex w).ending =
        .raised message) ∧
      (c.executeTransform description transform eventIndex stepIndex w).steps = []) ∨
    ((∀ message, (c.executeTransform description transform eventIndex stepIndex w).ending ≠
        .raised message) ∧
      ∃ trace, (c.executeTransform description transform eventIndex stepIndex w).steps =
        [.transform description trace]) := by
  unfold executeTransform
  split
  · exact .inl ⟨⟨_, rfl⟩, rfl⟩
  · right
    split
    · exact ⟨fun _ h => (by cases h), _, rfl⟩
    · unfold applyTransform
      cases transform.method with
      | property name type =>
        dsimp only
        split <;> exact ⟨fun _ h => (by cases h), _, rfl⟩
      | merge spec =>
        dsimp only
        split <;> exact ⟨fun _ h => (by cases h), _, rfl⟩
      | mutate =>
        dsimp only
        split <;> exact ⟨fun _ h => (by cases h), _, rfl⟩
      | unknown type method => exact ⟨fun _ h => (by cases h), _, rfl⟩

/-- A condition whose expression can be evaluated leaves the trace of its branch, unless it is
lost. -/
theorem steps_condition {description : Option String} {when : ExpressionConfig}
    {execute else_ : List StepConfig} {result : Bool} {trace : ExpressionTrace}
    (hevaluate : c.evaluateCondition when w = .ok (result, trace)) (herror : trace.error = none) :
    (c.Lost eventIndex stepIndex w (.condition description when execute else_) ∧
      (c.processStep eventIndex stepIndex w (.condition description when execute else_)).steps =
        []) ∨
    (¬ c.Lost eventIndex stepIndex w (.condition description when execute else_) ∧
      ∃ branch, (c.processStep eventIndex stepIndex w
          (.condition description when execute else_)).steps =
        [.condition description trace branch
          (c.processEventSteps eventIndex 0 w (if result then execute else else_)).steps none]) := by
  -- with a branch that is closed
  have hclosed : ∀ branch steps, c.processStep eventIndex stepIndex w
        (.condition description when execute else_) =
        closeCondition description trace stepIndex branch
          (c.processEventSteps eventIndex 0 w steps) →
      (c.Lost eventIndex stepIndex w (.condition description when execute else_) ∧
        (c.processStep eventIndex stepIndex w (.condition description when execute else_)).steps =
          []) ∨
      (¬ c.Lost eventIndex stepIndex w (.condition description when execute else_) ∧
        (c.processStep eventIndex stepIndex w (.condition description when execute else_)).steps =
          [.condition description trace branch
            (c.processEventSteps eventIndex 0 w steps).steps none]) := by
    intro branch steps heq
    unfold Lost
    rw [heq, closeCondition]
    cases hending : (c.processEventSteps eventIndex 0 w steps).ending with
    | reset newStream resume place =>
      exact .inl ⟨.inr ⟨⟨_, _, _, rfl⟩, _, _, _, _, rfl⟩, rfl⟩
    | raised message => exact .inl ⟨.inl ⟨_, rfl⟩, rfl⟩
    | fell | interrupt _ | failed _ =>
      refine .inr ⟨?_, rfl⟩
      rintro (⟨_, h⟩ | ⟨⟨_, _, _, h⟩, -⟩) <;> cases h
  cases result with
  | true =>
    have heq : c.processStep eventIndex stepIndex w (.condition description when execute else_) =
        closeCondition description trace stepIndex .execute
          (c.processEventSteps eventIndex 0 w execute) := by
      rw [processStep, hevaluate]
      simp only [herror, if_true]
    rcases hclosed .execute execute heq with hlost | ⟨hkept, hsteps⟩
    · exact .inl hlost
    · exact .inr ⟨hkept, _, hsteps⟩
  | false =>
    cases else_ with
    | nil =>
      have heq : c.processStep eventIndex stepIndex w (.condition description when execute []) =
          ⟨w, [.condition description trace .none [] none], .fell⟩ := by
        rw [processStep, hevaluate]
        simp only [herror, Bool.false_eq_true, if_false, isEmpty_nil, if_true]
      right
      unfold Lost
      rw [heq]
      refine ⟨?_, .none, ?_⟩
      · rintro (⟨_, h⟩ | ⟨⟨_, _, _, h⟩, -⟩) <;> cases h
      · rw [if_neg Bool.false_ne_true, processEventSteps]
    | cons step steps =>
      have heq : c.processStep eventIndex stepIndex w
          (.condition description when execute (step :: steps)) =
          closeCondition description trace stepIndex .else_
            (c.processEventSteps eventIndex 0 w (step :: steps)) := by
        rw [processStep, hevaluate]
        simp only [herror, Bool.false_eq_true, if_false, isEmpty_cons]
      rcases hclosed .else_ (step :: steps) heq with hlost | ⟨hkept, hsteps⟩
      · exact .inl hlost
      · exact .inr ⟨hkept, _, hsteps⟩

variable (c) in
/-- With a list of steps, an event in a walk reaches a step in another walk, and the step is
recorded in the trace. -/
inductive Records (eventIndex : Nat) (step' : StepConfig) (w' : Walk Ω) :
    Nat → Walk Ω → List StepConfig → Prop where
  | here {stepIndex : Nat} {w : Walk Ω} {steps : List StepConfig} :
    c.tick w = some w' → ¬ c.Lost eventIndex stepIndex w' step' →
    Records eventIndex step' w' stepIndex w (step' :: steps)
  | later {stepIndex : Nat} {w w₁ : Walk Ω} {step : StepConfig} {steps : List StepConfig} :
    c.tick w = some w₁ → (c.processStep eventIndex stepIndex w₁ step).ending = .fell →
    Records eventIndex step' w' (stepIndex + 1) (c.processStep eventIndex stepIndex w₁ step).walk
      steps →
    Records eventIndex step' w' stepIndex w (step :: steps)
  | branch {stepIndex : Nat} {w w₁ : Walk Ω} {description : Option String}
      {when : ExpressionConfig} {execute else_ steps : List StepConfig} {result : Bool}
      {trace : ExpressionTrace} :
    c.tick w = some w₁ →
    ¬ c.Lost eventIndex stepIndex w₁ (.condition description when execute else_) →
    c.evaluateCondition when w₁ = .ok (result, trace) → trace.error = none →
    Records eventIndex step' w' 0 w₁ (if result then execute else else_) →
    Records eventIndex step' w' stepIndex w (.condition description when execute else_ :: steps)

variable (c) in
def RevealsNothing (eventIndex stepIndex : Nat) (w : Walk Ω) (steps : List StepConfig) : Prop :=
  ∀ step' w', c.Records eventIndex step' w' stepIndex w steps →
    CleanTexts c.secrets (c.reveals w' step')

variable (c) in
/-- The step is lost, or it reveals nothing, and neither does the branch that is taken. -/
def StepRevealsNothing (eventIndex stepIndex : Nat) (w : Walk Ω) (step : StepConfig) : Prop :=
  ¬ c.Lost eventIndex stepIndex w step → CleanTexts c.secrets (c.reveals w step) ∧
    ∀ description when execute else_ result trace,
      step = .condition description when execute else_ →
      c.evaluateCondition when w = .ok (result, trace) → trace.error = none →
      c.RevealsNothing eventIndex 0 w (if result then execute else else_)

/-- The steps of a list reveal nothing if the first one does not, nor the others after it. -/
theorem revealsNothing_cons {w₁ : Walk Ω} {step : StepConfig} {steps : List StepConfig}
    (htick : c.tick w = some w₁) :
    c.RevealsNothing eventIndex stepIndex w (step :: steps) ↔
      c.StepRevealsNothing eventIndex stepIndex w₁ step ∧
        ((c.processStep eventIndex stepIndex w₁ step).ending = .fell →
          c.RevealsNothing eventIndex (stepIndex + 1)
            (c.processStep eventIndex stepIndex w₁ step).walk steps) := by
  constructor
  · intro h
    refine ⟨fun hkept => ⟨h step w₁ (.here htick hkept), ?_⟩, ?_⟩
    · rintro description when execute else_ result trace rfl hevaluate herror step' w' hrecords
      exact h step' w' (.branch htick hkept hevaluate herror hrecords)
    · exact fun hfell step' w' hrecords => h step' w' (.later htick hfell hrecords)
  · rintro ⟨hstep, hrest⟩ step' w' hrecords
    cases hrecords with
    | here htick' hkept =>
      obtain rfl := Option.some.inj (htick.symm.trans htick')
      exact (hstep hkept).1
    | later htick' hfell hrecords =>
      obtain rfl := Option.some.inj (htick.symm.trans htick')
      exact hrest hfell step' w' hrecords
    | branch htick' hkept hevaluate herror hrecords =>
      obtain rfl := Option.some.inj (htick.symm.trans htick')
      exact (hstep hkept).2 _ _ _ _ _ _ rfl hevaluate herror step' w' hrecords

theorem cleanTexts_of_singleton (hmaskable : Maskable c.secrets) {step : StepConfig}
    {trace : StepTrace} (h : (c.processStep eventIndex stepIndex w step).steps = [trace]) :
    CleanTexts c.secrets (textsOfSteps (c.processStep eventIndex stepIndex w step).steps) ↔
      CleanTexts c.secrets (c.reveals w step) ∧
        CleanTexts c.secrets (textsOfSteps trace.branchSteps) := by
  rw [h, textsOfSteps, textsOfSteps, append_nil, cleanTexts_step,
    cleanTexts_ownTexts hmaskable h]

mutual

theorem clean_processStep (hmaskable : Maskable c.secrets) (eventIndex stepIndex : Nat)
    (w : Walk Ω) : ∀ step : StepConfig,
      CleanTexts c.secrets (textsOfSteps (c.processStep eventIndex stepIndex w step).steps) ↔
        c.StepRevealsNothing eventIndex stepIndex w step
  | .condition description when execute else_ => by
    cases hevaluate : c.evaluateCondition when w with
    | error error =>
      have heq : c.processStep eventIndex stepIndex w (.condition description when execute else_) =
          ⟨w, [], .raised error⟩ := by rw [processStep, hevaluate]
      have hlost : c.Lost eventIndex stepIndex w (.condition description when execute else_) :=
        .inl ⟨error, by rw [heq]⟩
      rw [heq]
      exact ⟨fun _ hkept => absurd hlost hkept, fun _ => cleanTexts_nil⟩
    | ok pair =>
      obtain ⟨result, trace⟩ := pair
      cases herror : trace.error with
      | some error =>
        have heq : c.processStep eventIndex stepIndex w
            (.condition description when execute else_) =
            ⟨w, [.condition description trace .none [] (some error)], .failed error⟩ := by
          rw [processStep, hevaluate]
          simp only [herror]
        have hkept : ¬ c.Lost eventIndex stepIndex w
            (.condition description when execute else_) := by
          unfold Lost
          rw [heq]
          rintro (⟨_, h⟩ | ⟨⟨_, _, _, h⟩, -⟩) <;> cases h
        rw [cleanTexts_of_singleton hmaskable (congrArg Processed.steps heq)]
        constructor
        · rintro ⟨hown, -⟩ -
          refine ⟨hown, ?_⟩
          rintro _ _ _ _ result' trace' ⟨⟩ hevaluate' herror'
          rw [hevaluate] at hevaluate'
          cases hevaluate'
          rw [herror] at herror'
          cases herror'
        · exact fun h => ⟨(h hkept).1, cleanTexts_nil⟩
      | none =>
        -- the texts of the branch, by induction
        have hbranch : CleanTexts c.secrets (textsOfSteps (c.processEventSteps eventIndex 0 w
            (if result then execute else else_)).steps) ↔
            c.RevealsNothing eventIndex 0 w (if result then execute else else_) := by
          cases result with
          | true => exact clean_processEventSteps hmaskable eventIndex 0 w execute
          | false => exact clean_processEventSteps hmaskable eventIndex 0 w else_
        have hsteps : (c.Lost eventIndex stepIndex w (.condition description when execute else_) ∧
            _) ∨ _ := steps_condition hevaluate herror
        rcases hsteps with ⟨hlost, hnil⟩ | ⟨hkept, branch, hone⟩
        · rw [hnil]
          exact ⟨fun _ hkept => absurd hlost hkept, fun _ => cleanTexts_nil⟩
        · rw [cleanTexts_of_singleton hmaskable hone, StepTrace.branchSteps, hbranch]
          constructor
          · rintro ⟨hown, hinner⟩ -
            refine ⟨hown, ?_⟩
            rintro _ _ _ _ result' trace' ⟨⟩ hevaluate' -
            rw [hevaluate] at hevaluate'
            cases hevaluate'
            exact hinner
          · exact fun h => ⟨(h hkept).1, (h hkept).2 _ _ _ _ result trace rfl hevaluate herror⟩
  | .transform description transform => by
    have hsteps : (_ ∧ (c.executeTransform description transform eventIndex stepIndex w).steps =
      []) ∨ _ := steps_executeTransform
    rcases hsteps with ⟨⟨message, hraised⟩, hnil⟩ | ⟨hne, trace, hone⟩
    · have hlost : c.Lost eventIndex stepIndex w (.transform description transform) :=
        .inl ⟨message, by rw [processStep, hraised]⟩
      rw [processStep, hnil]
      exact ⟨fun _ hkept => absurd hlost hkept, fun _ => cleanTexts_nil⟩
    · have hkept : ¬ c.Lost eventIndex stepIndex w (.transform description transform) := by
        rintro (⟨message, h⟩ | ⟨-, _, _, _, _, h⟩)
        · rw [processStep] at h
          exact hne message h
        · cases h
      have hone' : (c.processStep eventIndex stepIndex w (.transform description transform)).steps =
          [.transform description trace] := by rw [processStep, hone]
      rw [cleanTexts_of_singleton hmaskable hone']
      exact ⟨fun h _ => ⟨h.1, nofun⟩, fun h => ⟨(h hkept).1, cleanTexts_nil⟩⟩
  | .action description action => by
    have hone : ∃ trace, (c.processStep eventIndex stepIndex w
        (.action description action)).steps = [.action description trace] ∧
        ¬ c.Lost eventIndex stepIndex w (.action description action) := by
      unfold Lost
      rw [processStep]
      unfold executeAction
      cases hlog : c.logError action w.event.value (w.events.map (·.value)) with
      | some error =>
        simp only [hlog]
        refine ⟨_, rfl, ?_⟩
        rintro (⟨_, h⟩ | ⟨-, _, _, _, _, h⟩) <;> cases h
      | none =>
        simp only [hlog]
        refine ⟨_, rfl, ?_⟩
        rintro (⟨_, h⟩ | ⟨-, _, _, _, _, h⟩)
        · split at h <;> cases h
        · cases h
    obtain ⟨trace, hone, hkept⟩ := hone
    rw [cleanTexts_of_singleton hmaskable hone]
    exact ⟨fun h _ => ⟨h.1, nofun⟩, fun h => ⟨(h hkept).1, cleanTexts_nil⟩⟩

theorem clean_processEventSteps (hmaskable : Maskable c.secrets) (eventIndex stepIndex : Nat)
    (w : Walk Ω) : ∀ steps : List StepConfig,
      CleanTexts c.secrets (textsOfSteps (c.processEventSteps eventIndex stepIndex w steps).steps) ↔
        c.RevealsNothing eventIndex stepIndex w steps
  | [] => by
    rw [processEventSteps]
    exact ⟨fun _ _ _ => nofun, fun _ => cleanTexts_nil⟩
  | step :: steps => by
    cases htick : c.tick w with
    | none =>
      rw [processEventSteps_expired htick]
      refine ⟨fun _ step' w' hrecords => ?_, fun _ => cleanTexts_nil⟩
      cases hrecords with
      | here htick' _ | later htick' _ _ | branch htick' _ _ _ _ =>
        rw [htick] at htick'
        cases htick'
    | some w₁ =>
      rw [revealsNothing_cons htick, ← clean_processStep hmaskable eventIndex stepIndex w₁ step]
      by_cases hfell : (c.processStep eventIndex stepIndex w₁ step).ending = .fell
      · rw [processEventSteps_of_fell htick hfell,
          ← clean_processEventSteps hmaskable eventIndex (stepIndex + 1) _ steps]
        show CleanTexts c.secrets (textsOfSteps (_ ++ _)) ↔ _
        rw [textsOfSteps_append, cleanTexts_append]
        exact and_congr_right fun _ => ⟨fun h _ => h, fun h => h hfell⟩
      · rw [processEventSteps_of_ne htick hfell]
        exact ⟨fun h => ⟨h, fun h' => absurd h' hfell⟩, And.left⟩

end

theorem forall_const_ne {ending : Ending} {P : Prop} (h : ∀ message, ending ≠ .raised message) :
    ((∀ message, ending ≠ .raised message) → P) ↔ P := ⟨fun hP => hP h, fun hP _ => hP⟩

variable (c) in
def notes (p : Processed Ω) : List String :=
  match p.ending with
  | .fell => ["alert"]
  | .failed _ => ["error"]
  | .raised _ => []
  | .reset newStream resume _ => ["stream_reset",
    s!"stream reset to {newStream.length} events, resuming at step {resume}"]
  | .interrupt result =>
    match result.actionType with
    | .alert | .log => ["alert"]
    | .filter => ["filter"]
    | .stop => ["stop"]
    | .discard => ["discard"]
    | .timeout => ["timeout",
      s!"timeout after {(c.elapsed p.walk.world).1.2} mid-event; remaining steps skipped"]

variable (c) in
/-- The outcome and the stream events of the turn of an event. -/
def announces (s : Loop Ω) : List String :=
  match s.events[s.eventIndex]? with
  | none => []
  | some event =>
    let ((expired, elapsed), world) := c.elapsed s.world
    if expired then ["timeout", s!"timeout after {elapsed}"]
    else c.notes (c.processEventSteps s.eventIndex s.startStepIndex (s.walk world event)
      (c.logic.drop s.startStepIndex))

variable (c) in
/-- In the turn of an event no secret gets into the trace as it is. -/
structure Discreet (s : Loop Ω) : Prop where
  steps : ∀ event, s.events[s.eventIndex]? = some event → (c.elapsed s.world).1.1 = false →
    (∀ message, (c.processEventSteps s.eventIndex s.startStepIndex
      (s.walk (c.elapsed s.world).2 event) (c.logic.drop s.startStepIndex)).ending ≠
        .raised message) →
    c.RevealsNothing s.eventIndex s.startStepIndex (s.walk (c.elapsed s.world).2 event)
      (c.logic.drop s.startStepIndex)
  notes : CleanTexts c.secrets (c.announces s)

def Loop.trace (s : Loop Ω) : CorrelationTrace := ⟨s.eventTraces, s.streamEvents⟩

variable (c) in
def CleanAfter : Progress Ω → Prop
  | .running s => CleanTexts c.secrets s.trace.texts
  | .finished result => CleanTexts c.secrets result.trace.texts
  | .raised _ => True

variable {s s' : Loop Ω}

theorem cleanTexts_trace {secrets : Value} {eventTraces : List EventTrace}
    {streamEvents : List StreamEvent} :
    CleanTexts secrets (CorrelationTrace.texts ⟨eventTraces, streamEvents⟩) ↔
      CleanTexts secrets (eventTraces.flatMap (·.texts)) ∧
        CleanTexts secrets (streamEvents.flatMap (·.texts)) := cleanTexts_append

theorem cleanTexts_timedOut {secrets : Value} :
    ∀ (events : List Event) (n : Nat) {s : Loop Ω},
      CleanTexts secrets (Loop.timedOut events n s).trace.texts ↔
        CleanTexts secrets s.trace.texts ∧ (events ≠ [] → Clean secrets "timeout")
  | [], _, _ => by simp [Loop.timedOut]
  | event :: events, n, s => by
    have htraced : CleanTexts secrets
        ((s.keep n event (.of .alert)).traced n [] .timeout).trace.texts ↔
        CleanTexts secrets s.trace.texts ∧ Clean secrets "timeout" := by
      show CleanTexts secrets (CorrelationTrace.texts
        ⟨s.eventTraces ++ [⟨n, [], .timeout⟩], s.streamEvents⟩) ↔
        CleanTexts secrets (CorrelationTrace.texts ⟨s.eventTraces, s.streamEvents⟩) ∧ _
      simp only [cleanTexts_trace, flatMap_append, cleanTexts_append, flatMap_singleton,
        EventTrace.texts, textsOfSteps, EventOutcome.name, cleanTexts_cons, cleanTexts_nil]
      grind
    rw [Loop.timedOut, cleanTexts_timedOut events (n + 1), htraced]
    constructor
    · exact fun h => ⟨h.1.1, fun _ => h.1.2⟩
    · exact fun h => ⟨⟨h.1, h.2 (cons_ne_nil _ _)⟩, fun _ => h.2 (cons_ne_nil _ _)⟩

theorem cleanAfter_conclude {p : Processed Ω} (h : CleanTexts c.secrets s.trace.texts) :
    c.CleanAfter (c.conclude s p) ↔
      ((∀ message, p.ending ≠ .raised message) → CleanTexts c.secrets (textsOfSteps p.steps)) ∧
        CleanTexts c.secrets (c.notes p) := by
  obtain ⟨htraces, hevents⟩ := cleanTexts_trace.mp h
  -- one more trace of an event, and stream events
  have htraced : ∀ (outcome : EventOutcome) (streamEvents : List StreamEvent),
      CleanTexts c.secrets (CorrelationTrace.texts ⟨s.eventTraces ++
          [⟨s.eventIndex, p.steps, outcome⟩], s.streamEvents ++ streamEvents⟩) ↔
        CleanTexts c.secrets (textsOfSteps p.steps) ∧ Clean c.secrets outcome.name ∧
          CleanTexts c.secrets (streamEvents.flatMap (·.texts)) := by
    intro outcome streamEvents
    rw [cleanTexts_trace, flatMap_append, flatMap_append, cleanTexts_append,
      cleanTexts_append, flatMap_singleton, EventTrace.texts, cleanTexts_cons]
    grind
  have hquiet : ∀ outcome : EventOutcome, CleanTexts c.secrets (CorrelationTrace.texts
        ⟨s.eventTraces ++ [⟨s.eventIndex, p.steps, outcome⟩], s.streamEvents⟩) ↔
      CleanTexts c.secrets (textsOfSteps p.steps) ∧ CleanTexts c.secrets [outcome.name] := by
    intro outcome
    have htrace := htraced outcome []
    rw [append_nil] at htrace
    rw [htrace, cleanTexts_cons]
    exact Iff.rfl
  unfold Engine.conclude Engine.notes
  cases hending : p.ending with
  | raised message =>
    exact ⟨fun _ => ⟨fun hne => absurd rfl (hne message), cleanTexts_nil⟩, fun _ => trivial⟩
  | fell =>
    have hne : ∀ message, Ending.fell ≠ .raised message := nofun
    rw [forall_const_ne hne]
    exact hquiet .alert
  | failed message =>
    have hne : ∀ other, Ending.failed message ≠ .raised other := nofun
    rw [forall_const_ne hne]
    exact hquiet .error
  | reset newStream resume place =>
    have hne : ∀ message, Ending.reset newStream resume place ≠ .raised message := nofun
    rw [forall_const_ne hne]
    show CleanTexts c.secrets (CorrelationTrace.texts
      ⟨[⟨s.eventIndex, p.steps, .streamReset⟩], s.streamEvents ++
        [⟨"stream_reset", some s.eventIndex, some _⟩]⟩) ↔ _
    rw [cleanTexts_trace, flatMap_append, cleanTexts_append, flatMap_singleton,
      flatMap_singleton, EventTrace.texts, cleanTexts_cons]
    show (Clean c.secrets "stream_reset" ∧ _) ∧ _ ∧ CleanTexts c.secrets ["stream_reset", _] ↔ _
    simp only [cleanTexts_cons]
    grind
  | interrupt result =>
    have hne : ∀ message, Ending.interrupt result ≠ .raised message := nofun
    rw [forall_const_ne hne]
    cases htype : result.actionType with
    | filter =>
      simp only [htype]
      exact hquiet .filter
    | alert | log =>
      simp only [htype]
      exact hquiet .alert
    | stop =>
      simp only [htype]
      exact hquiet .stop
    | discard =>
      simp only [htype]
      refine (htraced .discard [⟨"discard", some s.eventIndex, none⟩]).trans ?_
      show _ ∧ Clean c.secrets "discard" ∧ CleanTexts c.secrets ["discard"] ↔ _
      simp only [cleanTexts_cons]
      grind
    | timeout =>
      simp only [htype]
      refine (htraced .timeout [⟨"timeout", some s.eventIndex, some _⟩]).trans ?_
      show _ ∧ Clean c.secrets "timeout" ∧ CleanTexts c.secrets ["timeout", _] ↔ _
      simp only [cleanTexts_cons]
      tauto

theorem run_of_finished {start : Loop Ω} {result : CorrelationResult} (h : c.Runs start s)
    (hturn : c.turn s = .finished result) : ∃ turns, c.run turns start = some (.ok result) := by
  induction h using Relation.ReflTransGen.head_induction_on with
  | refl => exact ⟨1, by rw [Engine.run, hturn]⟩
  | head hstep _ ih =>
    obtain ⟨turns, hrun⟩ := ih
    exact ⟨turns + 1, by rw [Engine.run, hstep]; exact hrun⟩

theorem cleanAfter_turn (hmaskable : Maskable c.secrets)
    (hclean : CleanTexts c.secrets s.trace.texts) : c.CleanAfter (c.turn s) ↔ c.Discreet s := by
  cases hevent : s.events[s.eventIndex]? with
  | none =>
    rw [Engine.turn, hevent]
    refine ⟨fun _ => ⟨fun event h => ?_, ?_⟩, fun _ => hclean⟩
    · rw [hevent] at h
      cases h
    · rw [announces, hevent]
      exact cleanTexts_nil
  | some event =>
    have hsame : ∀ event', s.events[s.eventIndex]? = some event' → event = event' :=
      fun event' h => Option.some.inj (hevent.symm.trans h)
    cases hexpired : (c.elapsed s.world).1.1 with
    | true =>
      have hlt := (List.getElem?_eq_some_iff.mp hevent).1
      have hne : s.events.drop s.eventIndex ≠ [] := by
        rw [drop_eq_getElem_cons hlt]
        exact cons_ne_nil _ _
      have hnotes : c.announces s = ["timeout", s!"timeout after {(c.elapsed s.world).1.2}"] := by
        simp only [announces, hevent, hexpired, if_true]
      have hturn : c.CleanAfter (c.turn s) ↔ CleanTexts c.secrets (c.announces s) := by
        rw [Engine.turn, hevent]
        simp only [hexpired, if_true]
        rw [CleanAfter, hnotes]
        refine (cleanTexts_timedOut _ _).trans ?_
        obtain ⟨htraces, hevents⟩ := cleanTexts_trace.mp hclean
        show CleanTexts c.secrets (CorrelationTrace.texts ⟨s.eventTraces, s.streamEvents ++
          [⟨"timeout", some s.eventIndex, some _⟩]⟩) ∧ _ ↔ _
        rw [cleanTexts_trace, flatMap_append, cleanTexts_append, flatMap_singleton]
        show (_ ∧ _ ∧ CleanTexts c.secrets ["timeout", _]) ∧ _ ↔ _
        simp only [cleanTexts_cons]
        grind
      rw [hturn]
      refine ⟨fun h => ⟨fun event' _ hrunning => ?_, h⟩, Discreet.notes⟩
      rw [hexpired] at hrunning
      cases hrunning
    | false =>
      have hnotes : c.announces s = c.notes (c.processEventSteps s.eventIndex s.startStepIndex
          (s.walk (c.elapsed s.world).2 event) (c.logic.drop s.startStepIndex)) := by
        simp only [announces, hevent, hexpired, Bool.false_eq_true, if_false]
      have hclean' : CleanTexts c.secrets
          (Loop.trace { s with world := (c.elapsed s.world).2 }).texts := hclean
      rw [turn_of_running hevent hexpired, cleanAfter_conclude hclean',
        clean_processEventSteps hmaskable, ← hnotes]
      constructor
      · rintro ⟨hsteps, hannounced⟩
        refine ⟨fun event' hevent' _ hne => ?_, hannounced⟩
        obtain rfl := hsame event' hevent'
        exact hsteps hne
      · exact fun h => ⟨h.steps event hevent hexpired, h.notes⟩

/-- **The trace keeps the secrets exactly in discreet runs**: it is clean in every state of the run
and in the result exactly when in every turn no recorded step reveals a secret, and no outcome or
stream event has one in its text. -/
theorem trace_clean_iff_discreet (c : Engine Ω) (hmaskable : Maskable c.secrets) (world : Ω)
    (events : List Event) :
    ((∀ s, c.Runs (.start c world events) s → CleanTexts c.secrets s.trace.texts) ∧
      ∀ turns result, c.execute world events turns = some (.ok result) →
        CleanTexts c.secrets result.trace.texts) ↔
      ∀ s, c.Runs (.start c world events) s → c.Discreet s := by
  constructor
  · rintro ⟨hstates, hresults⟩ s hruns
    apply (cleanAfter_turn hmaskable (hstates s hruns)).mp
    cases hturn : c.turn s with
    | running s' => exact hstates s' (hruns.tail hturn)
    | finished result =>
      obtain ⟨turns, hrun⟩ := run_of_finished hruns hturn
      exact hresults turns result hrun
    | raised message => trivial
  · intro hdiscreet
    have hstates : ∀ s, c.Runs (.start c world events) s →
        CleanTexts c.secrets s.trace.texts := by
      intro s hruns
      induction hruns with
      | refl => exact cleanTexts_nil
      | tail hruns hturn ih =>
        have hclean := (cleanAfter_turn hmaskable ih).mpr (hdiscreet _ hruns)
        rw [hturn] at hclean
        exact hclean
    refine ⟨hstates, fun turns result hrun => ?_⟩
    obtain ⟨s, hruns, hfinal⟩ := exists_finished hrun
    have hclean := (cleanAfter_turn hmaskable (hstates s hruns)).mpr (hdiscreet s hruns)
    rw [hfinal] at hclean
    exact hclean

/-! ## §5 A secret in a property -/

section Examples

def guardedEngine (logic : List StepConfig) : Engine Unit :=
  { sampleEngine logic with secrets := .dict [("api", .str "hunter2")] }

/-- The value of a property of the event is traced as it is. -/
theorem property_value_is_traced :
    Maskable (guardedEngine (dropTagged "x")).secrets ∧
      ∃ result, (guardedEngine (dropTagged "x")).execute () [taggedEvent 1 "hunter2"] 2 =
        some (.ok result) ∧ ¬ CleanTexts (guardedEngine (dropTagged "x")).secrets
          result.trace.texts := by
  refine ⟨?_, _, rfl, ?_⟩
  · intro secret hmem
    obtain rfl := mem_singleton.mp hmem
    decide
  · intro hclean
    have hmem : "hunter2" ∈ leafStrings (guardedEngine (dropTagged "x")).secrets :=
      mem_singleton_self _
    exact hclean "hunter2" (by decide) "hunter2" hmem infix_rfl

/-- An event that is filtered right away leaves nothing but words. -/
theorem filtered_event_stays_clean :
    ∃ result, (guardedEngine [simpleAction .filter (by decide)]).execute ()
        [taggedEvent 1 "hunter2"] 2 = some (.ok result) ∧
      CleanTexts (guardedEngine [simpleAction .filter (by decide)]).secrets result.trace.texts := by
  have hword : ∀ word ∈ ["filter", "alert"],
      Clean (guardedEngine [simpleAction .filter (by decide)]).secrets word := by
    intro word hword secret hmem
    obtain rfl := mem_singleton.mp hmem
    revert word
    decide
  have hmaskable : Maskable (guardedEngine [simpleAction .filter (by decide)]).secrets := by
    intro secret hmem
    obtain rfl := mem_singleton.mp hmem
    decide
  refine ⟨_, rfl, ((trace_clean_iff_discreet (guardedEngine [simpleAction .filter (by decide)])
    hmaskable () [taggedEvent 1 "hunter2"]).mpr fun s _ => ⟨?_, ?_⟩).2 2 _ rfl⟩
  · intro event _ _ _ step' w' hrecords
    have hlogic : (guardedEngine [simpleAction .filter (by decide)]).logic =
        [simpleAction .filter (by decide)] := rfl
    rw [hlogic] at hrecords
    cases hstart : s.startStepIndex with
    | zero =>
      rw [hstart] at hrecords
      cases hrecords with
      | here => exact cleanTexts_cons.mpr ⟨hword "filter" (by decide), cleanTexts_nil⟩
      | later _ hfell _ => cases hfell
    | succ start =>
      rw [hstart, drop_succ_cons, drop_nil] at hrecords
      cases hrecords
  · unfold announces
    cases s.events[s.eventIndex]? with
    | none => exact cleanTexts_nil
    | some event =>
      cases hstart : s.startStepIndex with
      | zero => exact cleanTexts_cons.mpr ⟨hword "filter" (by decide), cleanTexts_nil⟩
      | succ start =>
        have hlogic : (guardedEngine [simpleAction .filter (by decide)]).logic.drop (start + 1) =
            [] := drop_nil
        rw [hlogic]
        exact cleanTexts_cons.mpr ⟨hword "alert" (by decide), cleanTexts_nil⟩

end Examples

end Engine

end Ace3.Correlation
