import Ace3.Correlation.Conservation

/-!
# After a Stream Transform

Where the engine goes on when a stream transform has replaced the stream, and whether it comes to
an end.
-/

namespace Ace3.Correlation

open List
open Lib.Json

variable {Ω : Type*}

/-! ## §1 Places -/

def StepConfig.branch : StepConfig → Branch → List StepConfig
  | .condition _ _ execute _, .execute => execute
  | .condition _ _ _ else_, .else_ => else_
  | _, _ => []

namespace Place

/-- A place in a branch of the step with the index, seen from outside. -/
def within (index : Nat) (branch : Branch) (place : Place) : Place :=
  ⟨(index, branch) :: place.outer, place.index⟩

/-- The index in the top-level list of the step that the place is in. -/
def top (place : Place) : Nat := (place.outer.head?.map (·.1)).getD place.index

def allFrom (steps : List StepConfig) (index : Nat) : List Place :=
  (List.range' index (steps.length - index)).map (⟨[], ·⟩)

end Place

def branchAt (steps : List StepConfig) (index : Nat) (branch : Branch) : List StepConfig :=
  (steps[index]?.map (·.branch branch)).getD []

def stepAt : List (Nat × Branch) → Nat → List StepConfig → Option StepConfig
  | [], index, steps => steps[index]?
  | (i, branch) :: outer, index, steps => stepAt outer index (branchAt steps i branch)

/-- The steps that are next in program order when the step at a place is done: what is left of its
own list, and then of the lists around it. -/
def placesAfter : List (Nat × Branch) → Nat → List StepConfig → List Place
  | [], index, steps => Place.allFrom steps (index + 1)
  | (i, branch) :: outer, index, steps =>
    (placesAfter outer index (branchAt steps i branch)).map (.within i branch) ++
      Place.allFrom steps (i + 1)

/-! ## §2 Aligned places -/

def isLast : List (Nat × Branch) → Nat → List StepConfig → Bool
  | [], index, steps => steps.length ≤ index + 1
  | (i, branch) :: outer, index, steps =>
    isLast outer index (branchAt steps i branch) && decide (steps.length ≤ i + 1)

/-- The place is at the top level, or the last one of its branch, and its index in its own list is
the same as that of the condition in the top-level list, or both lead to the end. -/
def Aligned (logic : List StepConfig) (place : Place) : Prop :=
  match place.outer with
  | [] => True
  | (i, branch) :: outer =>
    isLast outer place.index (branchAt logic i branch) = true ∧
      (place.index = i ∨ (logic.length ≤ i + 1 ∧ logic.length ≤ place.index + 1))

theorem allFrom_eq_nil {steps : List StepConfig} {index : Nat} :
    Place.allFrom steps index = [] ↔ steps.length ≤ index := by
  simp only [Place.allFrom, map_eq_nil_iff, List.range'_eq_nil_iff]
  omega

theorem allFrom_inj {steps : List StepConfig} {i j : Nat} :
    Place.allFrom steps i = Place.allFrom steps j ↔
      i = j ∨ (steps.length ≤ i ∧ steps.length ≤ j) := by
  constructor
  · intro h
    have hlength := congrArg List.length h
    simp only [Place.allFrom, length_map, length_range'] at hlength
    by_cases hi : steps.length ≤ i
    · exact .inr ⟨hi, by omega⟩
    · left
      omega
  · rintro (rfl | ⟨hi, hj⟩)
    · rfl
    · rw [allFrom_eq_nil.mpr hi, allFrom_eq_nil.mpr hj]

theorem placesAfter_eq_nil {outer : List (Nat × Branch)} {index : Nat} :
    ∀ {steps : List StepConfig}, placesAfter outer index steps = [] ↔
      isLast outer index steps = true := by
  induction outer with
  | nil =>
    intro steps
    rw [placesAfter, allFrom_eq_nil, isLast, decide_eq_true_eq]
  | cons pair outer ih =>
    intro steps
    obtain ⟨i, branch⟩ := pair
    rw [placesAfter, isLast, append_eq_nil_iff, map_eq_nil_iff, ih, allFrom_eq_nil,
      Bool.and_eq_true, decide_eq_true_eq]

/-- **The index after the transform is right exactly at the aligned places.** -/
theorem allFrom_eq_placesAfter {logic : List StepConfig} {place : Place} :
    Place.allFrom logic (place.index + 1) = placesAfter place.outer place.index logic ↔
      Aligned logic place := by
  obtain ⟨outer, index⟩ := place
  cases outer with
  | nil => simp [placesAfter, Aligned]
  | cons pair outer =>
    obtain ⟨i, branch⟩ := pair
    simp only [placesAfter, Aligned]
    rw [← placesAfter_eq_nil]
    constructor
    · intro h
      -- a place of the branch is not one of the top-level list
      have hnil : placesAfter outer index (branchAt logic i branch) = [] := by
        cases hrest : placesAfter outer index (branchAt logic i branch) with
        | nil => rfl
        | cons place rest =>
          have hmem : place.within i branch ∈ Place.allFrom logic (index + 1) := by
            rw [h, hrest]
            exact mem_append_left _ mem_cons_self
          obtain ⟨j, -, hj⟩ := mem_map.mp hmem
          cases congrArg Place.outer hj
      refine ⟨hnil, ?_⟩
      rw [hnil, map_nil, nil_append] at h
      rcases allFrom_inj.mp h with hindex | ⟨hindex, hi⟩
      · left
        omega
      · exact .inr ⟨hi, hindex⟩
    · rintro ⟨hnil, h⟩
      rw [hnil, map_nil, nil_append]
      apply allFrom_inj.mpr
      rcases h with rfl | ⟨hi, hindex⟩
      · exact .inl rfl
      · exact .inr ⟨hindex, hi⟩

theorem Aligned.top_lt {logic : List StepConfig} {place : Place} (h : Aligned logic place)
    (htop : place.top < logic.length) : place.top < place.index + 1 := by
  obtain ⟨outer, index⟩ := place
  cases outer with
  | nil => exact Nat.lt_succ_self index
  | cons pair outer =>
    obtain ⟨i, branch⟩ := pair
    show i < index + 1
    have hi : i < logic.length := htop
    rcases h.2 with heq | ⟨-, hindex⟩
    · have : index = i := heq
      omega
    · have : logic.length ≤ index + 1 := hindex
      omega

/-! ## §3 The steps of one event -/

namespace Engine

variable (c : Engine Ω)

/-- With a list of steps, the event of a walk gets to the step at a place, and there is time
for it. -/
inductive Visits (eventIndex : Nat) : Place → Nat → Walk Ω → List StepConfig → Prop where
  | here {stepIndex : Nat} {w w₁ : Walk Ω} {step : StepConfig} {steps : List StepConfig} :
    c.tick w = some w₁ → Visits eventIndex ⟨[], stepIndex⟩ stepIndex w (step :: steps)
  /-- The steps before are completed. -/
  | later {place : Place} {stepIndex : Nat} {w w₁ : Walk Ω} {step : StepConfig}
      {steps : List StepConfig} :
    c.tick w = some w₁ → (c.processStep eventIndex stepIndex w₁ step).ending = .fell →
    Visits eventIndex place (stepIndex + 1) (c.processStep eventIndex stepIndex w₁ step).walk
      steps →
    Visits eventIndex place stepIndex w (step :: steps)
  /-- The step is in the branch of a condition that is taken. -/
  | branch {place : Place} {stepIndex : Nat} {w w₁ : Walk Ω} {description : Option String}
      {when : ExpressionConfig} {execute else_ steps : List StepConfig} {result : Bool}
      {trace : ExpressionTrace} :
    c.tick w = some w₁ → c.evaluateCondition when w₁ = .ok (result, trace) →
    trace.error = none →
    Visits eventIndex place 0 w₁ (if result then execute else else_) →
    Visits eventIndex (place.within stepIndex (if result then .execute else .else_)) stepIndex w
      (.condition description when execute else_ :: steps)

variable {c} {eventIndex stepIndex resume : Nat} {w : Walk Ω} {steps : List StepConfig}
  {place : Place} {newStream : List Event}

theorem Visits.le_top (h : c.Visits eventIndex place stepIndex w steps) :
    stepIndex ≤ place.top := by
  induction h with
  | here _ => exact Nat.le_refl _
  | later _ _ _ ih => exact Nat.le_of_succ_le ih
  | branch _ _ _ _ _ => exact Nat.le_refl _

/-- What a reset says: its place holds a stream transform, which is one of the steps, and the index
is the one after it in its own list. -/
structure ResetAt (resume : Nat) (place : Place) (stepIndex : Nat) (steps : List StepConfig) :
    Prop where
  resume_eq : resume = place.index + 1
  le_top : stepIndex ≤ place.top
  top_lt : place.top < stepIndex + steps.length
  stepAt_eq : ∀ before : List StepConfig, before.length = stepIndex →
    ∃ description transform, stepAt place.outer place.index (before ++ steps) =
      some (.transform description transform) ∧ transform.method.type = "stream"

theorem ResetAt.top_lt_length {logic : List StepConfig} {resume start : Nat} {place : Place}
    (h : ResetAt resume place start (logic.drop start)) : place.top < logic.length := by
  have hle := h.le_top
  have hlt := h.top_lt
  rw [length_drop] at hlt
  omega

variable {description : Option String} {p : Processed Ω}

theorem closeCondition_reset {trace : ExpressionTrace} {branch : Branch}
    (h : (closeCondition description trace stepIndex branch p).ending =
      .reset newStream resume place) :
    ∃ inner : Place, p.ending = .reset newStream resume inner ∧
      place = inner.within stepIndex branch := by
  unfold closeCondition at h
  cases hending : p.ending with
  | reset newStream' resume' inner =>
    simp only [hending, Ending.within] at h
    cases h
    exact ⟨inner, rfl, rfl⟩
  | fell | interrupt _ | failed _ | raised _ =>
    simp only [hending, Ending.within] at h
    cases h

theorem executeTransform_reset {transform : TransformConfig}
    (h : (c.executeTransform description transform eventIndex stepIndex w).ending =
      .reset newStream resume place) :
    resume = stepIndex + 1 ∧ place = ⟨[], stepIndex⟩ ∧ transform.method.type = "stream" := by
  unfold executeTransform at h
  split at h
  · cases h
  · split at h
    · cases h
    · unfold applyTransform at h
      cases hmethod : transform.method with
      | property name type =>
        simp only [hmethod] at h
        split at h <;> cases h
      | merge spec =>
        simp only [hmethod] at h
        split at h <;> cases h
        exact ⟨rfl, rfl, rfl⟩
      | mutate =>
        simp only [hmethod] at h
        split at h <;> cases h
        exact ⟨rfl, rfl, rfl⟩
      | unknown type method =>
        simp only [hmethod] at h
        cases h

theorem executeAction_ne_reset {action : ActionConfig} :
    (c.executeAction description action w).ending ≠ .reset newStream resume place := by
  intro h
  unfold executeAction at h
  cases hlog : c.logError action w.event.value (w.events.map (·.value)) with
  | some error =>
    simp only [hlog] at h
    cases h
  | none =>
    simp only [hlog] at h
    split at h <;> cases h

theorem branchAt_append {before : List StepConfig} (hbefore : before.length = stepIndex)
    {step : StepConfig} (branch : Branch) :
    branchAt (before ++ step :: steps) stepIndex branch = step.branch branch := by
  rw [branchAt, List.getElem?_append_right (by omega), ← hbefore, Nat.sub_self]
  rfl

theorem lt_add_length {step : StepConfig} : stepIndex < stepIndex + (step :: steps).length :=
  Nat.lt_add_of_pos_right (Nat.succ_pos _)

mutual

theorem processStep_reset (eventIndex stepIndex : Nat) (w : Walk Ω) (steps : List StepConfig) :
    ∀ {step : StepConfig} {newStream : List Event} {resume : Nat} {place : Place},
      (c.processStep eventIndex stepIndex w step).ending = .reset newStream resume place →
      ResetAt resume place stepIndex (step :: steps)
  | .condition description when execute else_, newStream, resume, place, h => by
    rw [processStep] at h
    cases hevaluate : c.evaluateCondition when w with
    | error error =>
      simp only [hevaluate] at h
      cases h
    | ok pair =>
      obtain ⟨result, trace⟩ := pair
      simp only [hevaluate] at h
      cases herror : trace.error with
      | some error =>
        simp only [herror] at h
        cases h
      | none =>
        simp only [herror] at h
        split at h
        · obtain ⟨inner, hinner, rfl⟩ := closeCondition_reset h
          have hreset := processEventSteps_reset eventIndex 0 w hinner
          refine ⟨hreset.resume_eq, Nat.le_refl _, lt_add_length, fun before hbefore => ?_⟩
          simp only [Place.within, stepAt, branchAt_append hbefore]
          exact hreset.stepAt_eq [] rfl
        · split at h
          · cases h
          · obtain ⟨inner, hinner, rfl⟩ := closeCondition_reset h
            have hreset := processEventSteps_reset eventIndex 0 w hinner
            refine ⟨hreset.resume_eq, Nat.le_refl _, lt_add_length, fun before hbefore => ?_⟩
            simp only [Place.within, stepAt, branchAt_append hbefore]
            exact hreset.stepAt_eq [] rfl
  | .transform description transform, newStream, resume, place, h => by
    rw [processStep] at h
    obtain ⟨rfl, rfl, htype⟩ := executeTransform_reset h
    refine ⟨rfl, Nat.le_refl _, lt_add_length, fun before hbefore =>
      ⟨description, transform, ?_, htype⟩⟩
    show (before ++ _)[stepIndex]? = _
    rw [List.getElem?_append_right (Nat.le_of_eq hbefore), hbefore, Nat.sub_self]
    rfl
  | .action description action, newStream, resume, place, h => by
    rw [processStep] at h
    exact absurd h executeAction_ne_reset

theorem processEventSteps_reset (eventIndex stepIndex : Nat) (w : Walk Ω) :
    ∀ {steps : List StepConfig} {newStream : List Event} {resume : Nat} {place : Place},
      (c.processEventSteps eventIndex stepIndex w steps).ending = .reset newStream resume place →
      ResetAt resume place stepIndex steps
  | [], newStream, resume, place, h => by
    rw [processEventSteps] at h
    cases h
  | step :: steps, newStream, resume, place, h => by
    cases htick : c.tick w with
    | none =>
      rw [processEventSteps_expired htick] at h
      cases h
    | some w₁ =>
      by_cases hfell : (c.processStep eventIndex stepIndex w₁ step).ending = .fell
      · rw [processEventSteps_of_fell htick hfell] at h
        have hreset := processEventSteps_reset eventIndex (stepIndex + 1) _ h
        have htop := hreset.top_lt
        refine ⟨hreset.resume_eq, Nat.le_of_succ_le hreset.le_top, by rw [length_cons]; omega,
          fun before hbefore => ?_⟩
        have hstep := hreset.stepAt_eq (before ++ [step]) (by simp [hbefore])
        rwa [append_assoc, singleton_append] at hstep
      · rw [processEventSteps_of_ne htick hfell] at h
        exact processStep_reset eventIndex stepIndex w₁ steps h

end

theorem length_executeTransform {transform : TransformConfig} :
    (c.executeTransform description transform eventIndex stepIndex w).walk.events.length =
      w.events.length := by
  unfold executeTransform
  split
  · rfl
  · split
    · rfl
    · unfold applyTransform
      cases transform.method with
      | property name type =>
        dsimp only
        split
        · rfl
        · exact length_set
      | merge spec =>
        dsimp only
        split <;> rfl
      | mutate =>
        dsimp only
        split <;> rfl
      | unknown type method => rfl

theorem length_executeAction {action : ActionConfig} :
    (c.executeAction description action w).walk.events.length = w.events.length := by
  unfold executeAction
  cases hlog : c.logError action w.event.value (w.events.map (·.value)) with
  | some error => simp only [hlog]
  | none => simp only [hlog]

theorem walk_closeCondition {trace : ExpressionTrace} {branch : Branch} :
    (closeCondition description trace stepIndex branch p).walk = p.walk := by
  unfold closeCondition
  cases p.ending <;> rfl

mutual

theorem length_processStep (eventIndex stepIndex : Nat) (w : Walk Ω) :
    ∀ step : StepConfig,
      (c.processStep eventIndex stepIndex w step).walk.events.length = w.events.length
  | .condition description when execute else_ => by
    rw [processStep]
    cases c.evaluateCondition when w with
    | error error => rfl
    | ok pair =>
      obtain ⟨result, trace⟩ := pair
      cases herror : trace.error with
      | some error => simp only [herror]
      | none =>
        simp only [herror]
        split
        · rw [walk_closeCondition]
          exact length_processEventSteps eventIndex 0 w execute
        · split
          · rfl
          · rw [walk_closeCondition]
            exact length_processEventSteps eventIndex 0 w else_
  | .transform description transform => by
    rw [processStep]
    exact length_executeTransform
  | .action description action => by
    rw [processStep]
    exact length_executeAction

theorem length_processEventSteps (eventIndex stepIndex : Nat) (w : Walk Ω) :
    ∀ steps : List StepConfig,
      (c.processEventSteps eventIndex stepIndex w steps).walk.events.length = w.events.length
  | [] => by rw [processEventSteps]
  | step :: steps => by
    cases htick : c.tick w with
    | none => rw [processEventSteps_expired htick]
    | some w₁ =>
      have hevents : w₁.events = w.events := by
        obtain ⟨-, rfl⟩ := tick_eq_some.mp htick
        rfl
      have hstep := length_processStep eventIndex stepIndex w₁ step
      by_cases hfell : (c.processStep eventIndex stepIndex w₁ step).ending = .fell
      · rw [processEventSteps_of_fell htick hfell]
        show (c.processEventSteps eventIndex (stepIndex + 1) _ steps).walk.events.length = _
        rw [length_processEventSteps eventIndex (stepIndex + 1) _ steps, hstep, hevents]
      · rw [processEventSteps_of_ne htick hfell, hstep, hevents]

end

/-! ## §4 The loop -/

open Relation

variable (c) in
def Resets (s : Loop Ω) (place : Place) : Prop :=
  ∃ event newStream resume, s.events[s.eventIndex]? = some event ∧
    (c.elapsed s.world).1.1 = false ∧
    (c.processEventSteps s.eventIndex s.startStepIndex (s.walk (c.elapsed s.world).2 event)
      (c.logic.drop s.startStepIndex)).ending = .reset newStream resume place

variable (c) in
def VisitsAt (s : Loop Ω) (place : Place) : Prop :=
  ∃ event, s.events[s.eventIndex]? = some event ∧ (c.elapsed s.world).1.1 = false ∧
    c.Visits s.eventIndex place s.startStepIndex (s.walk (c.elapsed s.world).2 event)
      (c.logic.drop s.startStepIndex)

variable (c) in
def Runs : Loop Ω → Loop Ω → Prop := ReflTransGen fun s s' => c.turn s = .running s'

variable (c) in
/-- The loop goes on to another state without a reset. -/
def Passes : Loop Ω → Loop Ω → Prop :=
  ReflTransGen fun s s' => c.turn s = .running s' ∧ ∀ place, ¬ c.Resets s place

variable (c) in
/-- In the state after a reset all events of the new stream are to be processed, each of them from
the step on that follows the transform, which is not executed again. -/
structure ResumesAfter (place : Place) (s : Loop Ω) : Prop where
  restarts : s.eventIndex = 0
  continues : ∀ s', c.Passes s s' →
    Place.allFrom c.logic s'.startStepIndex = placesAfter place.outer place.index c.logic
  once : ∀ s', c.Runs s s' → ¬ c.VisitsAt s' place

variable {s s' : Loop Ω}

theorem conclude_running (h : c.conclude s p = .running s') :
    (∀ newStream resume place, p.ending ≠ .reset newStream resume place) ∧
        s'.events = p.walk.events ∧ s'.eventIndex = s.eventIndex + 1 ∧
        s'.startStepIndex = s.startStepIndex ∨
      ∃ newStream place, p.ending = .reset newStream s'.startStepIndex place ∧
        s'.eventIndex = 0 := by
  unfold conclude at h
  cases hending : p.ending with
  | reset newStream resume place =>
    rw [hending] at h
    cases h
    exact .inr ⟨newStream, place, rfl, rfl⟩
  | raised message =>
    rw [hending] at h
    cases h
  | fell | failed message =>
    rw [hending] at h
    cases h
    exact .inl ⟨nofun, rfl, rfl, rfl⟩
  | interrupt result =>
    rw [hending] at h
    cases htype : result.actionType <;> simp only [htype] at h <;> cases h <;>
      exact .inl ⟨nofun, rfl, rfl, rfl⟩

theorem conclude_of_running (h : c.turn s = .running s') :
    ∃ event, s.events[s.eventIndex]? = some event ∧ (c.elapsed s.world).1.1 = false ∧
      c.conclude { s with world := (c.elapsed s.world).2 }
        (c.processEventSteps s.eventIndex s.startStepIndex (s.walk (c.elapsed s.world).2 event)
          (c.logic.drop s.startStepIndex)) = .running s' := by
  cases hevent : s.events[s.eventIndex]? with
  | none =>
    simp only [turn, hevent] at h
    cases h
  | some event =>
    cases hexpired : (c.elapsed s.world).1.1 with
    | true =>
      simp only [turn, hevent, hexpired, if_true] at h
      cases h
    | false => exact ⟨event, rfl, rfl, turn_of_running hevent hexpired ▸ h⟩

/-- What a turn can do: it goes on to the next event with the same steps, or it resets the
stream. -/
theorem turn_running (h : c.turn s = .running s') :
    s.eventIndex < s.events.length ∧ (∀ place, ¬ c.Resets s place) ∧
        s'.events.length = s.events.length ∧ s'.eventIndex = s.eventIndex + 1 ∧
        s'.startStepIndex = s.startStepIndex ∨
      ∃ place, c.Resets s place ∧ s'.eventIndex = 0 ∧
        ResetAt s'.startStepIndex place s.startStepIndex (c.logic.drop s.startStepIndex) := by
  obtain ⟨event, hevent, hrunning, hconclude⟩ := conclude_of_running h
  rcases conclude_running hconclude with ⟨hne, hevents, hindex, hstart⟩ |
    ⟨newStream, place, hending, hindex⟩
  · refine .inl ⟨(List.getElem?_eq_some_iff.mp hevent).1, ?_, ?_, hindex, hstart⟩
    · rintro place ⟨event', newStream, resume, hevent', -, hending⟩
      rw [hevent] at hevent'
      obtain rfl := Option.some.inj hevent'
      exact hne newStream resume place hending
    · rw [hevents, length_processEventSteps]
      rfl
  · exact .inr ⟨place, ⟨event, newStream, _, hevent, hrunning, hending⟩, hindex,
      processEventSteps_reset _ _ _ hending⟩

theorem Resets.unique {place place' : Place} (h : c.Resets s place) (h' : c.Resets s place') :
    place = place' := by
  obtain ⟨event, newStream, resume, hevent, -, hending⟩ := h
  obtain ⟨event', newStream', resume', hevent', -, hending'⟩ := h'
  rw [hevent] at hevent'
  obtain rfl := Option.some.inj hevent'
  rw [hending] at hending'
  cases hending'
  rfl

theorem start_le_of_runs (haligned : ∀ s', c.Runs s s' → ∀ place, c.Resets s' place →
    Aligned c.logic place) (h : c.Runs s s') : s.startStepIndex ≤ s'.startStepIndex := by
  induction h with
  | refl => exact Nat.le_refl _
  | tail hruns hturn ih =>
    apply Nat.le_trans ih
    rcases turn_running hturn with ⟨-, -, -, -, hstart⟩ | ⟨place, hresets, -, hreset⟩
    · exact Nat.le_of_eq hstart.symm
    · have hle := hreset.le_top
      have htop := (haligned _ hruns place hresets).top_lt hreset.top_lt_length
      rw [hreset.resume_eq]
      omega

theorem start_of_passes (h : c.Passes s s') : s'.startStepIndex = s.startStepIndex := by
  induction h with
  | refl => rfl
  | tail _ hturn ih =>
    obtain ⟨hturn, hresets⟩ := hturn
    rcases turn_running hturn with ⟨-, -, -, -, hstart⟩ | ⟨place, hreset, -⟩
    · exact hstart.trans ih
    · exact absurd hreset (hresets place)

theorem resumesAfter_of_aligned {place : Place} (haligned : ∀ s', c.Runs s s' →
    ∀ place, c.Resets s' place → Aligned c.logic place)
    (hresets : c.Resets s place) (hturn : c.turn s = .running s') : c.ResumesAfter place s' := by
  rcases turn_running hturn with ⟨-, hnone, -⟩ | ⟨place', hresets', hindex, hreset⟩
  · exact absurd hresets (hnone place)
  · obtain rfl := hresets.unique hresets'
    have hplace := haligned s .refl place hresets
    have htop := hplace.top_lt hreset.top_lt_length
    refine ⟨hindex, fun s'' hpasses => ?_, fun s'' hruns => ?_⟩
    · rw [start_of_passes hpasses, hreset.resume_eq]
      exact allFrom_eq_placesAfter.mpr hplace
    · rintro ⟨event, -, -, hvisits⟩
      -- the steps from here on are all behind the one that the transform is in
      have hstart := start_le_of_runs (fun s'' hruns' => haligned s'' (.head hturn hruns')) hruns
      have hvisited := hvisits.le_top
      rw [hreset.resume_eq] at hstart
      omega

/-- **The loop ends** by itself where all resets are at aligned places: with each of them fewer
steps are left, and between them fewer events. -/
theorem run_ends (haligned : ∀ s', c.Runs s s' → ∀ place, c.Resets s' place →
    Aligned c.logic place) : ∃ turns, (c.run turns s).isSome := by
  induction hsteps : c.logic.length - s.startStepIndex using Nat.strong_induction_on
    generalizing s with
  | _ steps ihsteps =>
    induction hevents : s.events.length - s.eventIndex using Nat.strong_induction_on
      generalizing s with
    | _ events ihevents =>
      cases hturn : c.turn s with
      | finished result => exact ⟨1, by rw [Engine.run, hturn]; rfl⟩
      | raised message => exact ⟨1, by rw [Engine.run, hturn]; rfl⟩
      | running s' =>
        have haligned' : ∀ s'', c.Runs s' s'' → ∀ place, c.Resets s'' place →
            Aligned c.logic place := fun s'' hruns => haligned s'' (.head hturn hruns)
        obtain ⟨turns, hrun⟩ : ∃ turns, (c.run turns s').isSome := by
          rcases turn_running hturn with ⟨hlt, -, hlength, hindex, hstart⟩ |
            ⟨place, hresets, -, hreset⟩
          · apply ihevents _ _ haligned' _ rfl
            · omega
            · rw [hstart, hsteps]
          · apply ihsteps _ _ haligned' rfl
            have hle := hreset.le_top
            have hlt := hreset.top_lt_length
            have htop := (haligned s .refl place hresets).top_lt hlt
            rw [hreset.resume_eq]
            omega
        exact ⟨turns + 1, by rw [Engine.run, hturn]; exact hrun⟩

/-- **A stream transform resumes right after itself exactly at an aligned place**: all resets of a run
resume with the step that follows the transform, and the run comes to its end whatever the clock
says, exactly when all transforms that reset the stream are at the top level, or at the end of all
branches around them with an index that happens to be right. -/
theorem resumes_iff_aligned (c : Engine Ω) (world : Ω) (events : List Event) :
    ((∀ s, c.Runs (.start c world events) s → ∀ place, c.Resets s place →
        ∀ s', c.turn s = .running s' → c.ResumesAfter place s') ∧
      ∃ turns, (c.execute world events turns).isSome) ↔
      ∀ s, c.Runs (.start c world events) s → ∀ place, c.Resets s place →
        Aligned c.logic place := by
  constructor
  · rintro ⟨hresumes, -⟩ s hruns place hresets
    obtain ⟨event, newStream, resume, hevent, hrunning, hending⟩ := id hresets
    have hturn := turn_of_running hevent hrunning
    simp only [conclude, hending] at hturn
    have hafter := (hresumes s hruns place hresets _ hturn).continues _ .refl
    apply allFrom_eq_placesAfter.mp
    rw [← hafter]
    exact congrArg (Place.allFrom c.logic) (processEventSteps_reset _ _ _ hending).resume_eq.symm
  · intro haligned
    refine ⟨fun s hruns place hresets s' hturn => ?_, run_ends haligned⟩
    exact resumesAfter_of_aligned (fun s' hruns' => haligned s' (hruns.trans hruns')) hresets hturn

/-! ## §5 A merge in a branch -/

section Examples

def mergeStep : StepConfig :=
  .transform none ⟨.merge ⟨"time", "iso", "time", "iso"⟩,
    ⟨"executable", "01:00", none, none, none, none, [], some "/bin/true", none, none, none, none,
      none⟩⟩

def logAndMerge : List StepConfig :=
  [simpleAction .log (by decide), .condition none (.jinja "true") [mergeStep] []]

/-- Nothing follows the merge, which is the first step of its branch. -/
example : placesAfter [(1, .execute)] 0 logAndMerge = [] ∧
    ¬ Aligned logAndMerge ⟨[(1, .execute)], 0⟩ :=
  ⟨rfl, fun h => absurd h.2 (by decide)⟩

/-- The engine goes on with the condition that the merge is in, and executes it again. -/
theorem nested_merge_repeats :
    ¬ ((∀ s, (sampleEngine logAndMerge).Runs
          (.start (sampleEngine logAndMerge) () [taggedEvent 1 "keep"]) s →
        ∀ place, (sampleEngine logAndMerge).Resets s place →
        ∀ s', (sampleEngine logAndMerge).turn s = .running s' →
          (sampleEngine logAndMerge).ResumesAfter place s') ∧
      ∃ turns, ((sampleEngine logAndMerge).execute () [taggedEvent 1 "keep"] turns).isSome) := by
  rintro ⟨hresumes, -⟩
  have hresets : (sampleEngine logAndMerge).Resets
      (.start (sampleEngine logAndMerge) () [taggedEvent 1 "keep"]) ⟨[(1, .execute)], 0⟩ :=
    ⟨taggedEvent 1 "keep", _, 1, rfl, rfl, rfl⟩
  have hafter := hresumes _ .refl _ hresets _ rfl
  exact absurd (hafter.continues _ .refl) (by decide)

end Examples

end Engine

end Ace3.Correlation
