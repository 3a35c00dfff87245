import Ace3.Correlation.Resume

/-!
# What a Merge Leaves Out

The steps that the events of a stream have gone through when the loop ends, if the stream was
replaced on the way.
-/

namespace Ace3.Correlation

open List
open Lib.Json

variable {Ω : Type*}

/-- The steps were ended before all of them were done: by an action, a failure or the timeout. -/
def Ending.Stops : Ending → Prop
  | .failed _ | .interrupt _ => True
  | _ => False

def Ending.Keeps : Ending → Prop
  | .fell | .failed _ => True
  | .interrupt result => result.actionType ∉ [.filter, .stop, .discard]
  | _ => False

namespace Engine

open Relation

variable {c : Engine Ω}

/-! ## §1 Steps that are visited -/

section Visited

variable {eventIndex stepIndex resume : Nat} {w : Walk Ω} {steps : List StepConfig}
  {place : Place} {newStream : List Event}

theorem top_of_processStep_reset {step : StepConfig}
    (h : (c.processStep eventIndex stepIndex w step).ending = .reset newStream resume place) :
    place.top = stepIndex := by
  have hreset := processStep_reset eventIndex stepIndex w [] h
  have hle := hreset.le_top
  have hlt := hreset.top_lt
  rw [length_singleton] at hlt
  omega

theorem visits_of_fell :
    ∀ {steps : List StepConfig} {stepIndex : Nat} {w : Walk Ω},
      (c.processEventSteps eventIndex stepIndex w steps).ending = .fell →
      ∀ k, stepIndex ≤ k → k < stepIndex + steps.length →
        c.Visits eventIndex ⟨[], k⟩ stepIndex w steps
  | [], stepIndex, w, _, k, hle, hlt => absurd hlt (Nat.not_lt_of_le hle)
  | step :: steps, stepIndex, w, h, k, hle, hlt => by
    cases htick : c.tick w with
    | none =>
      rw [processEventSteps_expired htick] at h
      cases h
    | some w₁ =>
      by_cases hfell : (c.processStep eventIndex stepIndex w₁ step).ending = .fell
      · rw [processEventSteps_of_fell htick hfell] at h
        rcases Nat.eq_or_lt_of_le hle with rfl | hnext
        · exact .here htick
        · rw [length_cons] at hlt
          exact .later htick hfell (visits_of_fell h k hnext (by omega))
      · rw [processEventSteps_of_ne htick hfell] at h
        exact absurd h hfell

theorem visits_of_reset :
    ∀ {steps : List StepConfig} {stepIndex : Nat} {w : Walk Ω},
      (c.processEventSteps eventIndex stepIndex w steps).ending = .reset newStream resume place →
      ∀ k, stepIndex ≤ k → k ≤ place.top → c.Visits eventIndex ⟨[], k⟩ stepIndex w steps
  | [], stepIndex, w, h, _, _, _ => by
    rw [processEventSteps] at h
    cases h
  | step :: steps, stepIndex, w, h, k, hle, htop => by
    cases htick : c.tick w with
    | none =>
      rw [processEventSteps_expired htick] at h
      cases h
    | some w₁ =>
      by_cases hfell : (c.processStep eventIndex stepIndex w₁ step).ending = .fell
      · rw [processEventSteps_of_fell htick hfell] at h
        rcases Nat.eq_or_lt_of_le hle with rfl | hnext
        · exact .here htick
        · exact .later htick hfell (visits_of_reset h k hnext htop)
      · rw [processEventSteps_of_ne htick hfell] at h
        rw [top_of_processStep_reset h] at htop
        obtain rfl : stepIndex = k := Nat.le_antisymm hle htop
        exact .here htick

end Visited

/-! ## §2 The turns of a pass -/

variable (c) in
/-- It is the turn of an event, there is time, and its steps end in a way. -/
def Treats (s : Loop Ω) (p : Processed Ω) : Prop :=
  ∃ event, s.events[s.eventIndex]? = some event ∧ (c.elapsed s.world).1.1 = false ∧
    p = c.processEventSteps s.eventIndex s.startStepIndex
      (s.walk (c.elapsed s.world).2 event) (c.logic.drop s.startStepIndex)

variable (c) in
/-- The event whose turn it is executes a filter action. -/
def Filters (s : Loop Ω) : Prop :=
  ∃ p result, c.Treats s p ∧ p.ending = .interrupt result ∧ result.actionType = .filter

variable (c) in
/-- All steps of the top level from the first one of the pass up to a bound are visited, unless the
event was stopped before. -/
def Evaluated (s : Loop Ω) (p : Processed Ω) (bound : Nat) : Prop :=
  p.ending.Stops ∨ ∀ k, s.startStepIndex ≤ k → k < bound → c.VisitsAt s ⟨[], k⟩

variable (c) in
/-- The event with an index is kept in the pass that starts with a state: either its steps were
processed, or the time was over before. -/
inductive KeptAt (s₀ : Loop Ω) (i : Nat) (event : Event) : Prop where
  | treated {s : Loop Ω} {p : Processed Ω} :
    c.Passes s₀ s → s.eventIndex = i → c.Treats s p → p.walk.event = event → p.ending.Keeps →
    c.Evaluated s p c.logic.length → KeptAt s₀ i event
  | spared {s : Loop Ω} :
    c.Passes s₀ s → (c.elapsed s.world).1.1 = true → s.eventIndex ≤ i →
    s.events[i]? = some event → KeptAt s₀ i event

variable {s₀ s s' : Loop Ω} {p : Processed Ω}

theorem Treats.unique {p' : Processed Ω} (h : c.Treats s p) (h' : c.Treats s p') : p = p' := by
  obtain ⟨event, hevent, -, rfl⟩ := h
  obtain ⟨event', hevent', -, rfl⟩ := h'
  rw [hevent] at hevent'
  obtain rfl := Option.some.inj hevent'
  rfl

theorem Treats.turn (h : c.Treats s p) :
    c.turn s = c.conclude { s with world := (c.elapsed s.world).2 } p := by
  obtain ⟨event, hevent, hrunning, rfl⟩ := h
  exact turn_of_running hevent hrunning

theorem Treats.resets {newStream : List Event} {resume : Nat} {place : Place} (h : c.Treats s p)
    (hending : p.ending = .reset newStream resume place) : c.Resets s place := by
  obtain ⟨event, hevent, hrunning, rfl⟩ := h
  exact ⟨event, newStream, resume, hevent, hrunning, hending⟩

theorem Treats.evaluated (h : c.Treats s p) (hkeeps : p.ending.Keeps) :
    c.Evaluated s p c.logic.length := by
  obtain ⟨event, hevent, hrunning, hp⟩ := h
  cases hending : p.ending with
  | fell =>
    refine .inr fun k hle hlt => ⟨event, hevent, hrunning, ?_⟩
    apply visits_of_fell (hp ▸ hending) k hle
    rw [length_drop]
    omega
  | failed message => exact .inl (hending ▸ trivial)
  | interrupt result => exact .inl (hending ▸ trivial)
  | reset newStream resume place | raised message =>
    rw [hending] at hkeeps
    exact hkeeps.elim

theorem treats_of_running (hturn : c.turn s = .running s') : ∃ p, c.Treats s p := by
  obtain ⟨event, hevent, hrunning, -⟩ := conclude_of_running hturn
  exact ⟨_, event, hevent, hrunning, rfl⟩

theorem index_lt_of_passes (h : c.Passes s s') : s = s' ∨ s.eventIndex < s'.eventIndex := by
  induction h with
  | refl => exact .inl rfl
  | tail _ hturn ih =>
    obtain ⟨hturn, hresets⟩ := hturn
    rcases turn_running hturn with ⟨-, -, -, hindex, -⟩ | ⟨place, hreset, -⟩
    · right
      rcases ih with rfl | hlt <;> omega
    · exact absurd hreset (hresets place)

theorem passes_total (h : c.Passes s₀ s) (h' : c.Passes s₀ s') :
    c.Passes s s' ∨ c.Passes s' s := by
  have hunique : Relator.RightUnique fun s s' : Loop Ω =>
      c.turn s = .running s' ∧ ∀ place, ¬ c.Resets s place := by
    rintro s s₁ s₂ ⟨h₁, -⟩ ⟨h₂, -⟩
    rw [h₁] at h₂
    cases h₂
    rfl
  exact ReflTransGen.total_of_right_unique hunique h h'

theorem passes_unique (h : c.Passes s₀ s) (h' : c.Passes s₀ s')
    (hindex : s.eventIndex = s'.eventIndex) : s = s' := by
  rcases passes_total h h' with hpass | hpass
  · exact (index_lt_of_passes hpass).resolve_right (by omega)
  · exact ((index_lt_of_passes hpass).resolve_right (by omega)).symm

theorem exists_turn (hstart : s₀.eventIndex = 0) (h : c.Passes s₀ s) :
    ∀ i ≤ s.eventIndex, ∃ s₁, c.Passes s₀ s₁ ∧ c.Passes s₁ s ∧ s₁.eventIndex = i := by
  induction h with
  | refl =>
    intro i hi
    rw [hstart] at hi
    exact ⟨s₀, .refl, .refl, by omega⟩
  | @tail s s' hpasses hturn ih =>
    intro i hi
    rcases turn_running hturn.1 with ⟨-, -, -, hindex, -⟩ | ⟨place, hreset, -⟩
    · rcases Nat.eq_or_lt_of_le hi with rfl | hlt
      · exact ⟨s', hpasses.tail hturn, .refl, rfl⟩
      · obtain ⟨s₁, hbefore, hafter, hi₁⟩ := ih i (by omega)
        exact ⟨s₁, hbefore, hafter.tail hturn, hi₁⟩
    · exact absurd hreset (hturn.2 place)

/-! ## §3 The last pass -/

theorem alertEvents_conclude (h : c.conclude s p = .running s')
    (hreset : ∀ newStream resume place, p.ending ≠ .reset newStream resume place) :
    ∀ pair ∈ s'.alertEvents, pair ∈ s.alertEvents ∨
      (pair = (s.eventIndex, p.walk.event) ∧ p.ending.Keeps) := by
  unfold conclude at h
  intro pair hmem
  have hkeep : p.ending.Keeps → pair ∈ s.alertEvents ++ [(s.eventIndex, p.walk.event)] →
      pair ∈ s.alertEvents ∨ (pair = (s.eventIndex, p.walk.event) ∧ p.ending.Keeps) := by
    intro hkeeps hmem
    rcases mem_append.mp hmem with hmem | hmem
    · exact .inl hmem
    · exact .inr ⟨mem_singleton.mp hmem, hkeeps⟩
  cases hending : p.ending with
  | reset newStream resume place => exact absurd hending (hreset _ _ _)
  | raised message =>
    rw [hending] at h
    cases h
  | fell | failed message =>
    rw [hending] at h hkeep
    cases h
    exact hkeep trivial hmem
  | interrupt result =>
    rw [hending] at h hkeep
    cases htype : result.actionType with
    | filter =>
      simp only [htype] at h
      cases h
      exact .inl hmem
    | stop | discard =>
      simp only [htype] at h
      cases h
    | alert | log | timeout =>
      simp only [htype] at h
      cases h
      apply hkeep _ hmem
      rw [Ending.Keeps, htype]
      decide

theorem keptAt_of_passes (hstart : s₀.alertEvents = []) (h : c.Passes s₀ s) :
    ∀ pair ∈ s.alertEvents, c.KeptAt s₀ pair.1 pair.2 := by
  induction h with
  | refl =>
    rw [hstart]
    exact nofun
  | @tail s s' hpasses hturn ih =>
    obtain ⟨p, hp⟩ := treats_of_running hturn.1
    have hreset : ∀ newStream resume place, p.ending ≠ .reset newStream resume place :=
      fun newStream resume place hending => hturn.2 place (hp.resets hending)
    intro pair hmem
    rcases alertEvents_conclude (hp.turn.symm.trans hturn.1) hreset pair hmem with
      hmem | ⟨rfl, hkeeps⟩
    · exact ih pair hmem
    · exact .treated hpasses rfl hp rfl hkeeps (hp.evaluated hkeeps)

theorem alertEvents_timedOut {pair : Nat × Event} :
    ∀ {events : List Event} {n : Nat} {s : Loop Ω},
      pair ∈ (Loop.timedOut events n s).alertEvents →
      pair ∈ s.alertEvents ∨ ∃ k, events[k]? = some pair.2 ∧ pair.1 = n + k
  | [], n, s, h => .inl h
  | event :: events, n, s, h => by
    rw [Loop.timedOut] at h
    rcases alertEvents_timedOut h with hmem | ⟨k, hk, hindex⟩
    · rcases mem_append.mp hmem with hmem | hmem
      · exact .inl hmem
      · obtain rfl := mem_singleton.mp hmem
        exact .inr ⟨0, rfl, rfl⟩
    · exact .inr ⟨k + 1, hk, by omega⟩

theorem keptAt_of_finished {result : CorrelationResult} (hstart : s₀.alertEvents = [])
    (h : c.Passes s₀ s) (hturn : c.turn s = .finished result) :
    ∃ pairs : List (Nat × Event), result.events = pairs.map (·.2) ∧
      result.alertEventOriginIndices = pairs.map (·.1) ∧
      ∀ pair ∈ pairs, c.KeptAt s₀ pair.1 pair.2 := by
  have hkept := keptAt_of_passes hstart h
  cases hevent : s.events[s.eventIndex]? with
  | none =>
    rw [turn, hevent] at hturn
    cases hturn
    exact ⟨s.alertEvents, rfl, rfl, hkept⟩
  | some event =>
    cases hexpired : (c.elapsed s.world).1.1 with
    | true =>
      obtain ⟨s₁, hfinal, halerts⟩ : ∃ s₁ : Loop Ω, c.turn s = .finished
          ((Loop.timedOut (s.events.drop s.eventIndex) s.eventIndex s₁).result false) ∧
          s₁.alertEvents = s.alertEvents := by
        rw [turn]
        simp only [hevent, hexpired, if_true]
        exact ⟨_, rfl, rfl⟩
      rw [hfinal] at hturn
      cases hturn
      refine ⟨_, rfl, rfl, fun pair hmem => ?_⟩
      rcases alertEvents_timedOut hmem with hmem | ⟨k, hk, hindex⟩
      · exact hkept pair (halerts ▸ hmem)
      · refine .spared h hexpired (by omega) ?_
        rw [hindex, ← List.getElem?_drop]
        exact hk
    | false =>
      rw [turn_of_running hevent hexpired, conclude] at hturn
      cases hending : (c.processEventSteps s.eventIndex s.startStepIndex
          (s.walk (c.elapsed s.world).2 event) (c.logic.drop s.startStepIndex)).ending with
      | fell | failed _ | raised _ | reset _ _ _ =>
        rw [hending] at hturn
        cases hturn
      | interrupt action =>
        rw [hending] at hturn
        cases htype : action.actionType with
        | stop =>
          simp only [htype] at hturn
          cases hturn
          exact ⟨s.alertEvents, rfl, rfl, hkept⟩
        | discard =>
          simp only [htype] at hturn
          cases hturn
          exact ⟨[], rfl, rfl, by simp⟩
        | filter | alert | log | timeout =>
          simp only [htype] at hturn
          cases hturn

theorem KeptAt.not_filters {i : Nat} {event : Event} (h : c.KeptAt s₀ i event)
    (hs : c.Passes s₀ s) (hindex : s.eventIndex = i) : ¬ c.Filters s := by
  rintro ⟨p, result, hp, hending, htype⟩
  cases h with
  | @treated s' p' hs' hindex' hp' _ hkeeps _ =>
    obtain rfl := passes_unique hs' hs (hindex'.trans hindex.symm)
    rw [hp'.unique hp, hending] at hkeeps
    apply hkeeps
    rw [htype]
    decide
  | @spared s' hs' hexpired hle _ =>
    obtain ⟨event', -, hrunning, -⟩ := hp
    rcases passes_total hs' hs with hpass | hpass
    · -- after the time is over there are no turns
      rcases ReflTransGen.cases_head hpass with rfl | ⟨s'', hturn, -⟩
      · rw [hexpired] at hrunning
        cases hrunning
      · obtain ⟨_, -, hrunning', -⟩ := conclude_of_running hturn.1
        rw [hexpired] at hrunning'
        cases hrunning'
    · rcases index_lt_of_passes hpass with rfl | hlt
      · rw [hexpired] at hrunning
        cases hrunning
      · omega

variable (c) in
/-- A pass over a stream: the first one, or one after a reset. -/
def Begins (start s₀ : Loop Ω) : Prop :=
  s₀ = start ∨ ∃ s place, c.Runs start s ∧ c.Resets s place ∧ c.turn s = .running s₀ ∧
    s₀.startStepIndex = place.index + 1

theorem exists_pass {start : Loop Ω} (hindex : start.eventIndex = 0)
    (halerts : start.alertEvents = []) (h : c.Runs start s) :
    ∃ s₀, c.Begins start s₀ ∧ c.Runs start s₀ ∧ c.Passes s₀ s ∧ s₀.eventIndex = 0 ∧
      s₀.alertEvents = [] := by
  induction h with
  | refl => exact ⟨start, .inl rfl, .refl, .refl, hindex, halerts⟩
  | @tail s s' hruns hturn ih =>
    obtain ⟨s₀, hbegins, hruns₀, hpasses, hindex₀, halerts₀⟩ := ih
    rcases turn_running hturn with ⟨-, hnone, -⟩ | ⟨place, hresets, hindex', hreset⟩
    · exact ⟨s₀, hbegins, hruns₀, hpasses.tail ⟨hturn, hnone⟩, hindex₀, halerts₀⟩
    · refine ⟨s', .inr ⟨s, place, hruns, hresets, hturn, hreset.resume_eq⟩, hruns.tail hturn, .refl,
        hindex', ?_⟩
      obtain ⟨event, newStream, resume, hevent, hrunning, hending⟩ := hresets
      rw [turn_of_running hevent hrunning, conclude] at hturn
      simp only [hending] at hturn
      cases hturn
      rfl

theorem exists_finished {result : CorrelationResult} :
    ∀ {turns : Nat} {s : Loop Ω}, c.run turns s = some (.ok result) →
      ∃ s₁, c.Runs s s₁ ∧ c.turn s₁ = .finished result
  | 0, _, h => by cases h
  | turns + 1, s, h => by
    rw [Engine.run] at h
    cases hturn : c.turn s with
    | running s' =>
      rw [hturn] at h
      obtain ⟨s₁, hruns, hfinal⟩ := exists_finished h
      exact ⟨s₁, .head hturn hruns, hfinal⟩
    | finished result' =>
      rw [hturn] at h
      cases h
      exact ⟨s, .refl, hturn⟩
    | raised message =>
      rw [hturn] at h
      cases h

theorem evaluated_before_reset (hstart : s₀.eventIndex = 0) (h : c.Passes s₀ s) {place : Place}
    (hresets : c.Resets s place) :
    ∀ i ≤ s.eventIndex, ∃ s₁ p, c.Passes s₀ s₁ ∧ s₁.eventIndex = i ∧ c.Treats s₁ p ∧
      c.Evaluated s₁ p place.top := by
  intro i hi
  obtain ⟨s₁, hbefore, hafter, hindex⟩ := exists_turn hstart h i hi
  obtain ⟨event, newStream, resume, hevent, hrunning, hending⟩ := hresets
  have htop := (processEventSteps_reset _ _ _ hending).top_lt_length
  rcases ReflTransGen.cases_head hafter with rfl | ⟨s₂, hturn, -⟩
  · -- the event that resets the stream
    refine ⟨s₁, _, hbefore, hindex, ⟨event, hevent, hrunning, rfl⟩, .inr fun k hle hlt => ?_⟩
    exact ⟨event, hevent, hrunning, visits_of_reset hending k hle (Nat.le_of_lt hlt)⟩
  · obtain ⟨p, hp⟩ := treats_of_running hturn.1
    refine ⟨s₁, p, hbefore, hindex, hp, ?_⟩
    cases hending₁ : p.ending with
    | fell =>
      rcases hp.evaluated (hending₁ ▸ trivial) with hstops | hvisits
      · exact .inl hstops
      · exact .inr fun k hle hlt => hvisits k hle (Nat.lt_trans hlt htop)
    | failed message => exact .inl (hending₁ ▸ trivial)
    | interrupt result => exact .inl (hending₁ ▸ trivial)
    | reset newStream' resume' place' => exact absurd (hp.resets hending₁) (hturn.2 place')
    | raised message =>
      have hconclude := hp.turn.symm.trans hturn.1
      rw [conclude, hending₁] at hconclude
      cases hconclude

/-- **What a stream transform leaves out**: the result has the events that were kept in the pass
after the last reset, in which they went through the steps behind it unless they were stopped, and
none that executed a filter action in that pass. Of the events of a stream that is replaced, those
behind the one that triggered this have not gone through the steps before. -/
theorem merge_keeps_processed (c : Engine Ω) (world : Ω) (events : List Event) (turns : Nat)
    (result : CorrelationResult) (hrun : c.execute world events turns = some (.ok result)) :
    (∃ s₀ s₁, c.Begins (.start c world events) s₀ ∧ c.Passes s₀ s₁ ∧
        c.turn s₁ = .finished result ∧
        (∀ s, c.Passes s₀ s → c.Filters s → s.eventIndex ∉ result.alertEventOriginIndices) ∧
        ∀ (position i : Nat) (event : Event), result.alertEventOriginIndices[position]? = some i →
          result.events[position]? = some event → c.KeptAt s₀ i event) ∧
      ∀ s place, c.Runs (.start c world events) s → c.Resets s place →
        ∃ s₀, c.Begins (.start c world events) s₀ ∧ c.Passes s₀ s ∧
          ∀ i ≤ s.eventIndex, ∃ s₁ p, c.Passes s₀ s₁ ∧ s₁.eventIndex = i ∧ c.Treats s₁ p ∧
            c.Evaluated s₁ p place.top := by
  constructor
  · obtain ⟨s₁, hruns, hfinal⟩ := exists_finished hrun
    obtain ⟨s₀, hbegins, -, hpasses, -, halerts⟩ := exists_pass rfl rfl hruns
    obtain ⟨pairs, hevents, horigins, hkept⟩ := keptAt_of_finished halerts hpasses hfinal
    refine ⟨s₀, s₁, hbegins, hpasses, hfinal, fun s hs hfilters hmem => ?_, ?_⟩
    · rw [horigins] at hmem
      obtain ⟨pair, hpair, hindex⟩ := mem_map.mp hmem
      exact (hkept pair hpair).not_filters hs hindex.symm hfilters
    · intro position i event hi hevent
      rw [horigins, List.getElem?_map] at hi
      rw [hevents, List.getElem?_map] at hevent
      obtain ⟨pair, hpair, rfl⟩ := Option.map_eq_some_iff.mp hi
      rw [hpair] at hevent
      obtain rfl := Option.some.inj hevent
      exact hkept pair (mem_of_getElem? hpair)
  · intro s place hruns hresets
    obtain ⟨s₀, hbegins, -, hpasses, hindex, -⟩ := exists_pass rfl rfl hruns
    exact ⟨s₀, hbegins, hpasses, evaluated_before_reset hindex hpasses hresets⟩

/-! ## §4 A filtered event comes back -/

section Examples

variable (c) in
/-- The states that the loop goes through, and the last one from then on. -/
def stateAfter (start : Loop Ω) : Nat → Loop Ω
  | 0 => start
  | n + 1 =>
    match c.turn (stateAfter start n) with
    | .running s => s
    | _ => stateAfter start n

theorem exists_stateAfter {start : Loop Ω} (h : c.Runs start s) :
    ∃ n, s = c.stateAfter start n := by
  induction h with
  | refl => exact ⟨0, rfl⟩
  | tail _ hturn ih =>
    obtain ⟨n, rfl⟩ := ih
    exact ⟨n + 1, by rw [stateAfter, hturn]⟩

theorem stateAfter_of_finished {start : Loop Ω} {result : CorrelationResult} {n : Nat}
    (h : c.turn (c.stateAfter start n) = .finished result) :
    ∀ k, c.stateAfter start (n + k) = c.stateAfter start n
  | 0 => rfl
  | k + 1 => by
    have ih := stateAfter_of_finished h k
    rw [← Nat.add_assoc, stateAfter, ih, h]

theorem exists_result_of_evaluates {α : Type*} {run : Option (Except String CorrelationResult)}
    {f : CorrelationResult → α} {a : α}
    (h : run.map (fun outcome => outcome.toOption.map f) = some (some a)) :
    ∃ result, run = some (.ok result) ∧ f result = a := by
  obtain ⟨outcome, rfl, houtcome⟩ := Option.map_eq_some_iff.mp h
  cases outcome with
  | error message => cases houtcome
  | ok result => exact ⟨result, rfl, Option.some.inj houtcome⟩

/-- Events with a tag are dropped before all others are merged. -/
def dropAndMerge : List StepConfig :=
  [.condition none (.compare .equals "tag" "drop" true) [filterAction] [], mergeStep]

/-- The first event is filtered, the second one triggers the merge, and the third one would be
filtered as well. -/
def threeEvents : List Event := [taggedEvent 1 "drop", taggedEvent 2 "keep", taggedEvent 3 "drop"]

/-- The merge brings the event back that was filtered, and the one after the triggering event never
gets to the filter: both are in the result. -/
theorem merge_revives_and_exempts :
    ∃ result, (sampleEngine dropAndMerge).execute () threeEvents 6 = some (.ok result) ∧
      result.events.map (·.id) = [1, 2, 3] ∧
      (sampleEngine dropAndMerge).Filters (.start (sampleEngine dropAndMerge) () threeEvents) ∧
      ∀ s, (sampleEngine dropAndMerge).Runs (.start (sampleEngine dropAndMerge) () threeEvents) s →
        (s.events[s.eventIndex]?).map (·.id) = some 3 →
          ¬ (sampleEngine dropAndMerge).VisitsAt s ⟨[], 0⟩ := by
  have hevaluated : ((sampleEngine dropAndMerge).execute () threeEvents 6).map
      (fun outcome => outcome.toOption.map fun result => result.events.map (·.id)) =
        some (some [1, 2, 3]) := by decide +kernel
  obtain ⟨result, hrun, hids⟩ := exists_result_of_evaluates hevaluated
  refine ⟨result, hrun, hids, ?_, ?_⟩
  · exact ⟨_, .of .filter, ⟨taggedEvent 1 "drop", rfl, rfl, rfl⟩, rfl, rfl⟩
  · rintro s hruns hid ⟨event, -, -, hvisits⟩
    obtain ⟨n, rfl⟩ := exists_stateAfter hruns
    have hstart := hvisits.le_top
    -- before the reset it is the turn of the others, and after it the steps start at the third one
    have hothers : ∀ n < 2, (((sampleEngine dropAndMerge).stateAfter (.start
        (sampleEngine dropAndMerge) () threeEvents) n).events[((sampleEngine dropAndMerge).stateAfter
          (.start (sampleEngine dropAndMerge) () threeEvents) n).eventIndex]?).map (·.id) ≠
        some 3 := by decide
    have hlater : ∀ n < 6, 2 ≤ n → 0 < ((sampleEngine dropAndMerge).stateAfter
        (.start (sampleEngine dropAndMerge) () threeEvents) n).startStepIndex := by decide
    have hfinished : (match (sampleEngine dropAndMerge).turn ((sampleEngine dropAndMerge).stateAfter
        (.start (sampleEngine dropAndMerge) () threeEvents) 5) with
      | .finished _ => true
      | _ => false) = true := by decide +kernel
    split at hfinished
    next result hfinal =>
      have hpositive : 2 ≤ n → 0 < ((sampleEngine dropAndMerge).stateAfter
          (.start (sampleEngine dropAndMerge) () threeEvents) n).startStepIndex := by
        intro hn
        rcases Nat.lt_or_ge n 5 with hlt | hge
        · exact hlater n (by omega) hn
        · obtain ⟨k, rfl⟩ := Nat.exists_eq_add_of_le hge
          rw [stateAfter_of_finished hfinal]
          exact hlater 5 (by decide) (by decide)
      rcases Nat.lt_or_ge n 2 with hlt | hge
      · exact hothers n hlt hid
      · exact absurd hstart (Nat.not_le.mpr (hpositive hge))
    next => cases hfinished

/-- The three events of the merged stream are processed in the pass after the merge. -/
theorem merged_events_are_kept :
    ∃ result s₀, (sampleEngine dropAndMerge).execute () threeEvents 6 = some (.ok result) ∧
      result.alertEventOriginIndices = [0, 1, 2] ∧
      (sampleEngine dropAndMerge).Begins (.start (sampleEngine dropAndMerge) () threeEvents) s₀ ∧
      ∀ (position i : Nat) (event : Event), result.alertEventOriginIndices[position]? = some i →
        result.events[position]? = some event → (sampleEngine dropAndMerge).KeptAt s₀ i event := by
  have hevaluated : ((sampleEngine dropAndMerge).execute () threeEvents 6).map
      (fun outcome => outcome.toOption.map (·.alertEventOriginIndices)) =
        some (some [0, 1, 2]) := by decide +kernel
  obtain ⟨result, hrun, horigins⟩ := exists_result_of_evaluates hevaluated
  obtain ⟨⟨s₀, -, hbegins, -, -, -, hkept⟩, -⟩ := merge_keeps_processed _ _ _ _ result hrun
  exact ⟨result, s₀, hrun, horigins, hbegins, hkept⟩

end Examples

end Engine

end Ace3.Correlation
