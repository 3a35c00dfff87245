import Ace3.Correlation.Conservation

/-!
# Routing the Events of a Correlation

Which queue and analysis mode the submission for an event gets
(`saq/collectors/hunter/query_hunter.py`).
-/

namespace Ace3.Correlation

open List
open Lib.Json

variable {Ω : Type*}

/-! ## §1 An account of the run -/

/-- What became of an event in a pass over the stream, and the alert action that it executed. -/
structure Turn where
  event : Event
  kept : Bool
  alert : Option ActionResult
  /-- An alert action keeps the event. -/
  valid : kept = false → alert = none

def Turn.dropped (event : Event) : Turn := ⟨event, false, none, fun _ => rfl⟩

/-- The turn of an event that is kept without an alert action. -/
def Turn.spared (event : Event) : Turn := ⟨event, true, none, nofun⟩

def Turn.ofProcessed (p : Processed Ω) : Turn :=
  match p.ending with
  | .interrupt result =>
    match result.actionType with
    | .filter | .stop | .discard => .dropped p.walk.event
    | .alert => ⟨p.walk.event, true, some result, nofun⟩
    | .log | .timeout => .spared p.walk.event
  | _ => .spared p.walk.event

/-- What the engine records of an event that it keeps. -/
def Turn.recorded (turn : Turn) : Option ActionResult :=
  if turn.kept then some (turn.alert.getD (.of .alert)) else none

/-- The alert actions that were executed in earlier passes, for each event the last one, and the
turns of the pass over the current stream. -/
structure Account where
  earlier : Nat → Option ActionResult
  pass : List Turn

namespace Account

def empty : Account := ⟨fun _ => none, []⟩

def kept (a : Account) : List Turn := a.pass.filter (·.kept)

def executed (a : Account) (turn : Turn) : Option ActionResult :=
  turn.alert.or (a.earlier turn.event.id)

/-- The pass is over, and what was executed in it is remembered. -/
def closed (a : Account) : Account where
  earlier := a.pass.foldl (fun earlier turn =>
    if turn.alert.isSome then Function.update earlier turn.event.id turn.alert else earlier)
    a.earlier
  pass := []

def append (a : Account) (turns : List Turn) : Account := ⟨a.earlier, a.pass ++ turns⟩

/-- The steps of an event were processed. Nothing is kept of a stream that is replaced or
discarded. -/
def after (a : Account) (p : Processed Ω) : Account :=
  match p.ending with
  | .reset _ _ _ => a.closed
  | .interrupt result =>
    if result.actionType = .discard then a.closed else a.append [.ofProcessed p]
  | _ => a.append [.ofProcessed p]

end Account

namespace Engine

variable (c : Engine Ω)

def noteTurn (s : Loop Ω) (a : Account) : Account :=
  match s.events[s.eventIndex]? with
  | none => a
  | some event =>
    if (c.elapsed s.world).1.1 then a.append ((s.events.drop s.eventIndex).map .spared)
    else a.after (c.processEventSteps s.eventIndex s.startStepIndex
      (s.walk (c.elapsed s.world).2 event) (c.logic.drop s.startStepIndex))

def account : Nat → Loop Ω → Account → Account
  | 0, _, a => a
  | turns + 1, s, a =>
    match c.turn s with
    | .running s' => account turns s' (c.noteTurn s a)
    | _ => c.noteTurn s a

/-! ## §2 What is recorded -/

/-- What the loop has collected of the current stream is what the account says. -/
structure Accounts (a : Account) (s : Loop Ω) : Prop where
  events : s.alertEvents.map (·.2) = a.kept.map (·.event)
  actions : ∀ i, s.eventActions i = (a.pass[i]?).bind Turn.recorded

structure AccountsFor (a : Account) (result : CorrelationResult) : Prop where
  events : result.events = a.kept.map (·.event)
  actions : result.discarded = false → ∀ i, result.eventActions i = (a.pass[i]?).bind Turn.recorded
  discarded : result.discarded = true → a.kept = []

variable {c} {a : Account} {s s' : Loop Ω}

theorem Accounts.keep (h : Accounts a s) {index : Nat} (hindex : index = a.pass.length)
    {turn : Turn} (hkept : turn.kept = true) :
    Accounts (a.append [turn]) (s.keep index turn.event (turn.alert.getD (.of .alert))) := by
  refine ⟨?_, fun i => ?_⟩
  · show (s.alertEvents ++ [(index, turn.event)]).map (·.2) =
      ((a.pass ++ [turn]).filter (·.kept)).map (·.event)
    rw [map_append, h.events, filter_append, map_append]
    simp [Account.kept, hkept]
  · subst hindex
    show Function.update s.eventActions a.pass.length _ i = ((a.pass ++ [turn])[i]?).bind _
    by_cases hi : i = a.pass.length
    · subst hi
      rw [Function.update_self, List.getElem?_concat_length]
      show _ = turn.recorded
      rw [Turn.recorded, if_pos hkept]
    · rw [Function.update_of_ne hi, h.actions]
      rcases Nat.lt_or_gt_of_ne hi with hlt | hgt
      · rw [List.getElem?_append_left hlt]
      · rw [List.getElem?_eq_none (by omega),
          List.getElem?_eq_none (by rw [length_append, length_singleton]; omega)]

theorem Accounts.skip (h : Accounts a s) {turn : Turn} (hkept : turn.kept = false) :
    Accounts (a.append [turn]) s := by
  refine ⟨?_, fun i => ?_⟩
  · show _ = ((a.pass ++ [turn]).filter (·.kept)).map (·.event)
    rw [filter_append, map_append, h.events]
    simp [Account.kept, hkept]
  · rw [h.actions]
    show _ = ((a.pass ++ [turn])[i]?).bind _
    rcases Nat.lt_trichotomy i a.pass.length with hlt | rfl | hgt
    · rw [List.getElem?_append_left hlt]
    · rw [List.getElem?_eq_none (Nat.le_refl _), List.getElem?_concat_length]
      show _ = turn.recorded
      rw [Turn.recorded, hkept]
      rfl
    · rw [List.getElem?_eq_none (by omega),
        List.getElem?_eq_none (by rw [length_append, length_singleton]; omega)]

theorem Accounts.timedOut (h : Accounts a s) (events : List Event) {index : Nat}
    (hindex : index = a.pass.length) :
    Accounts (a.append (events.map .spared)) (Loop.timedOut events index s) := by
  induction events generalizing a s index with
  | nil =>
    rw [map_nil, Account.append, append_nil]
    exact h
  | cons event events ih =>
    have hkeep : Accounts (a.append [.spared event]) (s.keep index event (.of .alert)) :=
      h.keep hindex rfl
    have htraced : Accounts (a.append [.spared event])
        ((s.keep index event (.of .alert)).traced index [] .timeout) :=
      ⟨hkeep.events, hkeep.actions⟩
    have hlength : index + 1 = (a.append [.spared event]).pass.length := by
      rw [hindex, Account.append, length_append, length_singleton]
    have hrest := ih htraced hlength
    rw [Loop.timedOut]
    rwa [Account.append, Account.append, append_assoc] at hrest

theorem Accounts.result (h : Accounts a s) : AccountsFor a (s.result false) :=
  ⟨h.events, fun _ => h.actions, nofun⟩

theorem Accounts.conclude (h : Accounts a s) (hindex : s.eventIndex = a.pass.length)
    (p : Processed Ω) :
    match c.conclude s p with
    | .running s' => Accounts (a.after p) s' ∧ s'.eventIndex = (a.after p).pass.length
    | .finished result => AccountsFor (a.after p) result
    | .raised _ => True := by
  have hlength : ∀ turn, s.eventIndex + 1 = (a.append [turn]).pass.length := fun turn => by
    rw [hindex, Account.append, length_append, length_singleton]
  unfold Engine.conclude Account.after
  cases hending : p.ending with
  | raised message => trivial
  | reset newStream resume place => exact ⟨⟨rfl, fun i => rfl⟩, rfl⟩
  | fell | failed message =>
    have hturn : Turn.ofProcessed p = .spared p.walk.event := by rw [Turn.ofProcessed, hending]
    have hkeep : Accounts (a.append [.spared p.walk.event])
        (s.keep s.eventIndex p.walk.event (.of .alert)) := h.keep hindex rfl
    rw [hturn]
    exact ⟨⟨hkeep.events, hkeep.actions⟩, hlength _⟩
  | interrupt result =>
    have hspared : Accounts (a.append [.spared p.walk.event])
        (s.keep s.eventIndex p.walk.event (.of .alert)) := h.keep hindex rfl
    have hskip : Accounts (a.append [.dropped p.walk.event]) s := h.skip rfl
    unfold Turn.ofProcessed
    cases htype : result.actionType <;> simp only [hending, htype]
    case filter => exact ⟨⟨hskip.events, hskip.actions⟩, hlength _⟩
    case stop => exact ⟨hskip.events, fun _ => hskip.actions, nofun⟩
    case discard => exact ⟨rfl, nofun, fun _ => rfl⟩
    case alert =>
      have hkeep : Accounts (a.append [⟨p.walk.event, true, some result, nofun⟩])
          (s.keep s.eventIndex p.walk.event result) := h.keep hindex rfl
      exact ⟨⟨hkeep.events, hkeep.actions⟩, hlength _⟩
    case log => exact ⟨⟨hspared.events, hspared.actions⟩, hlength _⟩
    case timeout => exact ⟨⟨hspared.events, hspared.actions⟩, hlength _⟩

theorem noteTurn_of_running {event : Event} (hevent : s.events[s.eventIndex]? = some event)
    (hrunning : (c.elapsed s.world).1.1 = false) :
    c.noteTurn s a = a.after (c.processEventSteps s.eventIndex s.startStepIndex
      (s.walk (c.elapsed s.world).2 event) (c.logic.drop s.startStepIndex)) := by
  simp only [noteTurn, hevent, hrunning, Bool.false_eq_true, if_false]

theorem Accounts.run {result : CorrelationResult} :
    ∀ {turns : Nat} {s : Loop Ω} {a : Account}, Accounts a s → s.eventIndex = a.pass.length →
      c.run turns s = some (.ok result) → AccountsFor (c.account turns s a) result
  | 0, _, _, _, _, hrun => by cases hrun
  | turns + 1, s, a, h, hindex, hrun => by
    rw [Engine.run] at hrun
    rw [account]
    cases hevent : s.events[s.eventIndex]? with
    | none =>
      have hturn : c.turn s = .finished (s.result false) := by rw [turn, hevent]
      have hnote : c.noteTurn s a = a := by rw [noteTurn, hevent]
      rw [hturn] at hrun ⊢
      cases hrun
      rw [hnote]
      exact h.result
    | some event =>
      cases hexpired : (c.elapsed s.world).1.1 with
      | true =>
        have hnote : c.noteTurn s a = a.append ((s.events.drop s.eventIndex).map .spared) := by
          simp only [noteTurn, hevent, hexpired, if_true]
        obtain ⟨s₁, hturn, hevents, hactions⟩ : ∃ s₁ : Loop Ω, c.turn s = .finished
            ((Loop.timedOut (s.events.drop s.eventIndex) s.eventIndex s₁).result false) ∧
            s₁.alertEvents = s.alertEvents ∧ s₁.eventActions = s.eventActions := by
          rw [turn]
          simp only [hevent, hexpired, if_true]
          exact ⟨_, rfl, rfl, rfl⟩
        have h₁ : Accounts a s₁ := ⟨hevents ▸ h.events, hactions ▸ h.actions⟩
        rw [hturn] at hrun ⊢
        cases hrun
        rw [hnote]
        exact (h₁.timedOut _ hindex).result
      | false =>
        have hnote := noteTurn_of_running (a := a) hevent hexpired
        have hworld : Accounts a { s with world := (c.elapsed s.world).2 } := ⟨h.events, h.actions⟩
        have hconclude := hworld.conclude (c := c) hindex
          (c.processEventSteps s.eventIndex s.startStepIndex (s.walk (c.elapsed s.world).2 event)
            (c.logic.drop s.startStepIndex))
        rw [← hnote, ← turn_of_running hevent hexpired] at hconclude
        cases hturn : c.turn s with
        | running s' =>
          rw [hturn] at hrun hconclude
          exact hconclude.1.run hconclude.2 hrun
        | finished result' =>
          rw [hturn] at hrun hconclude
          cases hrun
          exact hconclude
        | raised message =>
          rw [hturn] at hrun
          cases hrun

/-! ## §3 Submissions -/

end Engine

structure Hunt (κ : Type) where
  queue : String
  analysisMode : String
  groupBy : Option String
  /-- A value as the key of a dictionary, which only some values can be. -/
  hash : Value → Except String κ

/-- A submission, with the index in the results of the event that it is created for, the first one
of its details. -/
structure Submission where
  createdFor : Nat
  queue : String
  analysisMode : String
  deriving DecidableEq

namespace Hunt

variable {κ : Type} [DecidableEq κ] (hunt : Hunt κ)

/-- The queue and the analysis mode with the overrides of an action, of which empty ones do not
count. -/
def routing (override : Option ActionResult) : String × String :=
  (((override.bind (·.queueOverride)).filter (· ≠ "")).getD hunt.queue,
    ((override.bind (·.analysisModeOverride)).filter (· ≠ "")).getD hunt.analysisMode)

/-- The submission that is created for an event, with overrides. -/
def submission (index : Nat) (override : Option ActionResult) : Submission :=
  ⟨index, (hunt.routing override).1, (hunt.routing override).2⟩

/-- The keys of the groups that an event belongs to, none if it is an alert by itself. -/
def groupingTargets (event : Value) : Except String (Option (List κ)) :=
  match hunt.groupBy with
  | none => .ok none
  | some "ALL" => (hunt.hash (.str "ALL")).map fun key => some [key]
  | some name =>
    match contains event name with
    | .error error => .error error
    | .ok false => .ok none
    | .ok true =>
      match field event name with
      | some (.list items) => (items.mapM hunt.hash).map some
      | some value => (hunt.hash value).map fun key => some [key]
      | none => .error "indices must be integers"

/-- The keys that are not yet in `event_grouping`. -/
def newGroups (groups : List κ) : List κ → List κ
  | [] => []
  | target :: targets =>
    if target ∈ groups then newGroups groups targets
    else target :: newGroups (groups ++ [target]) targets

/-- The loop over the results, which looks the action of an event up under its index in the
results. -/
def createSubmissions (eventActions : Nat → Option ActionResult) :
    Nat → List κ → List Event → Except String (List Submission)
  | _, _, [] => .ok []
  | index, groups, event :: events => do
    match ← hunt.groupingTargets event.value with
    | none =>
      return hunt.submission index (eventActions index) ::
        (← createSubmissions eventActions (index + 1) groups events)
    | some targets =>
      let created := newGroups groups targets
      return created.map (fun _ => hunt.submission index none) ++
        (← createSubmissions eventActions (index + 1) (groups ++ created) events)

def processQueryResults (result : Engine.CorrelationResult) : Except String (List Submission) :=
  if result.discarded then .ok []
  else hunt.createSubmissions result.eventActions 0 [] result.events

/-! ## §4 Events that are routed -/

def groupsOf (event : Event) : List κ :=
  match hunt.groupingTargets event.value with
  | .ok (some targets) => targets
  | _ => []

def Single (event : Event) : Prop := hunt.groupingTargets event.value = .ok none

def Opens (groups : List κ) (before : List Event) (event : Event) : Prop :=
  ∃ target ∈ hunt.groupsOf event, target ∉ groups ∧ ∀ event' ∈ before, target ∉ hunt.groupsOf event'

/-- For the position of a kept event in the results, and its turn: an event that is an alert by
itself has executed the same overrides as the event with that position in the working stream has in
the last pass, and the first event of a group has executed none. -/
def Routes (a : Account) : Prop :=
  ∀ position turn, a.kept[position]? = some turn →
    (hunt.Single turn.event →
      hunt.routing (a.executed turn) = hunt.routing ((a.pass[position]?).bind (·.alert))) ∧
    (hunt.Opens [] ((a.kept.take position).map (·.event)) turn.event →
      hunt.routing (a.executed turn) = hunt.routing none)

def Routed (a : Account) (result : Engine.CorrelationResult) (submissions : List Submission) :
    Prop :=
  ∀ submission ∈ submissions, ∃ turn, a.kept[submission.createdFor]? = some turn ∧
    result.events[submission.createdFor]? = some turn.event ∧
    (submission.queue, submission.analysisMode) = hunt.routing (a.executed turn)

theorem mem_newGroups {target : κ} {groups targets : List κ} :
    target ∈ groups ++ newGroups groups targets ↔ target ∈ groups ∨ target ∈ targets := by
  induction targets generalizing groups with
  | nil => simp [newGroups]
  | cons target' targets ih =>
    rw [newGroups]
    split
    · rename_i hmem
      rw [ih, mem_cons]
      constructor
      · rintro (h | h)
        · exact .inl h
        · exact .inr (.inr h)
      · rintro (h | rfl | h)
        · exact .inl h
        · exact .inl hmem
        · exact .inr h
    · have h : target ∈ (groups ++ [target']) ++ newGroups (groups ++ [target']) targets ↔ _ := ih
      rw [append_assoc, singleton_append] at h
      rw [h, mem_append, mem_singleton, mem_cons, or_assoc]

theorem newGroups_ne_nil {groups targets : List κ} :
    newGroups groups targets ≠ [] ↔ ∃ target ∈ targets, target ∉ groups := by
  induction targets with
  | nil => simp [newGroups]
  | cons target targets ih =>
    rw [newGroups]
    split
    · rename_i hmem
      simp [ih, hmem]
    · rename_i hmem
      simp [hmem]

variable {hunt}

omit [DecidableEq κ] in
theorem opens_cons_of_nil {groups : List κ} {event event' : Event} {before : List Event}
    (hnil : hunt.groupsOf event = []) :
    hunt.Opens groups (event :: before) event' ↔ hunt.Opens groups before event' := by
  simp [Opens, hnil]

theorem opens_append_newGroups {groups : List κ} {event event' : Event} {before : List Event} :
    hunt.Opens (groups ++ newGroups groups (hunt.groupsOf event)) before event' ↔
      hunt.Opens groups (event :: before) event' := by
  simp only [Opens, mem_newGroups, forall_mem_cons, not_or, and_assoc]

theorem forall_mem_map_const {α β : Type*} {l : List α} {b : β} {P : β → Prop} :
    (∀ x ∈ l.map fun _ => b, P x) ↔ (l ≠ [] → P b) := by
  cases l with
  | nil => simp
  | cons a l => exact ⟨fun h _ => h b mem_cons_self, fun h x hx => by
      obtain ⟨_, -, rfl⟩ := mem_map.mp hx
      exact h (cons_ne_nil a l)⟩

theorem bind_pure_ok {α β : Type} {x : Except String α} {f : α → β} {y : β}
    (h : (do return f (← x)) = Except.ok y) : ∃ a, x = .ok a ∧ y = f a := by
  cases x with
  | error error => cases h
  | ok a =>
    cases h
    exact ⟨a, rfl, rfl⟩

/-- Which submissions there are: one for each event that is an alert by itself, with what is
recorded under its index, and those for the first events of groups. -/
theorem forall_createSubmissions {eventActions : Nat → Option ActionResult}
    {Good : Submission → Prop} :
    ∀ {events : List Event} {index : Nat} {groups : List κ} {submissions : List Submission},
      hunt.createSubmissions eventActions index groups events = .ok submissions →
      ((∀ submission ∈ submissions, Good submission) ↔
        ∀ k event, events[k]? = some event →
          (hunt.Single event → Good (hunt.submission (index + k) (eventActions (index + k)))) ∧
          (hunt.Opens groups (events.take k) event → Good (hunt.submission (index + k) none)))
  | [], index, groups, submissions, h => by
    cases h
    simp
  | event :: events, index, groups, submissions, h => by
    rw [createSubmissions] at h
    rw [← Nat.and_forall_add_one]
    simp only [List.getElem?_cons_zero, List.getElem?_cons_succ, take_zero,
      take_succ_cons, Nat.add_zero, ← Nat.add_assoc, Nat.add_right_comm index _ 1]
    cases htargets : hunt.groupingTargets event.value with
    | error error =>
      rw [htargets] at h
      cases h
    | ok targets =>
      rw [htargets] at h
      cases targets with
      | none =>
        have hsingle : hunt.Single event := htargets
        have hnil : hunt.groupsOf event = [] := by rw [groupsOf, htargets]
        obtain ⟨rest, hrest, rfl⟩ := bind_pure_ok h
        rw [forall_mem_cons, forall_createSubmissions hrest]
        apply and_congr
        · constructor
          · rintro hgood _ ⟨⟩
            refine ⟨fun _ => hgood, ?_⟩
            rintro ⟨target, hmem, -⟩
            rw [hnil] at hmem
            cases hmem
          · exact fun h => (h event rfl).1 hsingle
        · simp only [opens_cons_of_nil hnil]
      | some targets =>
        have hsingle : ¬ hunt.Single event := by
          rw [Single, htargets]
          nofun
        have hgroups : hunt.groupsOf event = targets := by rw [groupsOf, htargets]
        obtain ⟨rest, hrest, rfl⟩ := bind_pure_ok h
        rw [forall_mem_append, forall_createSubmissions hrest]
        apply and_congr
        · rw [forall_mem_map_const, newGroups_ne_nil]
          constructor
          · rintro hgood _ ⟨⟩
            refine ⟨fun h => absurd h hsingle, ?_⟩
            rintro ⟨target, hmem, hnew, -⟩
            exact hgood ⟨target, hgroups ▸ hmem, hnew⟩
          · rintro h ⟨target, hmem, hnew⟩
            exact (h event rfl).2 ⟨target, hgroups.symm ▸ hmem, hnew, nofun⟩
        · simp only [← hgroups, opens_append_newGroups]

omit [DecidableEq κ] in
theorem routing_recorded (a : Account) (position : Nat) :
    hunt.routing ((a.pass[position]?).bind Turn.recorded) =
      hunt.routing ((a.pass[position]?).bind (·.alert)) := by
  cases hturn : a.pass[position]? with
  | none => rfl
  | some turn =>
    show hunt.routing turn.recorded = hunt.routing turn.alert
    cases hkept : turn.kept with
    | false => 
      rw [Turn.recorded, hkept, turn.valid hkept]
      rfl
    | true =>
      rw [Turn.recorded, if_pos hkept]
      -- an alert without overrides leads to the same place as none
      cases turn.alert <;> rfl

end Hunt

open Hunt in
/-- **An event is routed by its own alert action exactly where the positions agree**: the
submissions for the kept events carry the overrides of the alert actions that these have executed,
exactly when each event that is an alert by itself has executed the same overrides as the one that
has its position in the working stream, and the first event of a group has executed none. -/
theorem routed_iff_routes {κ : Type} [DecidableEq κ] (hunt : Hunt κ) (c : Engine Ω) (world : Ω)
    (events : List Event) (turns : Nat) (result : Engine.CorrelationResult)
    (submissions : List Submission) (hrun : c.execute world events turns = some (.ok result))
    (hsubmissions : hunt.processQueryResults result = .ok submissions) :
    hunt.Routed (c.account turns (.start c world events) .empty) result submissions ↔
      hunt.Routes (c.account turns (.start c world events) .empty) := by
  have hstart : Engine.Accounts .empty (.start c world events) := ⟨rfl, fun _ => rfl⟩
  have haccount := hstart.run rfl hrun
  generalize c.account turns (.start c world events) .empty = a at haccount
  cases hdiscarded : result.discarded with
  | true =>
    have hkept := haccount.discarded hdiscarded
    rw [processQueryResults, hdiscarded, if_pos rfl] at hsubmissions
    cases hsubmissions
    constructor
    · intro _ position turn hturn
      rw [hkept] at hturn
      cases hturn
    · exact fun _ _ => nofun
  | false =>
    rw [processQueryResults, hdiscarded, if_neg Bool.false_ne_true] at hsubmissions
    rw [Routed, forall_createSubmissions hsubmissions]
    -- what is said of a submission for a position says the same of its turn
    have hgood : ∀ position turn override, a.kept[position]? = some turn →
        ((∃ turn, a.kept[(hunt.submission position override).createdFor]? = some turn ∧
            result.events[(hunt.submission position override).createdFor]? = some turn.event ∧
            ((hunt.submission position override).queue,
              (hunt.submission position override).analysisMode) = hunt.routing (a.executed turn)) ↔
          hunt.routing (a.executed turn) = hunt.routing override) := by
      intro position turn override hturn
      have hevent : result.events[position]? = some turn.event := by
        rw [haccount.events, List.getElem?_map, hturn]
        rfl
      constructor
      · rintro ⟨turn', hturn', -, hrouting⟩
        have hsame : a.kept[position]? = some turn' := hturn'
        rw [hturn] at hsame
        obtain rfl := Option.some.inj hsame
        exact hrouting.symm
      · exact fun hrouting => ⟨turn, hturn, hevent, hrouting.symm⟩
    constructor
    · intro h position turn hturn
      have hevent : result.events[position]? = some turn.event := by
        rw [haccount.events, List.getElem?_map, hturn]
        rfl
      obtain ⟨hsingle, hopens⟩ := h position turn.event hevent
      rw [Nat.zero_add, hgood position turn _ hturn] at hsingle hopens
      rw [haccount.actions hdiscarded, routing_recorded] at hsingle
      rw [haccount.events, ← map_take] at hopens
      exact ⟨hsingle, hopens⟩
    · intro h position event hevent
      rw [haccount.events, List.getElem?_map] at hevent
      obtain ⟨turn, hturn, rfl⟩ := Option.map_eq_some_iff.mp hevent
      rw [Nat.zero_add, hgood position turn _ hturn, hgood position turn _ hturn,
        haccount.actions hdiscarded, routing_recorded, haccount.events, ← map_take]
      exact h position turn hturn

/-! ## §5 Behind a filtered event -/

theorem getElem?_filter_iff {α : Type*} {p : α → Bool} {x : α} :
    ∀ {l : List α} {k : Nat}, (l.filter p)[k]? = some x ↔
      ∃ i, l[i]? = some x ∧ p x = true ∧ (l.take i).countP p = k
  | [], k => by simp
  | y :: l, k => by
    rw [← Nat.or_exists_add_one]
    cases hy : p y with
    | true =>
      simp only [filter_cons_of_pos hy, List.getElem?_cons_zero, List.getElem?_cons_succ,
        take_zero, countP_nil, take_succ_cons, countP_cons_of_pos hy]
      cases k with
      | zero =>
        constructor
        · rintro h
          obtain rfl : y = x := Option.some.inj h
          exact .inl ⟨rfl, hy, rfl⟩
        · rintro (⟨h, -, -⟩ | ⟨i, -, -, h⟩)
          · exact h
          · cases h
      | succ k =>
        rw [List.getElem?_cons_succ, getElem?_filter_iff]
        constructor
        · rintro ⟨i, hi, hx, hk⟩
          exact .inr ⟨i, hi, hx, by rw [hk]⟩
        · rintro (⟨-, -, h⟩ | ⟨i, hi, hx, hk⟩)
          · cases h
          · exact ⟨i, hi, hx, Nat.succ.inj hk⟩
    | false =>
      have hne : ¬ p y = true := by rw [hy]; exact Bool.false_ne_true
      simp only [filter_cons_of_neg hne, List.getElem?_cons_zero, List.getElem?_cons_succ,
        take_succ_cons, countP_cons_of_neg hne]
      rw [getElem?_filter_iff]
      constructor
      · exact .inr
      · rintro (⟨h, hx, -⟩ | h)
        · obtain rfl : y = x := Option.some.inj h
          exact absurd hx hne
        · exact h

namespace Hunt

variable {κ : Type} [DecidableEq κ] {hunt : Hunt κ} {a : Account}

/-- In the last pass, an event before the position was not kept. -/
def Behind (a : Account) (i : Nat) : Prop :=
  ∃ j < i, ∃ turn, a.pass[j]? = some turn ∧ turn.kept = false

theorem Behind.succ {i : Nat} (h : Behind a i) : Behind a (i + 1) := by
  obtain ⟨j, hj, h⟩ := h
  exact ⟨j, Nat.lt_succ_of_lt hj, h⟩

/-- With all events before kept, the position in the results is the same. Else it is smaller, and
belongs to an event which is not kept, or is behind another one itself. -/
theorem countP_kept : ∀ i : Nat, i ≤ a.pass.length →
    (¬ Behind a i ∧ (a.pass.take i).countP (·.kept) = i) ∨
      (Behind a i ∧ (a.pass.take i).countP (·.kept) < i ∧
        ∀ turn, a.pass[(a.pass.take i).countP (·.kept)]? = some turn → turn.kept = true →
          Behind a ((a.pass.take i).countP (·.kept)))
  | 0, _ => .inl ⟨fun ⟨_, hj, _⟩ => absurd hj (Nat.not_lt_zero _), rfl⟩
  | i + 1, hi => by
    have hturn := List.getElem?_eq_getElem hi
    rw [take_succ_eq_append_getElem hi, countP_append, countP_singleton]
    rcases countP_kept i (Nat.le_of_succ_le hi) with ⟨hbehind, hcount⟩ | ⟨hbehind, hcount, hrest⟩
    · rw [hcount]
      cases hkept : a.pass[i].kept with
      | true =>
        refine .inl ⟨?_, rfl⟩
        rintro ⟨j, hj, turn, hturn', hnot⟩
        rcases Nat.lt_succ_iff_lt_or_eq.mp hj with hlt | rfl
        · exact hbehind ⟨j, hlt, turn, hturn', hnot⟩
        · rw [hturn] at hturn'
          obtain rfl := Option.some.inj hturn'
          rw [hkept] at hnot
          cases hnot
      | false =>
        refine .inr ⟨⟨i, Nat.lt_succ_self i, _, hturn, hkept⟩, Nat.lt_succ_self i, ?_⟩
        intro turn hturn' hkept'
        have hsame : a.pass[i]? = some turn := hturn'
        rw [hturn] at hsame
        obtain rfl := Option.some.inj hsame
        rw [hkept] at hkept'
        cases hkept'
    · refine .inr ⟨hbehind.succ, ?_⟩
      cases hkept : a.pass[i].kept with
      | true =>
        refine ⟨Nat.succ_lt_succ hcount, fun _ _ _ => ?_⟩
        have hlt : (a.pass.take i).countP (·.kept) < a.pass.length := by omega
        have hprevious := List.getElem?_eq_getElem hlt
        cases hkept' : a.pass[(a.pass.take i).countP (·.kept)].kept with
        | true => exact (hrest _ hprevious hkept').succ
        | false => exact ⟨_, Nat.lt_succ_self _, _, hprevious, hkept'⟩
      | false => exact ⟨Nat.lt_succ_of_lt hcount, hrest⟩

omit [DecidableEq κ] in
/-- **Without groups, all events are routed by their own actions exactly when no override is lost
and none is behind a filter**: no event has executed an override in an earlier pass only, and none
that is behind one which was not kept. -/
theorem routes_iff_of_ungrouped (hgroup : hunt.groupBy = none) :
    hunt.Routes a ↔ ∀ i turn, a.pass[i]? = some turn → turn.kept = true →
      turn.alert = none ∨ Behind a i → hunt.routing (a.executed turn) = hunt.routing none := by
  have htargets : ∀ event, hunt.groupingTargets event = .ok none := fun event => by
    rw [groupingTargets, hgroup]
  have hopens : ∀ before event, ¬ hunt.Opens [] before event := by
    rintro before event ⟨target, hmem, -⟩
    rw [groupsOf, htargets] at hmem
    cases hmem
  have hroutes : hunt.Routes a ↔ ∀ i turn, a.pass[i]? = some turn → turn.kept = true →
      hunt.routing (a.executed turn) = hunt.routing
        ((a.pass[(a.pass.take i).countP (·.kept)]?).bind (·.alert)) := by
    constructor
    · intro h i turn hturn hkept
      exact (h _ turn (getElem?_filter_iff.mpr ⟨i, hturn, hkept, rfl⟩)).1 (htargets _)
    · intro h position turn hmem
      obtain ⟨i, hturn, hkept, rfl⟩ := getElem?_filter_iff.mp hmem
      exact ⟨fun _ => h i turn hturn hkept, fun hopen => absurd hopen (hopens _ _)⟩
  rw [hroutes]
  -- the override of an event that itself has none to execute, or was not kept
  have hnone : ∀ i : Nat, (∀ turn, a.pass[i]? = some turn → turn.kept = true → ∀ result,
        turn.alert = some result → hunt.routing (a.executed turn) = hunt.routing none) →
      hunt.routing ((a.pass[i]?).bind Turn.alert) = hunt.routing none := by
    intro i h
    cases hturn : a.pass[i]? with
    | none => rfl
    | some turn =>
      show hunt.routing turn.alert = hunt.routing none
      cases halert : turn.alert with
      | none => rfl
      | some result =>
        have hkept : turn.kept = true := by
          by_contra hkept
          rw [turn.valid (Bool.eq_false_iff.mpr hkept)] at halert
          cases halert
        have h' := h turn hturn hkept result halert
        rwa [Account.executed, halert] at h'
  constructor
  · intro h i
    -- the events before are behind the same one, or not kept
    induction i using Nat.strong_induction_on with
    | _ i ih =>
      intro turn hturn hkept hcase
      have hi := (List.getElem?_eq_some_iff.mp hturn).1
      rw [h i turn hturn hkept]
      rcases countP_kept (a := a) i (Nat.le_of_lt hi) with ⟨hbehind, hcount⟩ | ⟨-, hcount, hrest⟩
      · rw [hcount, hturn]
        show hunt.routing turn.alert = _
        rw [hcase.resolve_right hbehind]
      · apply hnone
        intro turn' hturn' hkept' result _
        exact ih _ hcount turn' hturn' hkept' (.inr (hrest turn' hturn' hkept'))
  · intro h i turn hturn hkept
    have hi := (List.getElem?_eq_some_iff.mp hturn).1
    rcases countP_kept (a := a) i (Nat.le_of_lt hi) with ⟨hbehind, hcount⟩ | ⟨hbehind, -, hrest⟩
    · rw [hcount, hturn]
      show _ = hunt.routing turn.alert
      cases halert : turn.alert with
      | none => rw [h i turn hturn hkept (.inl halert)]
      | some result => rw [Account.executed, halert]; rfl
    · rw [h i turn hturn hkept (.inr hbehind)]
      apply Eq.symm
      apply hnone
      intro turn' hturn' hkept' result _
      exact h _ turn' hturn' hkept' (.inr (hrest turn' hturn' hkept'))

end Hunt

section Examples

def sampleHunt : Hunt String := ⟨"default", "correlation", none, fun _ => .error "unhashable"⟩

/-- Events with one tag are dropped, and those with another one get a queue. -/
def dropAndRoute : List StepConfig :=
  [.condition none (.compare .equals "tag" "drop" true) [Engine.filterAction] [],
    .action none ⟨.alert, by decide, some "urgent", none, "INFO", none⟩]

theorem exists_run {ε : Type*} {run : Option (Except ε Engine.CorrelationResult)}
    {submissions : List Submission}
    (h : (run.bind Except.toOption).bind (fun result =>
      (sampleHunt.processQueryResults result).toOption) = some submissions) :
    ∃ result, run = some (.ok result) ∧
      sampleHunt.processQueryResults result = .ok submissions := by
  obtain ⟨result, hrun, hsubmissions⟩ := Option.bind_eq_some_iff.mp h
  refine ⟨result, ?_, ?_⟩
  · obtain ⟨_ | _, rfl, houtcome⟩ := Option.bind_eq_some_iff.mp hrun
    · cases houtcome
    · rw [Option.some.inj houtcome]
  · cases houtcome : sampleHunt.processQueryResults result with
    | error message =>
      rw [houtcome] at hsubmissions
      cases hsubmissions
    | ok value =>
      rw [houtcome] at hsubmissions
      rw [Option.some.inj hsubmissions]

/-- The event that gets the queue is behind one that is dropped, and its submission has the queue of
the hunt. -/
theorem override_behind_filter_is_lost :
    ∃ result submissions, (Engine.sampleEngine dropAndRoute).execute ()
        [Engine.taggedEvent 1 "drop", Engine.taggedEvent 2 "keep"] 3 = some (.ok result) ∧
      sampleHunt.processQueryResults result = .ok submissions ∧
      ¬ sampleHunt.Routed ((Engine.sampleEngine dropAndRoute).account 3 (.start
        (Engine.sampleEngine dropAndRoute) ()
        [Engine.taggedEvent 1 "drop", Engine.taggedEvent 2 "keep"]) .empty) result submissions := by
  have hevaluated : (((Engine.sampleEngine dropAndRoute).execute ()
      [Engine.taggedEvent 1 "drop", Engine.taggedEvent 2 "keep"] 3).bind Except.toOption).bind
      (fun result => (sampleHunt.processQueryResults result).toOption) =
        some [⟨0, "default", "correlation"⟩] := by decide +kernel
  obtain ⟨result, hrun, hsubmissions⟩ := exists_run hevaluated
  refine ⟨result, _, hrun, hsubmissions, fun h => ?_⟩
  obtain ⟨turn, hturn, -, hrouting⟩ := h _ mem_cons_self
  set a := (Engine.sampleEngine dropAndRoute).account 3 (.start
    (Engine.sampleEngine dropAndRoute) ()
    [Engine.taggedEvent 1 "drop", Engine.taggedEvent 2 "keep"]) .empty
  have hexecuted : (a.kept[0]?).map (fun turn => sampleHunt.routing (a.executed turn)) =
      some ("urgent", "correlation") := by decide +kernel
  rw [hturn, Option.map_some, ← hrouting] at hexecuted
  exact absurd hexecuted (by decide)

/-- With nothing dropped, both events get the queue. -/
theorem overrides_are_carried :
    ∃ result submissions, (Engine.sampleEngine dropAndRoute).execute ()
        [Engine.taggedEvent 1 "keep", Engine.taggedEvent 2 "keep"] 3 = some (.ok result) ∧
      sampleHunt.processQueryResults result = .ok submissions ∧
      submissions.map (·.queue) = ["urgent", "urgent"] ∧
      sampleHunt.Routed ((Engine.sampleEngine dropAndRoute).account 3 (.start
        (Engine.sampleEngine dropAndRoute) ()
        [Engine.taggedEvent 1 "keep", Engine.taggedEvent 2 "keep"]) .empty) result submissions := by
  have hevaluated : (((Engine.sampleEngine dropAndRoute).execute ()
      [Engine.taggedEvent 1 "keep", Engine.taggedEvent 2 "keep"] 3).bind Except.toOption).bind
      (fun result => (sampleHunt.processQueryResults result).toOption) =
        some [⟨0, "urgent", "correlation"⟩, ⟨1, "urgent", "correlation"⟩] := by decide +kernel
  obtain ⟨result, hrun, hsubmissions⟩ := exists_run hevaluated
  refine ⟨result, _, hrun, hsubmissions, rfl, ?_⟩
  apply (routed_iff_routes sampleHunt _ _ _ _ _ _ hrun hsubmissions).mpr
  have hpass : ((Engine.sampleEngine dropAndRoute).account 3 (.start
      (Engine.sampleEngine dropAndRoute) ()
      [Engine.taggedEvent 1 "keep", Engine.taggedEvent 2 "keep"]) .empty).pass.map
      (fun turn => (turn.kept, turn.alert.isSome)) = [(true, true), (true, true)] := by
    decide +kernel
  generalize (Engine.sampleEngine dropAndRoute).account 3 (.start
    (Engine.sampleEngine dropAndRoute) ()
    [Engine.taggedEvent 1 "keep", Engine.taggedEvent 2 "keep"]) .empty = a at hpass
  have hall : ∀ turn ∈ a.pass, turn.kept = true ∧ turn.alert.isSome = true := by
    intro turn hmem
    have hmem' := mem_map_of_mem (f := fun turn : Turn => (turn.kept, turn.alert.isSome)) hmem
    rw [hpass] at hmem'
    simpa using hmem'
  apply (Hunt.routes_iff_of_ungrouped rfl).mpr
  rintro i turn hturn - (halert | ⟨j, -, before, hbefore, hkept⟩)
  · have hsome := (hall turn (mem_of_getElem? hturn)).2
    rw [halert] at hsome
    cases hsome
  · have hbefore' := (hall before (mem_of_getElem? hbefore)).1
    rw [hkept] at hbefore'
    cases hbefore'

end Examples

end Ace3.Correlation
