import Ace3.Lib.Runs
import Mathlib.Data.List.AList
import Mathlib.Logic.Function.Basic

/-!
# Suppression of Hunts

The alert times of a hunt with a suppression window (`saq/collectors/hunter/base_hunter.py`), the
runs that read and record them (`process_query_results` of
`saq/collectors/hunter/query_hunter.py` and `execute_threaded_hunt` of
`saq/collectors/hunter/manager.py`), and the submissions that the runs stage.
-/

namespace Ace3.Collectors

variable {γ : Type*} [DecidableEq γ]

/-! ## §1 Hunts -/

structure Suppression where
  /-- `group_by` is set. -/
  grouped : Bool
  window : Nat
  window_pos : 0 < window

/-- The submissions that suppression knows: those of a group, or all of an ungrouped hunt. -/
def Suppression.tracks (c : Suppression) (group : Option γ) : Bool := group.isSome == c.grouped

structure AlertTimesOnDisk (γ : Type*) where
  lastAlertTime : Option Nat
  lastAlertTimes : AList fun _ : γ => Nat

/-- A `Hunt` object, with what it has loaded of the persistence data. -/
structure Hunt (γ : Type*) where
  lastAlertTime : Option (Option Nat)
  lastAlertTimes : Option (AList fun _ : γ => Nat)
  lastAlertTimesDirty : Bool
  /-- `execution_lock` is held. -/
  executionLock : Bool

namespace Hunt

def new : Hunt γ := ⟨none, none, false, false⟩

def getLastAlertTime (hunt : Hunt γ) (disk : AlertTimesOnDisk γ) : Option Nat :=
  hunt.lastAlertTime.getD disk.lastAlertTime

def getLastAlertTimes (hunt : Hunt γ) (disk : AlertTimesOnDisk γ) : AList fun _ : γ => Nat :=
  hunt.lastAlertTimes.getD disk.lastAlertTimes

/-- `suppressed` of an ungrouped hunt and `is_group_suppressed`, from the last alert time. -/
def isSuppressed (window now : Nat) : Option Nat → Bool
  | none => false
  | some last => now < last + window

/-- `set_last_alert_time` for each group of the submissions. A submission without a group is
skipped. -/
def setLastAlertTimes (hunt : Hunt γ) (disk : AlertTimesOnDisk γ) (now : Nat)
    (submissions : List (Option γ)) : Hunt γ :=
  submissions.foldl (fun hunt submission =>
    match submission with
    | none => hunt
    | some group =>
      { hunt with
        lastAlertTimes := some ((hunt.getLastAlertTimes disk).insert group now)
        lastAlertTimesDirty := true }) hunt

/-- The keys that `prune_expired_last_alert_times` is going to drop. -/
def expired (window now : Nat) (lastAlertTimes : AList fun _ : γ => Nat) : List γ :=
  (lastAlertTimes.entries.filter fun entry => entry.2 + window ≤ now).map (·.1)

end Hunt

/-! ## §2 Runs -/

inductive RunPhase (γ : Type*) where
  /-- The query has not returned. -/
  | executing
  /-- The submissions that the suppression has not looked at. -/
  | filtering (pending : List (Option γ))
  | postProcessing
  /-- The alert times are set. -/
  | recorded
  | pruning (expired : List γ)
  | saving
  | writing (snapshot : AList fun _ : γ => Nat)
  /-- The snapshot is written, and the dirty flag is not reset. -/
  | cleaning
  | staging
  | ended

def RunPhase.isActive : RunPhase γ → Bool
  | .ended => false
  | _ => true

/-- The run has set its alert times and has not ended. -/
def RunPhase.hasRecorded : RunPhase γ → Bool
  | .recorded | .pruning _ | .saving | .writing _ | .cleaning | .staging => true
  | _ => false

structure HuntRun (γ : Type*) where
  /-- The `Hunt` object of the run. -/
  hunt : Nat
  phase : RunPhase γ
  /-- The submissions that are not staged, each with its group. -/
  submissions : List (Option γ)
  alertTime : Nat

structure StagedSubmission (γ : Type*) where
  run : Nat
  group : Option γ
  alertTime : Nat
  stagedTime : Nat
  deriving DecidableEq

structure Hunting (γ : Type*) where
  clock : Nat
  disk : AlertTimesOnDisk γ
  hunts : Nat → Hunt γ
  /-- The object that the manager dispatches. -/
  current : Nat
  runs : Nat → HuntRun γ
  nextRun : Nat
  staged : List (StagedSubmission γ)

/-- What happens. A row of a query result comes with its grouping targets, if it has the field that
the results are grouped by. -/
inductive SuppressionEvent (γ : Type*) where
  | tick (duration : Nat)
  /-- The manager comes to the hunt, which may be due. -/
  | look (due : Bool)
  | queried (run : Nat) (rows : List (Option (List γ)))
  | failed (run : Nat)
  /-- The suppression looks at the next submission, or has looked at all of them. -/
  | filter (run : Nat)
  | record (run : Nat) (written : Bool)
  | prune (run : Nat)
  | pop (run : Nat)
  | save (run : Nat)
  | write (run : Nat) (written : Bool)
  | clean (run : Nat)
  | stage (run : Nat) (staged : Bool)
  | reload
  /-- The process dies, and another one is started. -/
  | restart

/-- The submissions of a query result: one for each grouping target, and one for each row that is
not grouped. -/
def processQueryResults (grouped : Bool) (rows : List (Option (List γ))) : List (Option γ) :=
  rows.foldl (fun submissions row =>
    match grouped, row with
    | true, some targets =>
      targets.foldl (fun submissions target =>
        if some target ∈ submissions then submissions else submissions ++ [some target]) submissions
    | _, _ => submissions ++ [none]) []

/-! ## §3 Steps -/

namespace Hunting

def init : Hunting γ where
  clock := 0
  disk := ⟨none, ∅⟩
  hunts _ := .new
  current := 0
  runs _ := ⟨0, .ended, [], 0⟩
  nextRun := 0
  staged := []

def setRun (s : Hunting γ) (n : Nat) (run : HuntRun γ) : Hunting γ :=
  { s with runs := Function.update s.runs n run }

def setPhase (s : Hunting γ) (n : Nat) (phase : RunPhase γ) : Hunting γ :=
  s.setRun n { s.runs n with phase }

def setHunt (s : Hunting γ) (i : Nat) (hunt : Hunt γ) : Hunting γ :=
  { s with hunts := Function.update s.hunts i hunt }

def huntOf (s : Hunting γ) (n : Nat) : Hunt γ := s.hunts (s.runs n).hunt

def loadTimes (s : Hunting γ) (n : Nat) : Hunting γ :=
  s.setHunt (s.runs n).hunt
    { s.huntOf n with lastAlertTimes := some ((s.huntOf n).getLastAlertTimes s.disk) }

/-- `hunt.suppressed`, of the object that the manager dispatches. A grouped hunt never is. -/
def suppressed (c : Suppression) (s : Hunting γ) : Bool :=
  !c.grouped && Hunt.isSuppressed c.window s.clock ((s.hunts s.current).getLastAlertTime s.disk)

def isGroupSuppressed (c : Suppression) (s : Hunting γ) (n : Nat) (group : γ) : Bool :=
  Hunt.isSuppressed c.window s.clock (((s.huntOf n).getLastAlertTimes s.disk).lookup group)

/-- The manager dispatches the hunt that it looks at. -/
def dispatches (c : Suppression) (s : Hunting γ) (due : Bool) : Bool :=
  !s.suppressed c && !(s.hunts s.current).executionLock && due

/-- The suppression drops the next submission of a run. -/
def drops (c : Suppression) (s : Hunting γ) (n : Nat) : Option γ → Bool
  | none => false
  | some group => c.grouped && s.isGroupSuppressed c n group

def stepRun (c : Suppression) (s : Hunting γ) : SuppressionEvent γ → Hunting γ
  | .queried n rows =>
    match (s.runs n).phase with
    | .executing =>
      let submissions := processQueryResults c.grouped rows
      if c.grouped then s.setPhase n (.filtering submissions)
      else s.setRun n { s.runs n with phase := .filtering [], submissions }
    | _ => s
  | .failed n =>
    match (s.runs n).phase with
    | .executing => s.setPhase n (.filtering [])
    | _ => s
  | .filter n =>
    match (s.runs n).phase with
    | .filtering [] =>
      (s.setHunt (s.runs n).hunt { s.huntOf n with executionLock := false }).setPhase n
        .postProcessing
    | .filtering (submission :: pending) =>
      let s' := if submission.isSome then s.loadTimes n else s
      if s.drops c n submission then s'.setPhase n (.filtering pending)
      else s'.setRun n { s.runs n with
        phase := .filtering pending, submissions := (s.runs n).submissions ++ [submission] }
    | _ => s
  | .record n written =>
    match (s.runs n).phase with
    | .postProcessing =>
      let run := { s.runs n with alertTime := s.clock }
      if c.grouped then
        (s.setHunt run.hunt ((s.huntOf n).setLastAlertTimes s.disk s.clock run.submissions)).setRun
          n { run with phase := .recorded }
      else if run.submissions = [] then s.setPhase n .staging
      else
        let s := (s.setHunt run.hunt { s.huntOf n with lastAlertTime := some (some s.clock) }).setRun
          n { run with phase := .staging }
        if written then { s with disk := { s.disk with lastAlertTime := some s.clock } } else s
    | _ => s
  | .prune n =>
    match (s.runs n).phase with
    | .recorded =>
      match Hunt.expired c.window s.clock ((s.huntOf n).getLastAlertTimes s.disk) with
      | [] => (s.loadTimes n).setPhase n .saving
      | expired => (s.loadTimes n).setPhase n (.pruning expired)
    | _ => s
  | .pop n =>
    match (s.runs n).phase with
    | .pruning (key :: keys) =>
      (s.setHunt (s.runs n).hunt { s.huntOf n with
        lastAlertTimes := some (((s.huntOf n).getLastAlertTimes s.disk).erase key) }).setPhase n
          (.pruning keys)
    | .pruning [] =>
      (s.setHunt (s.runs n).hunt { s.huntOf n with lastAlertTimesDirty := true }).setPhase n .saving
    | _ => s
  | .save n =>
    match (s.runs n).phase with
    | .saving =>
      if (s.huntOf n).lastAlertTimesDirty then
        (s.loadTimes n).setPhase n (.writing ((s.huntOf n).getLastAlertTimes s.disk))
      else s.setPhase n .staging
    | _ => s
  | .write n written =>
    match (s.runs n).phase with
    | .writing snapshot =>
      if written then
        { s.setPhase n .cleaning with disk := { s.disk with lastAlertTimes := snapshot } }
      else s.setPhase n .staging
    | _ => s
  | .clean n =>
    match (s.runs n).phase with
    | .cleaning =>
      (s.setHunt (s.runs n).hunt { s.huntOf n with lastAlertTimesDirty := false }).setPhase n
        .staging
    | _ => s
  | .stage n staged =>
    match (s.runs n).phase with
    | .staging =>
      match (s.runs n).submissions with
      | [] => s.setPhase n .ended
      | submission :: submissions =>
        let s' := s.setRun n { s.runs n with submissions }
        if staged then
          { s' with staged := s.staged ++ [⟨n, submission, (s.runs n).alertTime, s.clock⟩] }
        else s'
    | _ => s
  | _ => s

/-- What an event does; an event that cannot happen in the state does nothing. -/
def step (c : Suppression) (s : Hunting γ) : SuppressionEvent γ → Hunting γ
  | .tick duration => { s with clock := s.clock + duration }
  | .look due =>
    let hunt := if c.grouped then s.hunts s.current else
      { s.hunts s.current with
        lastAlertTime := some ((s.hunts s.current).getLastAlertTime s.disk) }
    if s.dispatches c due then
      { s.setHunt s.current { hunt with executionLock := true } with
        runs := Function.update s.runs s.nextRun ⟨s.current, .executing, [], 0⟩
        nextRun := s.nextRun + 1 }
    else s.setHunt s.current hunt
  | .reload => { s.setHunt (s.current + 1) .new with current := s.current + 1 }
  | .restart =>
    { s.setHunt (s.current + 1) .new with
      current := s.current + 1
      runs := fun n => { s.runs n with phase := .ended } }
  | event => s.stepRun c event

/-! ## §4 What suppression is for -/

def Apart (c : Suppression) (first second : StagedSubmission γ) : Prop :=
  c.tracks first.group → first.group = second.group →
    first.alertTime + c.window ≤ second.alertTime

/-- The same, where the rows that one run of an ungrouped hunt found are alerts by themselves. -/
def Spaced (c : Suppression) (first second : StagedSubmission γ) : Prop :=
  c.grouped = false ∧ first.run = second.run ∨ Apart c first second

def Idle (s : Hunting γ) : Prop := ∀ n < s.nextRun, (s.runs n).phase.isActive = false

/-- Suppression neither floods nor silences: the submissions that are staged are apart, and what
suppression holds back, while no other run is staging, has been staged less than a window ago. -/
structure Lawful (c : Suppression)
    (apart : StagedSubmission γ → StagedSubmission γ → Prop) (s : Hunting γ)
    (event : SuppressionEvent γ) : Prop where
  flood : (s.step c event).staged.Pairwise apart
  timely : ∀ a ∈ (s.step c event).staged, a.alertTime ≤ a.stagedTime
  dropped : ∀ n group pending, event = .filter n →
    (s.runs n).phase = .filtering (some group :: pending) → s.drops c n (some group) →
    ∃ a ∈ s.staged, a.group = some group ∧ s.clock < a.stagedTime + c.window
  passedOver : ∀ due, event = .look due → s.suppressed c → s.Idle →
    ∃ a ∈ s.staged, a.group = none ∧ s.clock < a.stagedTime + c.window

/-- The hunt is dispatched and reloaded when no earlier run of it goes on, the process does not die
between recording and staging, and what is to be written or staged can be. -/
def Undisturbed (c : Suppression) (s : Hunting γ) : SuppressionEvent γ → Prop
  | .look due => s.dispatches c due → s.Idle
  | .reload => s.Idle
  | .restart => ∀ n < s.nextRun, (s.runs n).phase.hasRecorded → (s.runs n).submissions = []
  | .record _ written | .write _ written => written
  | .stage _ staged => staged
  | _ => True

instance decidableIdle (s : Hunting γ) : Decidable s.Idle :=
  inferInstanceAs (Decidable (∀ n < s.nextRun, _))

instance decidableUndisturbed (c : Suppression) (s : Hunting γ) (event : SuppressionEvent γ) :
    Decidable (s.Undisturbed c event) := by
  cases event <;> unfold Undisturbed <;> infer_instance

end Hunting

end Ace3.Collectors
