import Ace3.Engine.Drain
import Ace3.Lib.Runs
import Mathlib.Data.List.Induction
import Mathlib.Tactic.SplitIfs

/-!
# Drained Means Done

When a drain pass moves its node to drained there is no workload on it and no live collector that
has not finished, and the delayed analysis that is left is of roots for which the pass found no
compatible node, if as many of their rows are on the node as when the pass counted them. A drained
node with workload goes back to draining in its next pass.
-/

namespace Ace3.Engine

open List Function
open Lib
open Lib.Runs
open Database

/-! ## §1 What a pass did -/

variable (config : ClusterConfig) (db : Central)

/-- The state after a run in which no pass is under way at first. -/
def DrainState.run (events : List ClusterEvent) : DrainState :=
  events.foldl (DrainState.step config) (.start db)

/-- The run meets no state in which the pass of the node is over. -/
def InPass (n : NodeId) (s : DrainState) (events : List ClusterEvent) : Prop :=
  Along (DrainState.step config) (fun s _ => s.pass n ≠ .idle) s events

def FoundUntransferable (events : List ClusterEvent) (n : NodeId) (uuid : RootUuid) : Prop :=
  ∃ before after t candidate analysisMode lockUuid,
    events = before ++ .pass n (.findTarget none lockUuid) :: after ∧
    (DrainState.run config db before).pass n = .findTarget t candidate analysisMode ∧
    candidate.uuid = uuid ∧
    (DrainState.run config db before).db.compatibleNodes n config analysisMode = [] ∧
    InPass config n
      ((DrainState.run config db before).step config (.pass n (.findTarget none lockUuid))) after

def Counted (events : List ClusterEvent) (n : NodeId) (untransferable : List RootUuid)
    (counted : List DelayedRow) : Prop :=
  ∃ before after t, events = before ++ .pass n .proceed :: after ∧
    (DrainState.run config db before).pass n = .count t ∧ t.untransferable = untransferable ∧
    (DrainState.run config db before).db.delayedOf n untransferable = counted ∧
    InPass config n ((DrainState.run config db before).step config (.pass n .proceed)) after

/-- As many rows of the roots without a compatible node are on the node as the pass counted. -/
def CountKept (events : List ClusterEvent) (n : NodeId) : Prop :=
  ∀ untransferable counted, Counted config db events n untransferable counted →
    ((DrainState.run config db events).db.delayedOf n untransferable).length = counted.length

def MarksDrained (s : DrainState) (n : NodeId) (e : ClusterEvent) : Prop :=
  s.db.status n ≠ some .drained ∧ (s.step config e).db.status n = some .drained

/-- The delayed analysis that is left is of roots found to have no compatible node. -/
def OnlyUntransferable (events : List ClusterEvent) (n : NodeId) : Prop :=
  ∀ row ∈ (DrainState.run config db events).db.delayedOn n,
    FoundUntransferable config db events n row.2.uuid

def NothingPending (s : DrainState) (n : NodeId) : Prop :=
  s.db.workloadOn n = [] ∧ s.db.pendingCollectors n (DrainState.staleSeconds config n) = []

/-- The pass that begins after the run while the node is drained moves it back to draining, if there
is work on the node when it looks and nobody else has changed its status. -/
def NextPassReverts (hasWork : Central → NodeId → Prop) (events : List ClusterEvent) (n : NodeId) :
    Prop :=
  ∀ during : List ClusterEvent, (∀ e, .pass n e ∉ during) →
    (DrainState.run config db events).pass n = .idle →
    (DrainState.run config db events).db.status n = some .drained →
    let s := DrainState.run config db (events ++ .pass n .begin :: during)
    s.db.status n = some .drained → hasWork s.db n →
      (s.step config (.pass n .proceed)).db.status n = some .draining

def DrainedMeansDone : Prop :=
  ∀ (config : ClusterConfig) (db : Central) (events : List ClusterEvent) (n : NodeId),
    (∀ e, MarksDrained config (DrainState.run config db events) n e →
      NothingPending config (DrainState.run config db events) n ∧
        OnlyUntransferable config db events n) ∧
    NextPassReverts config db (fun db n => db.workloadOn n ≠ [] ∨ db.delayedOn n ≠ []) events n

/-! ## §2 Statuses -/

variable {config : ClusterConfig} {db : Central} {n m : NodeId} {s : DrainState}

namespace Central

theorem status_map {f : NodeRow → NodeRow} (hid : ∀ node, (f node).id = node.id) :
    ({ db with nodes := db.nodes.map f } : Central).status n =
      (db.nodes.find? (·.id = n)).map fun node => (f node).status := by
  simp only [status, List.find?_map, Option.map_map]
  congr 2
  funext node
  simp only [comp_apply, hid]

theorem drained_of_map {f : NodeRow → NodeRow} (hid : ∀ node, (f node).id = node.id)
    (hf : ∀ node, (f node).status = .drained → node.status = .drained)
    (h : ({ db with nodes := db.nodes.map f } : Central).status n = some .drained) :
    db.status n = some .drained := by
  rw [status_map hid, Option.map_eq_some_iff] at h
  obtain ⟨node, hfind, hstatus⟩ := h
  rw [status, hfind, Option.map_some, hf node hstatus]

theorem status_transitionStatus (toStatus : NodeStatus) (fromStatuses : List NodeStatus)
    (condition : Bool) : (db.transitionStatus n toStatus fromStatuses condition).status m =
      (db.status m).map fun status =>
        if m = n ∧ status ∈ fromStatuses ∧ condition then toStatus else status := by
  rw [transitionStatus, status_map (fun node => by split_ifs <;> rfl), status, Option.map_map]
  cases hfind : db.nodes.find? (·.id = m) with
  | none => rfl
  | some node =>
    have hid : node.id = m := by simpa using List.find?_some hfind
    simp only [Option.map_some, comp_apply, hid]
    congr 1
    split_ifs <;> rfl

theorem drained_of_transitionStatus {toStatus : NodeStatus} {fromStatuses : List NodeStatus}
    {condition : Bool} (hto : toStatus ≠ .drained)
    (h : (db.transitionStatus n toStatus fromStatuses condition).status m = some .drained) :
    db.status m = some .drained := by
  rw [status_transitionStatus, Option.map_eq_some_iff] at h
  obtain ⟨status, hstatus, hdrained⟩ := h
  split_ifs at hdrained with hmoved
  · exact absurd hdrained hto
  · rw [hstatus, hdrained]

theorem work_nodes (e : WorkEvent) (place : RootUuid → RowLocation) :
    (db.work config e place).nodes = db.nodes := by
  unfold work
  split
  · split_ifs <;> rfl
  · split
    · split_ifs <;> rfl
    · rfl
  · rfl

theorem drained_of_step {e : Event} (h : (db.step config e).status n = some .drained) :
    db.status n = some .drained := by
  cases e with
  | work e place =>
    rw [step, status, work_nodes] at h
    exact h
  | addNode node =>
    simp only [step] at h
    split_ifs at h with hnew
    · rw [status, List.find?_append, Option.map_eq_some_iff] at h
      obtain ⟨found, hfind, hstatus⟩ := h
      cases hold : db.nodes.find? (·.id = n) with
      | some old =>
        rw [hold, Option.some_or] at hfind
        rw [status, hold, Option.some.inj hfind, Option.map_some, hstatus]
      | none =>
        -- a new node is stopped
        rw [hold, Option.none_or] at hfind
        have hmem := mem_singleton.mp (List.mem_of_find?_eq_some hfind)
        rw [hmem] at hstatus
        cases hstatus
    · exact h
  | assignModes m anyMode modes excluded =>
    apply drained_of_map (f := fun node => if node.id = m then { node with anyMode } else node)
      _ _ h
    · intro node; split_ifs <;> rfl
    · intro node hnode; split_ifs at hnode <;> exact hnode
  | updateNode m location =>
    apply drained_of_map (f := fun node =>
      if node.id = m then { node with location, lastUpdate := db.now } else node) _ _ h
    · intro node; split_ifs <;> rfl
    · intro node hnode; split_ifs at hnode <;> exact hnode
  | setStarting m | setRunning m | setStopped m =>
    refine drained_of_map (fun node => ?_) (fun node hnode => ?_) h
    · split_ifs <;> rfl
    · split_ifs at hnode
      exact hnode
  | drain m | resume m => exact drained_of_transitionStatus (by decide) h
  | reconcile staleSeconds =>
    refine drained_of_map (fun node => ?_) (fun node hnode => ?_) h
    · split_ifs <;> rfl
    · split_ifs at hnode
      exact hnode
  | relocate _ _ | dropLock _ | reportCollector _ _ _ | clock _ => exact h

end Central

namespace DrainState

theorem dispatch_drained {status : NodeStatus}
    (h : (s.dispatch config n status).db.status m = some .drained) :
    s.db.status m = some .drained := by
  cases status with
  | drainingCollectors | draining | drained =>
    exact Central.drained_of_transitionStatus (by decide) h
  | starting | running | stopped => exact h

/-- A node is drained after a statement of a pass only if it was before, or if the statement is the
check of its own pass. -/
theorem drained_of_proceed (h : (s.proceed config n).db.status m = some .drained) :
    s.db.status m = some .drained ∨ m = n ∧ ∃ untransferable counted,
      s.pass n = .mark untransferable counted ∧ s.db.workloadOn n = [] ∧
        (s.db.delayedOn n).length = counted.length ∧
        s.db.pendingCollectors n (staleSeconds config n) = [] := by
  unfold proceed at h
  cases hpass : s.pass n with
  | dispatch status =>
    rw [hpass] at h
    exact .inl (dispatch_drained h)
  | mark untransferable counted =>
    rw [hpass] at h
    change (s.db.checkAndMarkDrained n counted.length _).status m = some .drained at h
    rw [Central.checkAndMarkDrained, Central.status_transitionStatus, Option.map_eq_some_iff] at h
    obtain ⟨status, hstatus, hdrained⟩ := h
    split_ifs at hdrained with hmoved
    · obtain ⟨hm, -, hcondition⟩ := hmoved
      exact .inr ⟨hm, untransferable, counted, rfl, of_decide_eq_true hcondition⟩
    · exact .inl (hstatus.trans (congrArg some hdrained))
  | candidate t =>
    rw [hpass] at h
    simp only at h
    split_ifs at h <;> exact .inl h
  | _ =>
    rw [hpass] at h
    exact .inl h

theorem drained_of_passStep {e : DrainEvent}
    (h : (s.passStep config n e).db.status m = some .drained) :
    s.db.status m = some .drained ∨ m = n ∧ e = .proceed ∧ ∃ untransferable counted,
      s.pass n = .mark untransferable counted ∧ s.db.workloadOn n = [] ∧
        (s.db.delayedOn n).length = counted.length ∧
        s.db.pendingCollectors n (staleSeconds config n) = [] := by
  have hdb : ∀ s' : DrainState, s'.db = s.db → s'.db.status m = some .drained →
      s.db.status m = some .drained := fun s' hs' h' => hs' ▸ h'
  cases e with
  | proceed =>
    rcases drained_of_proceed h with hbefore | ⟨hm, hmark⟩
    · exact .inl hbefore
    · exact .inr ⟨hm, rfl, hmark⟩
  | begin | list | load | findTarget | upload =>
    -- these change the point of the program only
    refine .inl (hdb _ ?_ h)
    simp only [passStep]
    repeat' split
    all_goals rfl
  | raise =>
    refine .inl (hdb _ ?_ h)
    simp only [passStep, raise]
    split <;> rfl
  | die => exact .inl h

theorem of_marksDrained {e : ClusterEvent} (h : MarksDrained config s n e) :
    ∃ untransferable counted, e = .pass n .proceed ∧ s.pass n = .mark untransferable counted ∧
      NothingPending config s n ∧ (s.db.delayedOn n).length = counted.length := by
  obtain ⟨hbefore, hafter⟩ := h
  cases e with
  | central e => exact absurd (Central.drained_of_step hafter) hbefore
  | pass m e =>
    rcases drained_of_passStep hafter with hdrained | ⟨rfl, rfl, untransferable, counted, hmark⟩
    · exact absurd hdrained hbefore
    · obtain ⟨hpass, hworkload, hlength, hcollectors⟩ := hmark
      exact ⟨untransferable, counted, rfl, hpass, ⟨hworkload, hcollectors⟩, hlength⟩

end DrainState

/-! ## §3 The variables of a pass -/

/-- The roots that the pass has found to be without a compatible node so far. -/
def DrainPass.untransferable : DrainPass → List RootUuid
  | .idle | .dispatch _ | .list => []
  | .candidate t | .findTarget t _ _ | .acquire t _ _ _ _ | .upload t _ _ _ | .repoint t _ _ _ _
  | .release t _ _ | .count t => t.untransferable
  | .mark untransferable _ => untransferable

namespace DrainState

@[simp] theorem setPass_pass_self (pass : DrainPass) : (s.setPass n pass).pass n = pass :=
  update_self ..

theorem setPass_pass_of_ne (h : m ≠ n) (pass : DrainPass) : (s.setPass n pass).pass m = s.pass m :=
  update_of_ne h ..

variable (config s) in
theorem passStep_pass_of_ne (h : m ≠ n) (e : DrainEvent) :
    (s.passStep config n e).pass m = s.pass m := by
  have hset : ∀ (s' : DrainState) (pass : DrainPass), s'.pass = s.pass →
      (s'.setPass n pass).pass m = s.pass m := fun s' pass hs' => by
    rw [setPass_pass_of_ne h, hs']
  cases e with
  | die => exact hset _ _ rfl
  | raise =>
    simp only [passStep, raise]
    split <;> exact hset _ _ rfl
  | proceed =>
    simp only [passStep, proceed]
    cases s.pass n with
    | dispatch status => cases status <;> exact hset _ _ rfl
    | candidate t =>
      simp only
      split_ifs
      · exact hset _ _ rfl
      · rfl
    | _ => first | exact hset _ _ rfl | rfl
  | begin | list | load | findTarget | upload =>
    simp only [passStep]
    repeat' split
    all_goals first | exact hset _ _ rfl | rfl

theorem acquire_untransferable (t : TransferPass) (candidate : Candidate) (node : NodeRow)
    (lockUuid : LockUuid) (stage : Locks.AcquireStage) :
    ((s.acquire n t candidate node lockUuid stage).pass n).untransferable = t.untransferable := by
  simp only [acquire, setPass_pass_self]
  split <;> rfl

theorem dispatch_untransferable (status : NodeStatus) :
    ((s.dispatch config n status).pass n).untransferable = [] := by
  cases status with
  | draining =>
    simp only [dispatch, setPass_pass_self]
    split_ifs <;> rfl
  | _ => simp [dispatch, DrainPass.untransferable]

theorem untransferable_proceed {uuid : RootUuid}
    (h : uuid ∈ ((s.proceed config n).pass n).untransferable) :
    uuid ∈ (s.pass n).untransferable := by
  unfold proceed at h
  cases hpass : s.pass n with
  | dispatch status =>
    rw [hpass] at h
    rw [dispatch_untransferable] at h
    cases h
  | acquire t candidate node lockUuid stage =>
    rw [hpass] at h
    rw [acquire_untransferable] at h
    exact h
  | candidate t =>
    rw [hpass] at h
    simp only at h
    split_ifs at h
    · rw [setPass_pass_self] at h
      exact h
    · rw [hpass] at h
      exact h
  | repoint t candidate node lockUuid remoteStorageDir =>
    rw [hpass] at h
    simp only [setPass_pass_self] at h
    split_ifs at h <;> exact h
  | count t =>
    rw [hpass] at h
    simp only [setPass_pass_self] at h
    split_ifs at h
    · exact h
    · cases h
  | release t uuid lockUuid =>
    rw [hpass] at h
    simp only [setPass_pass_self] at h
    exact h
  | mark untransferable counted =>
    rw [hpass] at h
    simp only [setPass_pass_self] at h
    cases h
  | idle | list | findTarget | upload =>
    rw [hpass] at h
    simp only [hpass] at h
    exact h

theorem untransferable_passStep {e : DrainEvent} {uuid : RootUuid}
    (h : uuid ∈ ((s.passStep config n e).pass n).untransferable) :
    uuid ∈ (s.pass n).untransferable ∨ ∃ t candidate analysisMode lockUuid,
      e = .findTarget none lockUuid ∧ s.pass n = .findTarget t candidate analysisMode ∧
        candidate.uuid = uuid ∧ s.db.compatibleNodes n config analysisMode = [] := by
  cases e with
  | proceed => exact .inl (untransferable_proceed h)
  | die =>
    simp only [passStep, setPass_pass_self] at h
    cases h
  | raise =>
    simp only [passStep, raise] at h
    split at h
    next hpass =>
      rw [setPass_pass_self] at h
      exact .inl (hpass ▸ h)
    next hpass =>
      rw [setPass_pass_self] at h
      exact .inl (hpass ▸ h)
    next =>
      rw [setPass_pass_self] at h
      cases h
  | findTarget node lockUuid =>
    simp only [passStep] at h
    split at h
    next t candidate analysisMode hpass =>
      split at h
      next htarget =>
        cases node with
        | some node =>
          simp only [setPass_pass_self] at h
          exact .inl (hpass ▸ h)
        | none =>
          simp only [setPass_pass_self, DrainPass.untransferable, TransferPass.noTarget,
            mem_append, mem_singleton] at h
          rcases h with h | h
          · exact .inl (hpass ▸ h)
          · exact .inr ⟨t, candidate, analysisMode, lockUuid, rfl, hpass, h.symm,
              of_decide_eq_true htarget⟩
      next => exact .inl h
    next => exact .inl h
  | begin =>
    simp only [passStep] at h
    split at h
    next =>
      rw [setPass_pass_self] at h
      cases h
    next => exact .inl h
  | list candidates =>
    simp only [passStep] at h
    repeat' split at h
    · rw [setPass_pass_self] at h
      cases h
    all_goals exact .inl h
  | load analysisMode =>
    simp only [passStep] at h
    split at h
    next t hpass =>
      left
      rw [hpass]
      repeat' split at h
      -- the variables of the loop go on as they are, or without the candidate
      · rwa [setPass_pass_self] at h
      · rwa [setPass_pass_self] at h
      · rwa [hpass] at h
    next => exact .inl h
  | upload remoteStorageDir =>
    simp only [passStep] at h
    split at h
    next t candidate node lockUuid hpass =>
      left
      rw [hpass]
      split at h <;> rwa [setPass_pass_self] at h
    next => exact .inl h

theorem mark_passStep {e : DrainEvent} {untransferable : List RootUuid} {counted : List DelayedRow}
    (h : (s.passStep config n e).pass n = .mark untransferable counted) :
    s.pass n = .mark untransferable counted ∨ e = .proceed ∧ ∃ t, s.pass n = .count t ∧
      t.untransferable = untransferable ∧ s.db.delayedOf n untransferable = counted := by
  cases e with
  | proceed =>
    simp only [passStep, proceed] at h
    cases hpass : s.pass n with
    | count t =>
      rw [hpass] at h
      simp only [setPass_pass_self] at h
      split_ifs at h
      obtain ⟨rfl, rfl⟩ := DrainPass.mark.inj h
      exact .inr ⟨rfl, t, rfl, rfl, rfl⟩
    | dispatch status =>
      rw [hpass] at h
      cases status with
      | draining =>
        simp only [dispatch, setPass_pass_self] at h
        split_ifs at h
      | _ => simp [dispatch] at h
    | acquire t candidate node lockUuid stage =>
      rw [hpass] at h
      simp only [acquire, setPass_pass_self] at h
      split at h <;> cases h
    | candidate t =>
      rw [hpass] at h
      simp only at h
      split_ifs at h
      · simp at h
      · simp [hpass] at h
    | idle | list | findTarget | upload | mark =>
      rw [hpass] at h
      simp [hpass] at h
    | repoint | release =>
      rw [hpass] at h
      simp at h
  | die => simp [passStep] at h
  | raise =>
    simp only [passStep, raise] at h
    split at h <;> simp at h
  | begin | list | load | findTarget | upload =>
    simp only [passStep] at h
    repeat' split at h
    all_goals first | exact .inl h | (rw [setPass_pass_self] at h; cases h)

theorem mark_kept {e : DrainEvent} {untransferable : List RootUuid} {counted : List DelayedRow}
    (h : s.pass n = .mark untransferable counted)
    (hpass : (s.passStep config n e).pass n ≠ .idle) :
    (s.passStep config n e).pass n = .mark untransferable counted := by
  cases e with
  | proceed | raise | die => simp [passStep, proceed, raise, h] at hpass
  | begin | list | load | findTarget | upload =>
    simp only [passStep, h]

end DrainState

/-! ## §4 Runs -/

open DrainState

variable {events : List ClusterEvent} {e : ClusterEvent}

theorem run_append : run config db (events ++ [e]) = (run config db events).step config e := by
  rw [run, foldl_append]
  rfl

theorem InPass.snoc {after : List ClusterEvent} (h : InPass config n s after)
    (hpass : (after.foldl (DrainState.step config) s).pass n ≠ .idle) (e : ClusterEvent) :
    InPass config n s (after ++ [e]) :=
  (along_append ..).mpr ⟨h, hpass, trivial⟩

theorem FoundUntransferable.snoc {uuid : RootUuid} (h : FoundUntransferable config db events n uuid)
    (hpass : (run config db events).pass n ≠ .idle) (e : ClusterEvent) :
    FoundUntransferable config db (events ++ [e]) n uuid := by
  obtain ⟨before, after, t, candidate, analysisMode, lockUuid, rfl, hfind, huuid, hnone, hin⟩ := h
  refine ⟨before, after ++ [e], t, candidate, analysisMode, lockUuid, by simp, hfind, huuid, hnone,
    hin.snoc ?_ e⟩
  rwa [run, foldl_append] at hpass

variable {untransferable : List RootUuid} {counted : List DelayedRow}

theorem Counted.snoc (h : Counted config db events n untransferable counted)
    (hpass : (run config db events).pass n ≠ .idle) (e : ClusterEvent) :
    Counted config db (events ++ [e]) n untransferable counted := by
  obtain ⟨before, after, t, rfl, hcount, ht, hcounted, hin⟩ := h
  refine ⟨before, after ++ [e], t, by simp, hcount, ht, hcounted, hin.snoc ?_ e⟩
  rwa [run, foldl_append] at hpass

/-- The variables of a pass are what it found and counted. -/
structure Recorded (config : ClusterConfig) (db : Central) (events : List ClusterEvent)
    (n : NodeId) : Prop where
  found : ∀ uuid ∈ ((run config db events).pass n).untransferable,
    FoundUntransferable config db events n uuid
  counted : ∀ untransferable counted,
    (run config db events).pass n = .mark untransferable counted →
      Counted config db events n untransferable counted

theorem pass_ne_idle_of_mem {pass : DrainPass} {uuid : RootUuid} (h : uuid ∈ pass.untransferable) :
    pass ≠ .idle := by
  rintro rfl
  cases h

theorem Recorded.snoc (h : Recorded config db events n) (e : ClusterEvent) :
    Recorded config db (events ++ [e]) n := by
  by_cases hown : ∃ e', e = .pass n e'
  · obtain ⟨e', rfl⟩ := hown
    constructor
    · intro uuid huuid
      rw [run_append] at huuid
      rcases untransferable_passStep huuid with
        hold | ⟨t, candidate, analysisMode, lockUuid, rfl, hfind, hcandidate, hnone⟩
      · exact (h.found uuid hold).snoc (pass_ne_idle_of_mem hold) _
      · exact ⟨events, [], t, candidate, analysisMode, lockUuid, rfl, hfind, hcandidate, hnone,
          trivial⟩
    · intro untransferable counted hmark
      rw [run_append] at hmark
      rcases mark_passStep hmark with hold | ⟨rfl, t, hcount, ht, hcounted⟩
      · exact (h.counted _ _ hold).snoc (by rw [hold]; exact DrainPass.noConfusion) _
      · exact ⟨events, [], t, rfl, hcount, ht, hcounted, trivial⟩
  · -- the events of everybody else leave the pass where it is
    have hpass : (run config db (events ++ [e])).pass n = (run config db events).pass n := by
      rw [run_append]
      cases e with
      | central e => rfl
      | pass m e => exact passStep_pass_of_ne _ _ (fun hm => hown ⟨e, by rw [hm]⟩) e
    constructor
    · intro uuid huuid
      rw [hpass] at huuid
      exact (h.found uuid huuid).snoc (pass_ne_idle_of_mem huuid) _
    · intro untransferable counted hmark
      rw [hpass] at hmark
      exact (h.counted _ _ hmark).snoc (by rw [hmark]; exact DrainPass.noConfusion) _

theorem recorded (config : ClusterConfig) (db : Central) (events : List ClusterEvent)
    (n : NodeId) : Recorded config db events n := by
  induction events using List.reverseRecOn with
  | nil =>
    constructor
    · intro uuid huuid
      cases huuid
    · intro untransferable counted hmark
      cases hmark
  | append_singleton events e ih => exact ih.snoc e

theorem pass_foldl (config : ClusterConfig) (during : List ClusterEvent)
    (h : ∀ e, .pass n e ∉ during) :
    (during.foldl (DrainState.step config) s).pass n = s.pass n := by
  induction during generalizing s with
  | nil => rfl
  | cons e rest ih =>
    rw [foldl_cons, ih fun e' hmem => h e' (mem_cons_of_mem _ hmem)]
    cases e with
    | central e => rfl
    | pass m e =>
      exact passStep_pass_of_ne _ _ (fun hm => h e (by rw [hm]; exact mem_cons_self)) e

theorem nextPassReverts (config : ClusterConfig) (db : Central) (events : List ClusterEvent)
    (n : NodeId) : NextPassReverts config db (fun db n => db.workloadOn n ≠ []) events n := by
  intro during hother hidle hdrained s hstill hwork
  have hpass : s.pass n = .dispatch .drained := by
    have hbegin : (((run config db events).step config (.pass n .begin)).pass n) =
        .dispatch .drained := by
      simp only [DrainState.step, passStep, hidle, hdrained, setPass_pass_self]
    rw [← hbegin, ← pass_foldl config during hother (s := (run config db events).step config _)]
    simp only [s, run, foldl_append, foldl_cons]
  have hstep : (s.step config (.pass n .proceed)).db = s.db.revertDrainedIfWorkAppeared n := by
    simp only [DrainState.step, passStep, proceed, hpass]
    rfl
  rw [hstep, Central.revertDrainedIfWorkAppeared, Central.status_transitionStatus, hstill,
    Option.map_some, if_pos ⟨rfl, mem_singleton_self _, decide_eq_true hwork⟩]

theorem InPass.invariant {P : DrainPass → Prop}
    (hkept : ∀ (s : DrainState) (e : DrainEvent), P (s.pass n) →
      (s.passStep config n e).pass n ≠ .idle → P ((s.passStep config n e).pass n))
    (hin : InPass config n s events)
    (hend : (events.foldl (DrainState.step config) s).pass n ≠ .idle) (h : P (s.pass n)) :
    P ((events.foldl (DrainState.step config) s).pass n) := by
  induction events generalizing s with
  | nil => exact h
  | cons e rest ih =>
    have hnext : (s.step config e).pass n ≠ .idle := by
      cases rest with
      | nil => exact hend
      | cons _ _ => exact hin.2.1
    apply ih hin.2 hend
    cases e with
    | central e => exact h
    | pass m e =>
      by_cases hm : n = m
      · subst hm
        exact hkept s e h hnext
      · exact passStep_pass_of_ne config s hm e ▸ h

theorem mark_of_counted (h : Counted config db events n untransferable counted)
    (hpass : (run config db events).pass n ≠ .idle) :
    (run config db events).pass n = .mark untransferable counted := by
  obtain ⟨before, after, t, rfl, hcount, rfl, rfl, hin⟩ := h
  rw [run, foldl_append, foldl_cons] at hpass ⊢
  refine hin.invariant (P := (· = _)) (fun _ _ => mark_kept) hpass ?_
  have hnext : ((run config db before).step config (.pass n .proceed)).pass n =
      if t.skipped = 0 then .mark t.untransferable
        ((run config db before).db.delayedOf n t.untransferable) else .idle := by
    simp only [DrainState.step, passStep, proceed, hcount, setPass_pass_self]
  by_cases hskipped : t.skipped = 0
  · rw [if_pos hskipped] at hnext
    exact hnext
  · -- a pass that skipped a root is over after the count
    rw [if_neg hskipped] at hnext
    cases after with
    | nil => exact absurd hnext hpass
    | cons _ _ => exact absurd hnext hin.1

theorem countKept_iff (hmark : (run config db events).pass n = .mark untransferable counted) :
    CountKept config db events n ↔
      ((run config db events).db.delayedOf n untransferable).length = counted.length := by
  constructor
  · exact fun h => h _ _ ((recorded config db events n).counted _ _ hmark)
  · intro hlength untransferable' counted' h
    have hmark' := mark_of_counted h (by rw [hmark]; exact DrainPass.noConfusion)
    obtain ⟨rfl, rfl⟩ := DrainPass.mark.inj (hmark.symm.trans hmark')
    exact hlength

/-! ## §5 What it leaves out -/

def oneNodeConfig : ClusterConfig := ⟨fun _ => 1, fun _ => 1, fun _ => 60, "analysis"⟩

def drainingNode (uuids : List RootUuid) : Central where
  site := { Site.init with
    tables := uuids.foldl (fun tables uuid =>
      tables.addDelayedAnalysisRequest ⟨uuid, "observable", "module"⟩) .empty }
  workloadAt := fun _ => ⟨1, "data"⟩
  delayedAt := fun _ => ⟨1, "data"⟩
  nodes := [⟨1, "node-1", "node-1:443", 1, 0, .draining, true⟩]
  nodeModes := []
  nodeModesExcluded := []
  collectors := []
  now := 0

/-- A pass with one candidate, for which there is no other node, up to the check. -/
def passUpToMark (uuid : RootUuid) : List ClusterEvent :=
  [.pass 1 .begin, .pass 1 .proceed, .pass 1 (.list [⟨uuid, "data"⟩]),
    .pass 1 (.load (some "analysis")), .pass 1 (.findTarget none (.recovery 0)), .pass 1 .proceed,
    .pass 1 .proceed]

end Ace3.Engine
