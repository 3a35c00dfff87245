import Mathlib.Data.List.Perm.Basic
import Ace3.Lib.Runs
import Ace3.Remediation.ExternalChecks

/-!
# Whether a Job Is Handed Out Once

A collector selects rows that are unlocked and not completed, and locks them later by their ids
alone. In between another collector can lock the same rows and return them, and a worker can
complete them: the `UPDATE` takes the lock over, and the rows are returned a second time.
-/

namespace Ace3.Remediation

open List Function
open Lib Lib.Runs

namespace JobState

variable {kind : JobKind} {s t : JobState kind}

/-! ## §1 The claim and its condition -/

/-- Nothing is returned that is with a worker or that a worker has completed. -/
def HandsOutOnce (s : JobState kind) : JobEvent kind → Prop
  | .readBack process alerts => ∀ item ∈ s.returned process alerts,
      kind.itemId item ∉ s.handedOut ∧ kind.itemId item ∉ s.completed
  | _ => True

/-- Nothing is locked that is with a worker or that a worker has completed. -/
def LocksFree (s : JobState kind) : JobEvent kind → Prop
  | .lock process => ∀ id ∈ (s.phase process).targetIds, id ∉ s.handedOut ∧ id ∉ s.completed
  | _ => True

/-- No collector takes a lock over because it has timed out. -/
def NoLockTimesOut (s : JobState kind) : JobEvent kind → Prop
  | .select _ collector => ∀ row ∈ s.table.rows, (kind.lock row.2).isSome →
      kind.lockTimedOut collector s.now row.2 = false
  | _ => True

instance decidableHandsOutOnce (s : JobState kind) (event : JobEvent kind) :
    Decidable (s.HandsOutOnce event) := by
  cases event <;> unfold HandsOutOnce <;> infer_instance

instance decidableLocksFree (s : JobState kind) (event : JobEvent kind) :
    Decidable (s.LocksFree event) := by
  cases event <;> unfold LocksFree <;> infer_instance

instance decidableNoLockTimesOut (s : JobState kind) (event : JobEvent kind) :
    Decidable (s.NoLockTimesOut event) := by
  cases event <;> unfold NoLockTimesOut <;> infer_instance

/-! ## §2 Locked rows are with no worker -/

/-- Each row holds at most the lock it held in the other table. -/
def LocksFrom (table table' : Table kind.Row) : Prop :=
  ∀ row ∈ table.rows, ∀ lockUuid, kind.lock row.2 = some lockUuid →
    ∃ old ∈ table'.rows, old.1 = row.1 ∧ kind.lock old.2 = some lockUuid

theorem LocksFrom.refl (table : Table kind.Row) : LocksFrom table table :=
  fun row hrow _ hlock => ⟨row, hrow, rfl, hlock⟩

theorem locksFrom_insert (table : Table kind.Row) (now : Nat) (request : kind.Request) :
    LocksFrom (table.insert (kind.queue now request)) table := by
  intro row hrow lockUuid hlock
  rcases Table.mem_rows_insert.mp hrow with hrow | rfl
  · exact ⟨row, hrow, rfl, hlock⟩
  · rw [kind.lock_queue] at hlock
    cases hlock

theorem locksFrom_deleteWhere (table : Table kind.Row) (condition : Nat × kind.Row → Bool) :
    LocksFrom (table.deleteWhere condition) table :=
  fun row hrow _ hlock => ⟨row, (Table.mem_rows_deleteWhere.mp hrow).1, rfl, hlock⟩

theorem locksFrom_updateWhere {table : Table kind.Row} {condition : Nat × kind.Row → Bool}
    {set : kind.Row → kind.Row}
    (h : ∀ row, condition row → kind.lock (set row.2) = kind.lock row.2 ∨
      kind.lock (set row.2) = none) :
    LocksFrom (table.updateWhere condition set) table := by
  intro row hrow lockUuid hlock
  obtain ⟨old, hold, rfl⟩ := Table.mem_rows_updateWhere.mp hrow
  refine ⟨old, hold, Table.updateRow_fst.symm, ?_⟩
  unfold Table.updateRow at hlock
  split at hlock
  · next hcondition =>
    rcases h old hcondition with hkept | hreleased
    · exact hkept.symm.trans hlock
    · rw [hreleased] at hlock
      cases hlock
  · exact hlock

theorem locksFrom_step (event : JobEvent kind) (h : ∀ process, event ≠ .lock process) :
    LocksFrom (s.step event).table s.table := by
  cases event with
  | queue request => exact locksFrom_insert _ _ _
  | lock process => exact absurd rfl (h process)
  | readBack process alerts =>
    show LocksFrom (s.readBack process alerts).table s.table
    unfold readBack
    split <;> exact .refl _
  | start position =>
    show LocksFrom (s.start position).table s.table
    unfold start
    split <;> exact .refl _
  | finish position outcome =>
    show LocksFrom (s.finish position outcome).table s.table
    unfold finish
    split
    · exact locksFrom_updateWhere fun row _ => .inr (kind.lock_finish _ _ _ _ _)
    · exact .refl _
  | cancel position =>
    show LocksFrom (s.cancel position).table s.table
    unfold cancel
    split
    · exact locksFrom_updateWhere fun row _ => kind.lock_cancel _ _
    · exact .refl _
  | retry ids =>
    exact locksFrom_updateWhere fun row hrow =>
      .inr (kind.lock_retry _ _ (of_decide_eq_true hrow).2)
  | delete ids => exact locksFrom_deleteWhere _ _
  | _ => exact .refl _

theorem nextLock_step (event : JobEvent kind) (h : ∀ process, event ≠ .lock process) :
    (s.step event).nextLock = s.nextLock := by
  cases event with
  | lock process => exact absurd rfl (h process)
  | readBack process alerts =>
    show (s.readBack process alerts).nextLock = s.nextLock
    unfold readBack
    split <;> rfl
  | start position =>
    show (s.start position).nextLock = s.nextLock
    unfold start
    split <;> rfl
  | finish position outcome =>
    show (s.finish position outcome).nextLock = s.nextLock
    unfold finish
    split <;> rfl
  | cancel position =>
    show (s.cancel position).nextLock = s.nextLock
    unfold cancel
    split <;> rfl
  | _ => rfl

def LocksDrawn (s : JobState kind) : Prop :=
  ∀ row ∈ s.table.rows, ∀ lockUuid, kind.lock row.2 = some lockUuid → lockUuid < s.nextLock

variable {lockUuid : LockUuid}

theorem lockTargets_rows {process : Nat} {targetIds : List Nat} {row : Nat × kind.Row}
    (hrow : row ∈ (s.lockTargets process targetIds).table.rows)
    (hlock : kind.lock row.2 = some lockUuid) :
    row.1 ∈ targetIds ∧ lockUuid = s.nextLock ∨ row ∈ s.table.rows := by
  obtain ⟨old, hold, rfl⟩ := Table.mem_rows_updateWhere.mp hrow
  unfold Table.updateRow at hlock ⊢
  split
  · next htarget =>
    rw [if_pos htarget, kind.lock_locked] at hlock
    exact .inl ⟨of_decide_eq_true htarget, (Option.some.inj hlock).symm⟩
  · exact .inr hold

theorem LocksDrawn.step (h : s.LocksDrawn) (event : JobEvent kind) : (s.step event).LocksDrawn := by
  by_cases hevent : ∃ process, event = .lock process
  · obtain ⟨process, rfl⟩ := hevent
    simp only [JobState.step, JobState.lock]
    split
    · intro row hrow lockUuid hlock
      rcases lockTargets_rows hrow hlock with ⟨_, rfl⟩ | hmem
      · exact Nat.lt_succ_self _
      · exact Nat.lt_succ_of_lt (h row hmem lockUuid hlock)
    · exact h
  · intro row hrow lockUuid hlock
    have hevent' : ∀ process, event ≠ .lock process := fun process heq => hevent ⟨process, heq⟩
    obtain ⟨old, hold, _, hlock'⟩ := locksFrom_step event hevent' row hrow lockUuid hlock
    rw [nextLock_step event hevent']
    exact h old hold lockUuid hlock'

/-- What is locked and not yet read back is with no worker and not completed. -/
structure Inv (s : JobState kind) : Prop where
  drawn : s.LocksDrawn
  phase_lt : ∀ process lockUuid, s.phase process = .locked lockUuid → lockUuid < s.nextLock
  phase_inj : ∀ process process' lockUuid, s.phase process = .locked lockUuid →
    s.phase process' = .locked lockUuid → process = process'
  free : ∀ process lockUuid, s.phase process = .locked lockUuid → ∀ row ∈ s.table.rows,
    kind.lock row.2 = some lockUuid → row.1 ∉ s.handedOut ∧ row.1 ∉ s.completed

theorem Inv.init : (init : JobState kind).Inv where
  drawn := nofun
  phase_lt := nofun
  phase_inj := nofun
  free := nofun

/-- Frame rule: no row is locked anew, no collector gets a lock, and what is locked by a collector
that has not read back goes to no worker. -/
theorem Inv.frame (h : s.Inv) (htable : LocksFrom t.table s.table)
    (hphase : ∀ process lockUuid, t.phase process = .locked lockUuid →
      s.phase process = .locked lockUuid)
    (hnext : t.nextLock = s.nextLock)
    (hids : ∀ process lockUuid, t.phase process = .locked lockUuid → ∀ row ∈ t.table.rows,
      kind.lock row.2 = some lockUuid → (row.1 ∈ t.handedOut → row.1 ∈ s.handedOut) ∧
        (row.1 ∈ t.completed → row.1 ∈ s.completed)) : t.Inv where
  drawn row hrow lockUuid hlock := by
    obtain ⟨old, hold, _, hlock'⟩ := htable row hrow lockUuid hlock
    rw [hnext]
    exact h.drawn old hold lockUuid hlock'
  phase_lt process lockUuid hlocked := by
    rw [hnext]
    exact h.phase_lt process lockUuid (hphase process lockUuid hlocked)
  phase_inj process process' lockUuid hlocked hlocked' :=
    h.phase_inj process process' lockUuid (hphase process lockUuid hlocked)
      (hphase process' lockUuid hlocked')
  free process lockUuid hlocked row hrow hlock := by
    obtain ⟨old, hold, hid, hlock'⟩ := htable row hrow lockUuid hlock
    obtain ⟨hhanded, hcompleted⟩ :=
      h.free process lockUuid (hphase process lockUuid hlocked) old hold hlock'
    obtain ⟨hback, hback'⟩ := hids process lockUuid hlocked row hrow hlock
    rw [hid] at hhanded hcompleted
    exact ⟨fun hin => hhanded (hback hin), fun hin => hcompleted (hback' hin)⟩

theorem Inv.frame_of_subset (h : s.Inv) (htable : LocksFrom t.table s.table)
    (hphase : t.phase = s.phase) (hnext : t.nextLock = s.nextLock)
    (hhanded : ∀ id ∈ t.handedOut, id ∈ s.handedOut)
    (hcompleted : ∀ id ∈ t.completed, id ∈ s.completed) : t.Inv :=
  h.frame htable (fun _ _ hlocked => hphase ▸ hlocked) hnext
    fun _ _ _ row _ _ => ⟨hhanded row.1, hcompleted row.1⟩

theorem phase_of_update {process process' : Nat} {phase : CollectorPhase}
    (hphase : ∀ lockUuid, phase ≠ .locked lockUuid)
    (h : Function.update s.phase process phase process' = .locked lockUuid) :
    process' ≠ process ∧ s.phase process' = .locked lockUuid := by
  by_cases hprocess : process' = process
  · subst hprocess
    rw [update_self] at h
    exact absurd h (hphase lockUuid)
  · exact ⟨hprocess, by rwa [update_of_ne hprocess] at h⟩

theorem phaseAfterSelect_ne (s : JobState kind) (collector : kind.Collector)
    (lockUuid : LockUuid) : s.phaseAfterSelect collector ≠ .locked lockUuid := by
  unfold phaseAfterSelect
  split <;> exact nofun

theorem mem_lockedItems {alerts : List Alert} {item : kind.WorkItem}
    (h : item ∈ s.lockedItems lockUuid alerts) :
    ∃ row ∈ s.table.rows, kind.lock row.2 = some lockUuid ∧ kind.itemId item = row.1 := by
  obtain ⟨row, hrow, hitem⟩ := mem_filterMap.mp h
  obtain ⟨hmem, hlock⟩ := mem_filter.mp hrow
  exact ⟨row, hmem, of_decide_eq_true hlock, kind.itemId_createWorkItem _ _ _ _ hitem⟩

theorem mem_handedOut_start {position id : Nat} :
    id ∈ (s.start position).handedOut ↔ id ∈ s.handedOut := by
  unfold start
  cases hitem : s.queue[position]? with
  | none => rfl
  | some item =>
    obtain ⟨hposition, rfl⟩ := List.getElem?_eq_some_iff.mp hitem
    -- the queue is a permutation of the item and the rest
    have hperm : s.queue.Perm (s.queue[position] :: s.queue.eraseIdx position) :=
      (getElem_cons_eraseIdx_perm hposition).symm
    simp only [handedOut, mem_append, map_append, map_cons, map_nil,
      (hperm.map kind.itemId).mem_iff, mem_cons]
    tauto

theorem mem_handedOut_of_eraseIdx {position id : Nat}
    (h : id ∈ (s.executing.eraseIdx position).map fun work => kind.itemId work.1) :
    id ∈ s.executing.map fun work => kind.itemId work.1 :=
  ((eraseIdx_sublist _ _).map _).mem h

theorem mem_completedIds {table : Table kind.Row} {id id' : Nat}
    (h : id' ∈ completedIds table id) :
    id' = id ∧ ∃ row ∈ table.rows, row.1 = id ∧ kind.status row.2 = .completed := by
  obtain ⟨row, hrow, rfl⟩ := mem_map.mp h
  obtain ⟨hmem, hboth⟩ := mem_filter.mp hrow
  obtain ⟨hid, hstatus⟩ := of_decide_eq_true hboth
  exact ⟨hid, row, hmem, hid, hstatus⟩

theorem Inv.lockTargets (h : s.Inv) {process : Nat} {targetIds : List Nat}
    (hfree : ∀ id ∈ targetIds, id ∉ s.handedOut ∧ id ∉ s.completed) :
    (s.lockTargets process targetIds).Inv := by
  -- the other collectors hold older locks
  have hphases : ∀ process' lockUuid,
      (s.lockTargets process targetIds).phase process' = .locked lockUuid →
      process' = process ∧ lockUuid = s.nextLock ∨ s.phase process' = .locked lockUuid := by
    intro process' lockUuid hlocked
    by_cases hprocess : process' = process
    · subst hprocess
      simp only [JobState.lockTargets, update_self, CollectorPhase.locked.injEq]
        at hlocked
      exact .inl ⟨rfl, hlocked.symm⟩
    · simp only [JobState.lockTargets, update_of_ne hprocess] at hlocked
      exact .inr hlocked
  constructor
  case drawn =>
    intro row hrow lockUuid hlock
    rcases lockTargets_rows hrow hlock with ⟨_, rfl⟩ | hmem
    · exact Nat.lt_succ_self _
    · exact Nat.lt_succ_of_lt (h.drawn row hmem lockUuid hlock)
  case phase_lt =>
    intro process' lockUuid hlocked
    rcases hphases process' lockUuid hlocked with ⟨_, rfl⟩ | hlocked
    · exact Nat.lt_succ_self _
    · exact Nat.lt_succ_of_lt (h.phase_lt process' lockUuid hlocked)
  case phase_inj =>
    intro process₁ process₂ lockUuid h₁ h₂
    rcases hphases process₁ lockUuid h₁ with ⟨hprocess, hnew⟩ | hold₁ <;>
      rcases hphases process₂ lockUuid h₂ with ⟨hprocess', hnew'⟩ | hold₂
    · exact hprocess.trans hprocess'.symm
    · exact absurd (h.phase_lt process₂ lockUuid hold₂) (hnew ▸ Nat.lt_irrefl _)
    · exact absurd (h.phase_lt process₁ lockUuid hold₁) (hnew' ▸ Nat.lt_irrefl _)
    · exact h.phase_inj process₁ process₂ lockUuid hold₁ hold₂
  case free =>
    intro process' lockUuid hlocked row hrow hlock
    rcases lockTargets_rows hrow hlock with ⟨htarget, _⟩ | hmem
    · exact hfree row.1 htarget
    · rcases hphases process' lockUuid hlocked with ⟨_, rfl⟩ | hlocked
      · exact absurd (h.drawn row hmem _ hlock) (Nat.lt_irrefl _)
      · exact h.free process' lockUuid hlocked row hmem hlock

theorem Inv.readBack (h : s.Inv) (process : Nat) (alerts : List Alert) :
    (s.readBack process alerts).Inv := by
  unfold JobState.readBack
  cases hphase : s.phase process with
  | idle => exact h
  | selected targetIds => exact h
  | locked lockUuid =>
    have hothers : ∀ process' lockUuid',
        Function.update s.phase process .idle process' = .locked lockUuid' →
        process' ≠ process ∧ s.phase process' = .locked lockUuid' :=
      fun _ _ => phase_of_update nofun
    refine h.frame (.refl _) (fun process' lockUuid' hlocked =>
      (hothers process' lockUuid' hlocked).2) rfl ?_
    intro process' lockUuid' hlocked row hrow hlock
    refine ⟨fun hhanded => ?_, id⟩
    obtain ⟨hne, hlocked⟩ := hothers process' lockUuid' hlocked
    simp only [handedOut, map_append, mem_append, returned, hphase] at hhanded
    rcases hhanded with (hqueue | hreturned) | hexecuting
    · exact mem_append.mpr (.inl hqueue)
    · -- the row would hold the locks of two collectors
      obtain ⟨item, hitem, hid⟩ := mem_map.mp hreturned
      obtain ⟨row', hrow', hlock', hid'⟩ := mem_lockedItems hitem
      have hsame : row' = row := s.table.id_inj row' hrow' row hrow (hid'.symm.trans hid)
      subst hsame
      have huuid : lockUuid = lockUuid' := Option.some.inj (hlock'.symm.trans hlock)
      exact absurd (h.phase_inj process' process lockUuid' hlocked (huuid ▸ hphase)) hne
    · exact mem_append.mpr (.inr hexecuting)

theorem Inv.finish (h : s.Inv) (position : Nat) (outcome : kind.Outcome) :
    (s.finish position outcome).Inv := by
  unfold JobState.finish
  cases hwork : s.executing[position]? with
  | none => exact h
  | some work =>
    refine h.frame (locksFrom_updateWhere fun row _ => .inr (kind.lock_finish _ _ _ _ _))
      (fun _ _ hlocked => hlocked) rfl ?_
    intro process lockUuid hlocked row hrow hlock
    constructor
    · intro hhanded
      simp only [handedOut, mem_append] at hhanded ⊢
      exact hhanded.imp_right mem_handedOut_of_eraseIdx
    · intro hcompleted
      rcases mem_append.mp hcompleted with hbefore | hnow
      · exact hbefore
      · -- the rows with the id of the item are unlocked now
        obtain ⟨old, hold, rfl⟩ := Table.mem_rows_updateWhere.mp hrow
        have hid := (mem_completedIds hnow).1
        rw [Table.updateRow_fst] at hid
        rw [Table.updateRow, if_pos (decide_eq_true hid), kind.lock_finish] at hlock
        cases hlock

theorem Inv.step (h : s.Inv) (event : JobEvent kind) (hfree : s.LocksFree event) :
    (s.step event).Inv := by
  cases event with
  | queue request =>
    exact h.frame_of_subset (locksFrom_insert _ _ _) rfl rfl (fun _ hin => hin) fun _ hin => hin
  | tick seconds =>
    exact h.frame_of_subset (.refl _) rfl rfl (fun _ hin => hin) fun _ hin => hin
  | select process collector =>
    exact h.frame (.refl _)
      (fun _ _ hlocked => (phase_of_update (phaseAfterSelect_ne s collector) hlocked).2) rfl
      fun _ _ _ _ _ _ => ⟨id, id⟩
  | lock process =>
    simp only [JobState.step, JobState.lock]
    cases hphase : s.phase process with
    | idle => exact h
    | selected targetIds =>
      refine h.lockTargets fun id hid => hfree id ?_
      rw [hphase]
      exact hid
    | locked lockUuid => exact h
  | readBack process alerts => exact h.readBack process alerts
  | start position =>
    have hsame : ∀ id, id ∈ (s.start position).handedOut → id ∈ s.handedOut := fun _ =>
      mem_handedOut_start.mp
    simp only [JobState.step]
    unfold JobState.start at hsame ⊢
    cases hitem : s.queue[position]? with
    | none => exact h
    | some item =>
      simp only [hitem] at hsame
      exact h.frame_of_subset (.refl _) rfl rfl hsame fun _ hin => hin
  | finish position outcome => exact h.finish position outcome
  | checkCancel call =>
    exact h.frame_of_subset (.refl _) rfl rfl (fun _ hin => hin) fun _ hin => hin
  | cancel position =>
    simp only [JobState.step, JobState.cancel]
    cases hupdate : s.cancelling[position]? with
    | none => exact h
    | some update =>
      exact h.frame_of_subset (locksFrom_updateWhere fun row _ => kind.lock_cancel _ _) rfl rfl
        (fun _ hin => hin) fun _ hin => hin
  | retry ids =>
    refine h.frame_of_subset (locksFrom_updateWhere fun row hrow => .inr ?_) rfl rfl
      (fun _ hin => hin) fun _ hin => mem_of_mem_filter hin
    exact kind.lock_retry _ _ (of_decide_eq_true hrow).2
  | delete ids =>
    exact h.frame_of_subset (locksFrom_deleteWhere _ _) rfl rfl (fun _ hin => hin)
      fun _ hin => hin

theorem Inv.handsOutOnce (h : s.Inv) (event : JobEvent kind) : s.HandsOutOnce event := by
  cases event with
  | readBack process alerts =>
    intro item hitem
    unfold returned at hitem
    cases hphase : s.phase process with
    | idle => simp only [hphase, not_mem_nil] at hitem
    | selected targetIds => simp only [hphase, not_mem_nil] at hitem
    | locked lockUuid =>
      simp only [hphase] at hitem
      obtain ⟨row, hrow, hlock, hid⟩ := mem_lockedItems hitem
      rw [hid]
      exact h.free process lockUuid hphase row hrow hlock
  | _ => trivial

end JobState

/-! ## §3 Handed out once, and twice -/

open JobState

/-- **Exclusive hand-out**: in every run in which what a collector locks is with no worker and
completed by none at the time of the locking `UPDATE`, no collector returns a row that was returned
before and not released, or that a worker has completed. -/
theorem jobs_handed_out_once (table : JobTable) (events : List (JobEvent table.kind))
    (h : Along JobState.step LocksFree (init : JobState table.kind) events) :
    Along JobState.step HandsOutOnce (init : JobState table.kind) events :=
  h.of_invariant Inv (fun _ event hinv hfree => hinv.step event hfree)
    (fun _ event hinv _ => hinv.handsOutOnce event) .init

def hostFileRequest : FileCollectionRequest where
  collectorName := "falcon"
  observableType := "file_location"
  observableValue := "host@/tmp/sample"
  alertUuid := "a1"
  alertUuid_ne := by decide

def emailRemovalRequest : RemediationRequest where
  action := .remove
  remediatorName := "mailbox"
  observableType := "email_delivery"
  observableValue := "m1"

/-- A request to watch whether a vendor removes an email. -/
def emailCheckRequest : ExternalCheckRequest where
  probeName := "vendor"
  observableType := "email_delivery"
  observableValue := "m1"
  alertUuid := "a1"
  maxRetries := 3
  deadlineSeconds := 3600
  alertUuid_ne := by decide

def requestAlerts : List Alert := [{ uuid := "a1", storageDir := "data/a1" }]

def collectTwice : List (JobEvent fileCollections) :=
  [.queue hostFileRequest, .select 0 { listeners := ["falcon"] }, .lock 0,
    .readBack 0 requestAlerts, .start 0, .finish 0 (.ok { status := .hostOffline }), .tick 120,
    .select 0 { listeners := ["falcon"] }, .lock 0, .readBack 0 requestAlerts, .start 0,
    .finish 0 (.ok { status := .success })]

/-- The second collection is no double hand-out: the worker had released the lock. -/
theorem jobs_handed_out_once_retry :
    Along JobState.step LocksFree (init : JobState fileCollections) collectTwice ∧
      Along JobState.step HandsOutOnce (init : JobState fileCollections) collectTwice := by
  have hfree : Along JobState.step LocksFree (init : JobState fileCollections) collectTwice := by
    decide
  exact ⟨hfree, jobs_handed_out_once .fileCollection collectTwice hfree⟩

def overlappingCollectors {kind : JobKind} (request : kind.Request) (collector : kind.Collector) :
    List (JobEvent kind) :=
  [.queue request, .select 0 collector, .select 1 collector, .lock 0, .readBack 0 requestAlerts,
    .lock 1, .readBack 1 requestAlerts]

theorem row_is_returned_twice : ∀ table : JobTable,
    ¬ ∀ events : List (JobEvent table.kind),
      Along JobState.step NoLockTimesOut (init : JobState table.kind) events →
        Along JobState.step HandsOutOnce (init : JobState table.kind) events := by
  intro table h
  cases table with
  | remediation =>
    have hkeeps : Along JobState.step NoLockTimesOut (init : JobState remediations)
        (overlappingCollectors emailRemovalRequest { listeners := ["mailbox"] }) := by
      decide
    have hrun : Along JobState.step HandsOutOnce (init : JobState remediations)
        (overlappingCollectors emailRemovalRequest { listeners := ["mailbox"] }) :=
      h _ hkeeps
    revert hrun
    decide
  | fileCollection =>
    have hkeeps : Along JobState.step NoLockTimesOut (init : JobState fileCollections)
        (overlappingCollectors hostFileRequest { listeners := ["falcon"] }) := by
      decide
    have hrun : Along JobState.step HandsOutOnce (init : JobState fileCollections)
        (overlappingCollectors hostFileRequest { listeners := ["falcon"] }) :=
      h _ hkeeps
    revert hrun
    decide
  | externalRemediationCheck =>
    have hkeeps : Along JobState.step NoLockTimesOut (init : JobState externalChecks)
        (overlappingCollectors emailCheckRequest { listeners := [("vendor", none)] }) := by
      decide
    have hrun : Along JobState.step HandsOutOnce (init : JobState externalChecks)
        (overlappingCollectors emailCheckRequest { listeners := [("vendor", none)] }) :=
      h _ hkeeps
    revert hrun
    decide

theorem row_returned_to_both_collectors :
    ¬ ∀ (table : JobTable) (events : List (JobEvent table.kind)),
      Along JobState.step NoLockTimesOut (init : JobState table.kind) events →
        Along JobState.step HandsOutOnce (init : JobState table.kind) events :=
  fun h => row_is_returned_twice .remediation (h .remediation)

end Ace3.Remediation
