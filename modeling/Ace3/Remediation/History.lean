import Ace3.Lib.Runs
import Ace3.Remediation.Jobs

/-!
# The History of Remediations

What is done to a remediation is written twice: its row has the status and the result of now, and
the table `remediation_history` one entry for each result. The row is updated where a condition on
its state holds; the entries and the returned numbers go by the ids of the request.
-/

namespace Ace3.Remediation

open List
open Lib Lib.Runs

/-! ## §1 Operations -/

/-- A row of the table `remediation_history`; the rows are listed in the order of their ids. -/
structure RemediationHistory where
  remediationId : Nat
  result : RemediatorStatus
  message : String
  status : JobStatus
  deriving DecidableEq

/-- The two tables, and the workers whose session is left with a transaction that failed. -/
structure RemediationStore where
  table : Table RemediationRow
  history : List RemediationHistory
  failedSessions : List Nat

/-- An operation on remediations, with what it is told from outside. -/
inductive RemediationOp where
  | queue (request : RemediationRequest)
  /-- The `UPDATE` of `collect_work_items`, with the ids it has selected. -/
  | lockTargets (lockUuid : LockUuid) (targetIds : List Nat)
  /-- `RemediationWorker.remediate` in one of the worker threads. -/
  | remediate (worker : Nat) (target : RemediationWorkItem)
      (outcome : Except Raised RemediatorResult)
  /-- `cancel_remediations`, with the display name of the user if there is one. -/
  | cancelRemediations (ids : List Nat) (comment : Option String) (user : Option String)
  | cancelCurrentRemediation (remediatorName observableType observableValue : String)
  | retryRemediations (ids : List Nat)

/-- The message of `cancel_remediations`. -/
def cancelMessage (comment user : Option String) : String :=
  match comment.filter (· ≠ ""), user with
  | some comment, _ => comment
  | none, some user => "cancelled by " ++ user
  | none, none => "cancelled by unknown user"

def historyEntry (id : Nat) (result : RemediatorStatus) (message : String) : RemediationHistory where
  remediationId := id
  result := result
  message := message
  status := result.remediationStatus

namespace RemediationStore

def updateWhere (s : RemediationStore) (condition : Nat × RemediationRow → Bool)
    (set : RemediationRow → RemediationRow) : RemediationStore :=
  { s with table := s.table.updateWhere condition set }

def addHistory (s : RemediationStore) (entries : List RemediationHistory) : RemediationStore :=
  { s with history := s.history ++ entries }

/-- The session of the worker takes no statement any more. -/
def failSession (s : RemediationStore) (worker : Nat) : RemediationStore :=
  { s with failedSessions := worker :: s.failedSessions }

/-- The worker writes the result. An entry needs a message, and a remediation that is there;
otherwise the transaction fails as a whole. -/
def writeResult (s : RemediationStore) (now worker id : Nat) (result : RemediatorResult) :
    RemediationStore :=
  match result.message with
  | none => s.failSession worker
  | some message =>
    if worker ∈ s.failedSessions ∨ ¬ s.table.hasId id then s.failSession worker
    else
      (s.updateWhere (fun row => row.1 = id) (·.remediate now result)).addHistory
        [historyEntry id result.status message]

def step (s : RemediationStore) : Nat × RemediationOp → RemediationStore
  | (now, .queue request) => { s with table := s.table.insert (queueRemediation now request) }
  | (now, .lockTargets lockUuid targetIds) =>
    s.updateWhere (fun row => row.1 ∈ targetIds) fun row =>
      { row with lock := some lockUuid, lockTime := some now, status := .inProgress }
  | (now, .remediate worker target outcome) =>
    s.writeResult now worker target.id (RemediatorResult.ofOutcome outcome)
  | (now, .cancelRemediations ids comment user) =>
    -- an entry for an id that is not there fails the transaction
    if ids.all s.table.hasId then
      (s.updateWhere (RemediationCancelUpdate.cancels (.inProgress ids)) (·.cancel now)).addHistory
        (ids.map fun id => historyEntry id .cancelled (cancelMessage comment user))
    else s
  | (now, .cancelCurrentRemediation remediatorName observableType observableValue) =>
    match getCurrentRemediation s.table remediatorName observableType observableValue with
    | none => s
    | some current => s.updateWhere (RemediationCancelUpdate.cancels (.byId current.1)) (·.cancel now)
  | (_, .retryRemediations ids) =>
    s.updateWhere (fun row => row.1 ∈ ids ∧ row.2.status = .completed) (·.retry)

/-- The number that an operation on several remediations returns, if it does not raise. -/
def returned (s : RemediationStore) : RemediationOp → Option Nat
  | .cancelRemediations ids _ _ => if ids.all s.table.hasId then some ids.length else none
  | .retryRemediations ids => some ids.length
  | _ => none

/-! ## §2 What an operation changes -/

def row? (s : RemediationStore) (id : Nat) : Option (Nat × RemediationRow) :=
  s.table.rows.find? fun row => row.1 = id

def left (s : RemediationStore) (id : Nat) : Option (JobStatus × Option RemediatorStatus) :=
  (s.row? id).map fun row => (row.2.status, row.2.result)

/-- The operation changes the remediation: a new row, or one that its `WHERE` selects. (Locking is
part of the processing, which is complete when the result is in.) -/
def changes (s : RemediationStore) (op : RemediationOp) (id : Nat) : Bool :=
  match op with
  | .queue _ => id = s.table.nextId
  | .lockTargets _ _ => false
  | .remediate worker target outcome =>
    (RemediatorResult.ofOutcome outcome).message.isSome && worker ∉ s.failedSessions &&
      s.table.hasId target.id && id = target.id
  | .cancelRemediations ids _ _ =>
    ids.all s.table.hasId &&
      (s.row? id).any (RemediationCancelUpdate.cancels (.inProgress ids))
  | .cancelCurrentRemediation remediatorName observableType observableValue =>
    (getCurrentRemediation s.table remediatorName observableType observableValue).any (·.1 = id)
  | .retryRemediations ids =>
    (s.row? id).any fun row => row.1 ∈ ids && row.2.status = .completed

def reports : RemediationOp → Bool
  | .remediate _ _ _ | .cancelRemediations _ _ _ => true
  | _ => false

def lastLeft (kind : RemediationOp → Bool) (id : Nat) :
    RemediationStore → List (Nat × RemediationOp) → Option (JobStatus × Option RemediatorStatus) →
      Option (JobStatus × Option RemediatorStatus)
  | _, [], before => before
  | s, op :: ops, before =>
    lastLeft kind id (s.step op) ops
      (if kind op.2 && s.changes op.2 id then (s.step op).left id else before)

def newest (s : RemediationStore) (id : Nat) : Option (JobStatus × Option RemediatorStatus) :=
  (s.history.filter (·.remediationId = id)).getLast?.map fun entry =>
    (entry.status, some entry.result)

variable {s : RemediationStore} {id : Nat}

theorem find?_updateWhere (table : Table RemediationRow) (condition : Nat × RemediationRow → Bool)
    (set : RemediationRow → RemediationRow) (id : Nat) :
    ((table.updateWhere condition set).rows.find? fun row => row.1 = id) =
      (table.rows.find? fun row => row.1 = id).map (Table.updateRow condition set) := by
  rw [Table.updateWhere, List.find?_map]
  refine congrArg (Option.map _) (congrArg (List.find? · table.rows) (funext fun row => ?_))
  rw [Function.comp_apply, Table.updateRow_fst]

theorem exists_row_of_hasId (h : s.table.hasId id = true) :
    ∃ row, s.row? id = some (id, row) := by
  obtain ⟨value, hmem⟩ := Table.hasId_iff.mp h
  cases hrow : s.row? id with
  | none => exact absurd (List.find?_eq_none.mp hrow _ hmem) (by simp)
  | some row =>
    obtain rfl : row.1 = id := by simpa using List.find?_some hrow
    exact ⟨row.2, rfl⟩

theorem row?_fst {row : Nat × RemediationRow} (h : s.row? id = some row) : row.1 = id := by
  simpa using List.find?_some h

theorem left_updateWhere (condition : Nat × RemediationRow → Bool)
    (set : RemediationRow → RemediationRow) {row : Nat × RemediationRow} (h : s.row? id = some row)
    (hcondition : condition row = true) :
    (s.updateWhere condition set).left id = some ((set row.2).status, (set row.2).result) := by
  have hrow : (s.updateWhere condition set).row? id = some (Table.updateRow condition set row) := by
    rw [row?, updateWhere, find?_updateWhere]
    exact congrArg (Option.map _) h
  rw [left, hrow, Table.updateRow, if_pos hcondition]
  rfl

/-! ## §3 The newest entry -/

theorem newest_addHistory {entries : List RemediationHistory}
    {said : JobStatus × Option RemediatorStatus} (hmem : ∃ entry ∈ entries, entry.remediationId = id)
    (hall : ∀ entry ∈ entries, (entry.status, some entry.result) = said) :
    (s.addHistory entries).newest id = some said := by
  obtain ⟨entry, hentry, hid⟩ := hmem
  have hne : entries.filter (fun entry => entry.remediationId = id) ≠ [] := by
    apply ne_nil_of_mem (a := entry)
    exact mem_filter.mpr ⟨hentry, by simpa using hid⟩
  rw [newest, addHistory, filter_append, List.getLast?_append_of_ne_nil _ hne,
    List.getLast?_eq_some_getLast hne, Option.map_some]
  exact congrArg some (hall _ (mem_of_mem_filter (getLast_mem hne)))

theorem newest_addHistory_of_ne {entries : List RemediationHistory}
    (hne : ∀ entry ∈ entries, entry.remediationId ≠ id) :
    (s.addHistory entries).newest id = s.newest id := by
  have hnil : entries.filter (fun entry => entry.remediationId = id) = [] :=
    filter_eq_nil_iff.mpr fun entry hentry => by simpa using hne entry hentry
  rw [newest, addHistory, filter_append, hnil, append_nil, newest]

/-- A bulk cancel that names the remediation finds it in progress, and no single cancel changes
it. -/
def PlainFor (id : Nat) (s : RemediationStore) (op : Nat × RemediationOp) : Prop :=
  match op.2 with
  | .cancelRemediations ids _ _ => id ∈ ids → ∀ row ∈ s.row? id, row.2.status = .inProgress
  | .cancelCurrentRemediation _ _ _ => s.changes op.2 id = false
  | _ => True

instance (id : Nat) (s : RemediationStore) (op : Nat × RemediationOp) :
    Decidable (PlainFor id s op) := by
  obtain ⟨now, op⟩ := op
  cases op <;> unfold PlainFor <;> infer_instance

theorem newest_writeResult (now worker target : Nat) (result : RemediatorResult) :
    (s.writeResult now worker target result).newest id =
      if result.message.isSome && worker ∉ s.failedSessions && s.table.hasId target && id = target
      then (s.writeResult now worker target result).left id else s.newest id := by
  unfold writeResult
  cases hmessage : result.message with
  | none => simp only [Option.isSome_none, Bool.false_and, Bool.false_eq_true, if_false]; rfl
  | some message =>
    by_cases hfails : worker ∈ s.failedSessions ∨ ¬ s.table.hasId target
    · have hnot : ¬ (Option.isSome (some message) && decide (worker ∉ s.failedSessions) &&
          s.table.hasId target && decide (id = target)) = true := by
        simp only [Bool.and_eq_true, decide_eq_true_eq]
        exact fun hall => hfails.elim hall.1.1.2 fun hmissing => hmissing hall.1.2
      simp only [if_pos hfails, if_neg hnot]
      rfl
    · obtain ⟨hsession, hthere⟩ := not_or.mp hfails
      rw [not_not] at hthere
      simp only [if_neg hfails]
      by_cases hid : id = target
      · subst hid
        obtain ⟨row, hrow⟩ := exists_row_of_hasId hthere
        have hleft := left_updateWhere (fun row => row.1 = id) (·.remediate now result) hrow (by simp)
        rw [if_pos (by simp [hsession, hthere])]
        refine (newest_addHistory ⟨_, mem_singleton_self _, rfl⟩ fun entry hentry => ?_).trans
          hleft.symm
        rw [mem_singleton.mp hentry]
        rfl
      · rw [if_neg (by simp [hid]), newest_addHistory_of_ne fun entry hentry => ?_]
        · rfl
        · rw [mem_singleton.mp hentry]
          exact fun heq => hid heq.symm

theorem newest_cancel (now : Nat) (ids : List Nat) (comment user : Option String)
    (hplain : id ∈ ids → ∀ row ∈ s.row? id, row.2.status = .inProgress) :
    (s.step (now, .cancelRemediations ids comment user)).newest id =
      if s.changes (.cancelRemediations ids comment user) id
      then (s.step (now, .cancelRemediations ids comment user)).left id else s.newest id := by
  rw [step, changes]
  by_cases hall : ids.all s.table.hasId = true
  · rw [if_pos hall, hall, Bool.true_and]
    by_cases hid : id ∈ ids
    · obtain ⟨row, hrow⟩ := exists_row_of_hasId (all_eq_true.mp hall id hid)
      have hstatus := hplain hid _ hrow
      have hcancels : RemediationCancelUpdate.cancels (.inProgress ids) (id, row) = true := by
        rw [RemediationCancelUpdate.cancels, hstatus]
        simp [hid]
      have hleft := left_updateWhere (RemediationCancelUpdate.cancels (.inProgress ids))
        (·.cancel now) hrow hcancels
      rw [hrow, Option.any_some, if_pos hcancels]
      refine (newest_addHistory ⟨_, mem_map_of_mem hid, rfl⟩ fun entry hentry => ?_).trans
        hleft.symm
      obtain ⟨other, -, rfl⟩ := mem_map.mp hentry
      rfl
    · have hnot : ¬ (s.row? id).any (RemediationCancelUpdate.cancels (.inProgress ids)) = true := by
        intro hany
        obtain ⟨row, hrow, hcancels⟩ := (Option.any_eq_true _ _).mp hany
        simp only [RemediationCancelUpdate.cancels, row?_fst hrow, hid, false_and, decide_false,
          Bool.false_eq_true] at hcancels
      rw [if_neg hnot, newest_addHistory_of_ne fun entry hentry => ?_]
      · rfl
      · obtain ⟨other, hother, rfl⟩ := mem_map.mp hentry
        exact fun heq => hid (heq ▸ hother)
  · rw [if_neg hall, Bool.eq_false_of_not_eq_true hall, Bool.false_and,
      if_neg Bool.false_ne_true]

theorem newest_step (op : Nat × RemediationOp) (hplain : PlainFor id s op) :
    (s.step op).newest id =
      if reports op.2 && s.changes op.2 id then (s.step op).left id else s.newest id := by
  obtain ⟨now, op⟩ := op
  cases op with
  | queue request => rfl
  | lockTargets lockUuid targetIds => rfl
  | remediate worker target outcome =>
    rw [reports, Bool.true_and]
    exact newest_writeResult now worker target.id (RemediatorResult.ofOutcome outcome)
  | cancelRemediations ids comment user =>
    rw [reports, Bool.true_and]
    exact newest_cancel now ids comment user hplain
  | cancelCurrentRemediation remediatorName observableType observableValue =>
    show (s.step _).newest id = s.newest id
    rw [step]
    split <;> rfl
  | retryRemediations ids => rfl

theorem newest_run (ops : List (Nat × RemediationOp)) (hplain : Along step (PlainFor id) s ops) :
    (ops.foldl step s).newest id = lastLeft reports id s ops (s.newest id) := by
  induction ops generalizing s with
  | nil => rfl
  | cons op ops ih =>
    rw [foldl_cons, ih hplain.2, lastLeft, newest_step op hplain.1]

structure Tells (id : Nat) (s : RemediationStore) (op : Nat × RemediationOp) : Prop where
  /-- Entries are added, and those for the remediation say what the operation has left in its row. -/
  entries : ∃ added, (s.step op).history = s.history ++ added ∧ ∀ entry ∈ added,
    entry.remediationId = id →
      s.changes op.2 id = true ∧ (s.step op).left id = some (entry.status, some entry.result)
  silent : reports op.2 = false → (s.step op).history = s.history
  /-- A bulk cancel that does not raise returns the number of its ids. -/
  cancelled : ∀ ids comment user, op.2 = .cancelRemediations ids comment user →
    s.returned op.2 = some ids.length ∨ s.step op = s
  retried : ∀ ids, op.2 = .retryRemediations ids → s.returned op.2 = some ids.length

theorem exists_added {op : Nat × RemediationOp} (added : List RemediationHistory)
    (said : JobStatus × Option RemediatorStatus)
    (hhistory : (s.step op).history = s.history ++ added)
    (hsame : ∀ entry ∈ added, (entry.status, some entry.result) = said)
    (hchanges : ∀ entry ∈ added, entry.remediationId = id → s.changes op.2 id = true)
    (hreports : reports op.2 = true) (hplain : PlainFor id s op) :
    ∃ added, (s.step op).history = s.history ++ added ∧ ∀ entry ∈ added,
      entry.remediationId = id →
        s.changes op.2 id = true ∧ (s.step op).left id = some (entry.status, some entry.result) := by
  refine ⟨added, hhistory, fun entry hentry hid => ⟨hchanges entry hentry hid, ?_⟩⟩
  have hnewest := newest_step op hplain
  rw [hreports, Bool.true_and, if_pos (hchanges entry hentry hid)] at hnewest
  have hlast : (s.step op).newest id = some said := by
    have hadd := newest_addHistory (s := s) ⟨entry, hentry, hid⟩ hsame
    rw [newest, addHistory] at hadd
    rw [newest, hhistory]
    exact hadd
  rw [← hnewest, hlast, hsame entry hentry]

theorem tells_of_plain (op : Nat × RemediationOp) (hplain : PlainFor id s op) : Tells id s op := by
  have hnone (hsame : (s.step op).history = s.history) : ∃ added,
      (s.step op).history = s.history ++ added ∧ ∀ entry ∈ added, entry.remediationId = id →
        s.changes op.2 id = true ∧ (s.step op).left id = some (entry.status, some entry.result) :=
    ⟨[], by rw [hsame, append_nil], fun _ hentry => absurd hentry not_mem_nil⟩
  obtain ⟨now, op⟩ := op
  cases op with
  | queue request => exact ⟨hnone rfl, fun _ => rfl, nofun, nofun⟩
  | lockTargets lockUuid targetIds => exact ⟨hnone rfl, fun _ => rfl, nofun, nofun⟩
  | remediate worker target outcome =>
    refine ⟨?_, nofun, nofun, nofun⟩
    cases hmessage : (RemediatorResult.ofOutcome outcome).message with
    | none =>
      apply hnone
      simp only [step, writeResult, hmessage]
      rfl
    | some message =>
      by_cases hfails : worker ∈ s.failedSessions ∨ ¬ s.table.hasId target.id
      · apply hnone
        simp only [step, writeResult, hmessage, if_pos hfails]
        rfl
      · obtain ⟨hsession, hthere⟩ := not_or.mp hfails
        rw [not_not] at hthere
        refine exists_added
          [historyEntry target.id (RemediatorResult.ofOutcome outcome).status message] _ ?_
          (fun entry hentry => by rw [mem_singleton.mp hentry]) (fun entry hentry hid => ?_) rfl
          hplain
        · simp only [step, writeResult, hmessage, if_neg hfails]
          rfl
        · rw [mem_singleton.mp hentry] at hid
          have hid' : id = target.id := hid.symm
          simp [changes, hmessage, hsession, hthere, hid']
  | cancelRemediations ids comment user =>
    by_cases hall : ids.all s.table.hasId = true
    · refine ⟨?_, nofun, fun ids' comment' user' heq => .inl ?_, nofun⟩
      · refine exists_added
          (ids.map fun id => historyEntry id .cancelled (cancelMessage comment user))
          (.completed, some .cancelled) ?_ (fun entry hentry => ?_)
          (fun entry hentry hid => ?_) rfl hplain
        · rw [step, if_pos hall]
          rfl
        · obtain ⟨other, -, rfl⟩ := mem_map.mp hentry
          rfl
        · obtain ⟨other, hother, rfl⟩ := mem_map.mp hentry
          obtain rfl : other = id := hid
          obtain ⟨row, hrow⟩ := exists_row_of_hasId (all_eq_true.mp hall other hother)
          have hstatus : row.status = .inProgress := hplain hother _ hrow
          rw [changes, hall, Bool.true_and, hrow, Option.any_some, RemediationCancelUpdate.cancels]
          simp [hother, hstatus]
      · obtain ⟨rfl, -, -⟩ := RemediationOp.cancelRemediations.inj heq
        rw [returned, if_pos hall]
    · have hsame : s.step (now, .cancelRemediations ids comment user) = s := by
        rw [step, if_neg hall]
      exact ⟨hnone (congrArg history hsame), nofun, fun _ _ _ _ => .inr hsame, nofun⟩
  | cancelCurrentRemediation remediatorName observableType observableValue =>
    have hsame : (s.step (now, .cancelCurrentRemediation remediatorName observableType
        observableValue)).history = s.history := by
      rw [step]
      split <;> rfl
    exact ⟨hnone hsame, fun _ => hsame, nofun, nofun⟩
  | retryRemediations ids =>
    refine ⟨hnone rfl, fun _ => rfl, nofun, fun ids' heq => ?_⟩
    rw [RemediationOp.retryRemediations.inj heq]
    rfl

/-- Along a run without a single cancel that changes a remediation, or a bulk cancel that finds it
not in progress, its newest entry says what the last processing or bulk cancel that changed it has
left in its row, and every operation tells what it does. -/
theorem history_of_plain_run (s : RemediationStore) (ops : List (Nat × RemediationOp)) (id : Nat)
    (hplain : Along step (PlainFor id) s ops) :
    (ops.foldl step s).newest id = lastLeft reports id s ops (s.newest id) ∧
      Along step (Tells id) s ops := by
  refine ⟨newest_run ops hplain, ?_⟩
  exact Along.of_invariant (fun _ => True) (fun _ _ _ _ => trivial)
    (fun _ op _ hop => tells_of_plain op hop) trivial hplain

def init : RemediationStore := ⟨.empty, [], []⟩

/-- A remediation of a mail, its processing, a second attempt and another cancel. -/
def mailOps : List (Nat × RemediationOp) :=
  [(0, .queue ⟨.remove, "mail", "email", "m1", none⟩),
    (1, .lockTargets 7 [1]),
    (2, .remediate 0 ⟨1, .remove, "mail", "email", "m1", none⟩
      (.ok ⟨.success, some "removed", none⟩)),
    (3, .retryRemediations [1])]

theorem history_of_mailOps :
    (mailOps.foldl step init).newest 1 = lastLeft reports 1 init mailOps (init.newest 1) ∧
      Along step (Tells 1) init mailOps :=
  history_of_plain_run init mailOps 1 (by decide)

/-- After the retry the row is new again, which no entry says; and another retry, which changes
nothing, is counted. -/
theorem retry_is_not_told :
    (mailOps.foldl step init).newest 1 = some (.completed, some .success) ∧
      lastLeft (fun _ => true) 1 init mailOps none = some (.new, none) ∧
      (mailOps.foldl step init).changes (.retryRemediations [1]) 1 = false ∧
      (mailOps.foldl step init).returned (.retryRemediations [1]) = some 1 := by
  decide

end RemediationStore

end Ace3.Remediation
