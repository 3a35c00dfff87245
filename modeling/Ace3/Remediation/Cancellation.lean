import Ace3.Remediation.HandOut

/-!
# Whether a Cancellation Is Final

A cancel call writes `COMPLETED` and `CANCELLED` into the row and says so, but does not take the row
from those who already have it: a collector that has selected or locked it goes on, an item in a
queue is executed, and the worker overwrites status and result. And `cancel_remediations` reports
rows that are new or completed without changing them.
-/

namespace Ace3.Remediation

open List Function
open Lib Lib.Runs

namespace JobState

variable {kind : JobKind} {s t : JobState kind}

/-! ## §1 The claim and its condition -/

def StaysCancelled (s : JobState kind) : Prop :=
  ∀ row ∈ s.table.rows, row.1 ∈ s.cancelled → kind.isCancelled row.2

/-- No worker starts on a row whose cancellation was reported. -/
def StartsNoCancelled (s : JobState kind) : JobEvent kind → Prop
  | .start position => ∀ item ∈ s.queue[position]?, kind.itemId item ∉ s.cancelled
  | _ => True

def afterCancel (s : JobState kind) (update : kind.CancelUpdate) (row : Nat × kind.Row) :
    Nat × kind.Row :=
  Table.updateRow (kind.cancels update) (kind.cancel s.now) row

/-- Nobody has the row: it is with no worker, no collector has selected it, and its lock is not
that of a collector that has yet to read back. -/
def IsIdle (s : JobState kind) (row : Nat × kind.Row) : Prop :=
  row.1 ∉ s.handedOut ∧
    ∀ process, row.1 ∉ (s.phase process).targetIds ∧
      ∀ lockUuid, s.phase process = .locked lockUuid → kind.lock row.2 ≠ some lockUuid

/-- A cancel call changes what it reports, or finds it cancelled, and nobody has the row. -/
def CancelsIdle (s : JobState kind) : JobEvent kind → Prop
  | .cancel position => ∀ update ∈ s.cancelling[position]?, ∀ row ∈ s.table.rows,
      kind.reports update row →
        (kind.cancels update row ∨ kind.isCancelled row.2) ∧ s.IsIdle (s.afterCancel update row)
  | _ => True

instance decidableStaysCancelled (s : JobState kind) : Decidable s.StaysCancelled := by
  unfold StaysCancelled
  infer_instance

instance decidableStartsNoCancelled (s : JobState kind) (event : JobEvent kind) :
    Decidable (s.StartsNoCancelled event) :=
  match event with
  | .start position =>
    inferInstanceAs (Decidable (∀ item ∈ s.queue[position]?, kind.itemId item ∉ s.cancelled))
  | .queue _ | .tick _ | .select .. | .lock _ | .readBack .. | .finish .. | .checkCancel _
  | .cancel _ | .retry _ | .delete _ => instDecidableTrue

/-! ## §2 Cancelled rows that nobody has -/

/-- The cancelled rows are cancelled, and nobody has them. -/
structure Settled (s : JobState kind) : Prop where
  cancelled : s.StaysCancelled
  drawn : s.LocksDrawn
  id_lt : ∀ id ∈ s.cancelled, id < s.table.nextId
  notHanded : ∀ id ∈ s.cancelled, id ∉ s.handedOut
  notSelected : ∀ id ∈ s.cancelled, ∀ process, id ∉ (s.phase process).targetIds
  notLocked : ∀ row ∈ s.table.rows, row.1 ∈ s.cancelled → ∀ process lockUuid,
    s.phase process = .locked lockUuid → kind.lock row.2 ≠ some lockUuid

theorem Settled.init : (init : JobState kind).Settled where
  cancelled := nofun
  drawn := nofun
  id_lt := nofun
  notHanded := nofun
  notSelected := nofun
  notLocked := nofun

/-- Frame rule: no cancellation is reported, the cancelled rows stay as they are, and nobody gets
one of them. -/
theorem Settled.frame (h : s.Settled) (hdrawn : t.LocksDrawn)
    (hcancelled : ∀ id ∈ t.cancelled, id ∈ s.cancelled)
    (hnext : s.table.nextId ≤ t.table.nextId)
    (hrows : ∀ row ∈ t.table.rows, row.1 ∈ t.cancelled → row ∈ s.table.rows)
    (hhanded : ∀ id ∈ t.cancelled, id ∈ t.handedOut → id ∈ s.handedOut)
    (hselected : ∀ id ∈ t.cancelled, ∀ process, id ∈ (t.phase process).targetIds →
      id ∈ (s.phase process).targetIds)
    (hlocked : ∀ row ∈ t.table.rows, row.1 ∈ t.cancelled → ∀ process lockUuid,
      t.phase process = .locked lockUuid → kind.lock row.2 = some lockUuid →
      s.phase process = .locked lockUuid) : t.Settled where
  cancelled row hrow hid := h.cancelled row (hrows row hrow hid) (hcancelled _ hid)
  drawn := hdrawn
  id_lt id hid := Nat.lt_of_lt_of_le (h.id_lt id (hcancelled id hid)) hnext
  notHanded id hid hin := h.notHanded id (hcancelled id hid) (hhanded id hid hin)
  notSelected id hid process hin :=
    h.notSelected id (hcancelled id hid) process (hselected id hid process hin)
  notLocked row hrow hid process lockUuid hphase hlock :=
    h.notLocked row (hrows row hrow hid) (hcancelled _ hid) process lockUuid
      (hlocked row hrow hid process lockUuid hphase hlock) hlock

theorem Settled.frame_of_table (h : s.Settled) (hdrawn : t.LocksDrawn)
    (hcancelled : ∀ id ∈ t.cancelled, id ∈ s.cancelled)
    (hnext : s.table.nextId ≤ t.table.nextId)
    (hrows : ∀ row ∈ t.table.rows, row.1 ∈ t.cancelled → row ∈ s.table.rows)
    (hphase : t.phase = s.phase) (hhanded : t.handedOut = s.handedOut) : t.Settled :=
  h.frame hdrawn hcancelled hnext hrows (fun _ _ hin => hhanded ▸ hin)
    (fun _ _ _ hin => hphase ▸ hin) fun _ _ _ _ _ hlocked _ => hphase ▸ hlocked

theorem Settled.notMem_selectedIds (h : s.Settled) {id : Nat} (hid : id ∈ s.cancelled)
    (collector : kind.Collector) : id ∉ s.selectedIds collector := by
  intro hin
  obtain ⟨row, hrow, rfl⟩ := mem_map.mp hin
  obtain ⟨hmem, hselects⟩ := mem_filter.mp hrow
  exact kind.selects_status _ _ _ hselects
    (kind.status_of_isCancelled _ (h.cancelled row hmem hid))

theorem Settled.select (h : s.Settled) (process : Nat) (collector : kind.Collector) :
    (s.step (.select process collector)).Settled := by
  refine h.frame (h.drawn.step (.select process collector)) (fun _ hid => hid) (Nat.le_refl _)
    (fun _ hrow _ => hrow) (fun _ _ hin => hin) ?_ ?_
  · intro id hid process' hin
    by_cases hprocess : process' = process
    · subst hprocess
      simp only [JobState.step, update_self, phaseAfterSelect] at hin
      split at hin
      · cases hin
      · exact absurd hin (h.notMem_selectedIds hid collector)
    · simpa only [JobState.step, update_of_ne hprocess] using hin
  · intro row hrow hid process' lockUuid hlocked _
    exact (phase_of_update (phaseAfterSelect_ne s collector) hlocked).2

/-- The locking `UPDATE` leaves the cancelled rows alone, because none of them is selected. -/
theorem Settled.lock (h : s.Settled) (process : Nat) : (s.lock process).Settled := by
  have hdrawn := h.drawn.step (.lock process)
  simp only [JobState.step] at hdrawn
  unfold JobState.lock at hdrawn ⊢
  cases hphase : s.phase process with
  | idle => exact h
  | locked lockUuid => exact h
  | selected targetIds =>
    simp only [hphase] at hdrawn
    have hnot : ∀ id ∈ s.cancelled, id ∉ targetIds := by
      intro id hid hin
      refine h.notSelected id hid process ?_
      rw [hphase]
      exact hin
    have hrows : ∀ row ∈ (s.lockTargets process targetIds).table.rows,
        row.1 ∈ s.cancelled → row ∈ s.table.rows := by
      intro row hrow hid
      obtain ⟨old, hold, rfl⟩ := Table.mem_rows_updateWhere.mp hrow
      rw [Table.updateRow_fst] at hid
      rw [Table.updateRow, if_neg (by simpa using hnot old.1 hid)]
      exact hold
    refine h.frame hdrawn (fun _ hid => hid) (Nat.le_refl _) hrows (fun _ _ hin => hin) ?_ ?_
    · intro id hid process' hin
      by_cases hprocess : process' = process
      · subst hprocess
        simp only [JobState.lockTargets, update_self, CollectorPhase.targetIds,
          not_mem_nil] at hin
      · simpa only [JobState.lockTargets, update_of_ne hprocess] using hin
    · intro row hrow hid process' lockUuid hlocked hlock
      by_cases hprocess : process' = process
      · -- the new lock is on no cancelled row
        subst hprocess
        simp only [JobState.lockTargets, update_self, CollectorPhase.locked.injEq]
          at hlocked
        subst hlocked
        exact absurd (h.drawn row (hrows row hrow hid) _ hlock) (Nat.lt_irrefl _)
      · simpa only [JobState.lockTargets, update_of_ne hprocess] using hlocked

theorem Settled.readBack (h : s.Settled) (process : Nat) (alerts : List Alert) :
    (s.readBack process alerts).Settled := by
  unfold JobState.readBack
  cases hphase : s.phase process with
  | idle => exact h
  | selected targetIds => exact h
  | locked lockUuid =>
    refine h.frame h.drawn (fun _ hid => hid) (Nat.le_refl _) (fun _ hrow _ => hrow) ?_ ?_ ?_
    · intro id hid hin
      simp only [handedOut, map_append, mem_append, returned, hphase] at hin
      rcases hin with (hqueue | hreturned) | hexecuting
      · exact mem_append.mpr (.inl hqueue)
      · obtain ⟨item, hitem, rfl⟩ := mem_map.mp hreturned
        obtain ⟨row, hrow, hlock, hrowId⟩ := mem_lockedItems hitem
        exact absurd hlock (h.notLocked row hrow (hrowId ▸ hid) process lockUuid hphase)
      · exact mem_append.mpr (.inr hexecuting)
    · intro id hid process' hin
      by_cases hprocess : process' = process
      · subst hprocess
        simp only [update_self, CollectorPhase.targetIds, not_mem_nil] at hin
      · simpa only [update_of_ne hprocess] using hin
    · intro row hrow hid process' lockUuid' hlocked _
      have hne : ∀ lockUuid, CollectorPhase.idle ≠ .locked lockUuid := by simp
      exact (phase_of_update hne hlocked).2

theorem Settled.finish (h : s.Settled) (position : Nat) (outcome : kind.Outcome) :
    (s.finish position outcome).Settled := by
  have hdrawn := h.drawn.step (.finish position outcome)
  simp only [JobState.step] at hdrawn
  unfold JobState.finish at hdrawn ⊢
  cases hwork : s.executing[position]? with
  | none => exact h
  | some work =>
    simp only [hwork] at hdrawn
    have hhanded : kind.itemId work.1 ∈ s.handedOut :=
      mem_append.mpr (.inr (mem_map.mpr ⟨work, mem_of_getElem? hwork, rfl⟩))
    refine h.frame hdrawn (fun _ hid => hid) (Nat.le_refl _) ?_ ?_ (fun _ _ _ hin => hin)
      fun _ _ _ _ _ hlocked _ => hlocked
    · intro row hrow hid
      obtain ⟨old, hold, rfl⟩ := Table.mem_rows_updateWhere.mp hrow
      rw [Table.updateRow_fst] at hid
      have hother : old.1 ≠ kind.itemId work.1 := fun heq =>
        h.notHanded old.1 hid (heq ▸ hhanded)
      rw [Table.updateRow, if_neg (by simpa using hother)]
      exact hold
    · intro id _ hin
      simp only [handedOut, mem_append] at hin ⊢
      exact hin.imp_right mem_handedOut_of_eraseIdx

theorem Settled.cancel (h : s.Settled) (position : Nat)
    (hidle : s.CancelsIdle (.cancel position)) : (s.cancel position).Settled := by
  have hdrawn := h.drawn.step (.cancel position)
  simp only [JobState.step] at hdrawn
  unfold JobState.cancel at hdrawn ⊢
  cases hupdate : s.cancelling[position]? with
  | none => exact h
  | some update =>
    simp only [hupdate] at hdrawn
    have hcall := hidle update hupdate
    -- a row whose cancellation was reported before, or is reported now
    have hreported : ∀ row ∈ s.table.rows, row.1 ∈ s.cancelled ++ s.reported update →
        row.1 ∈ s.cancelled ∨ kind.reports update row := by
      intro row hrow hid
      refine (mem_append.mp hid).imp_right fun hin => ?_
      obtain ⟨row', hrow', hid'⟩ := mem_map.mp hin
      obtain ⟨hmem, hreports⟩ := mem_filter.mp hrow'
      exact s.table.id_inj row' hmem row hrow hid' ▸ hreports
    have hlock : ∀ row : Nat × kind.Row, ∀ lockUuid,
        kind.lock (s.afterCancel update row).2 = some lockUuid →
        kind.lock row.2 = some lockUuid := by
      intro row lockUuid hlock
      unfold afterCancel Table.updateRow at hlock
      split at hlock
      · rcases kind.lock_cancel s.now row.2 with hkept | hreleased
        · exact hkept.symm.trans hlock
        · rw [hreleased] at hlock
          cases hlock
      · exact hlock
    constructor
    case cancelled =>
      intro row hrow hid
      obtain ⟨old, hold, rfl⟩ := Table.mem_rows_updateWhere.mp hrow
      rw [Table.updateRow_fst] at hid
      have hcancelled : kind.cancels update old ∨ kind.isCancelled old.2 :=
        (hreported old hold hid).elim (fun hbefore => .inr (h.cancelled old hold hbefore))
          fun hreports => (hcall old hold hreports).1
      unfold Table.updateRow
      split
      · exact kind.isCancelled_cancel _ _
      · next hnot => exact hcancelled.resolve_left hnot
    case drawn => exact hdrawn
    case id_lt =>
      intro id hid
      rcases mem_append.mp hid with hbefore | hnow
      · exact h.id_lt id hbefore
      · obtain ⟨row, hrow, rfl⟩ := mem_map.mp hnow
        exact s.table.id_lt row (mem_filter.mp hrow).1
    case notHanded =>
      intro id hid
      rcases mem_append.mp hid with hbefore | hnow
      · exact h.notHanded id hbefore
      · obtain ⟨row, hrow, rfl⟩ := mem_map.mp hnow
        obtain ⟨hmem, hreports⟩ := mem_filter.mp hrow
        have hnot := (hcall row hmem hreports).2.1
        rwa [afterCancel, Table.updateRow_fst] at hnot
    case notSelected =>
      intro id hid process
      rcases mem_append.mp hid with hbefore | hnow
      · exact h.notSelected id hbefore process
      · obtain ⟨row, hrow, rfl⟩ := mem_map.mp hnow
        obtain ⟨hmem, hreports⟩ := mem_filter.mp hrow
        have hnot := ((hcall row hmem hreports).2.2 process).1
        rwa [afterCancel, Table.updateRow_fst] at hnot
    case notLocked =>
      intro row hrow hid process lockUuid hphase
      obtain ⟨old, hold, rfl⟩ := Table.mem_rows_updateWhere.mp hrow
      rw [Table.updateRow_fst] at hid
      rcases hreported old hold hid with hbefore | hreports
      · exact fun hlocked => h.notLocked old hold hbefore process lockUuid hphase
          (hlock old lockUuid hlocked)
      · exact ((hcall old hold hreports).2.2 process).2 lockUuid hphase

theorem Settled.retry (h : s.Settled) (ids : List Nat) : (s.retry ids).Settled := by
  refine h.frame_of_table (h.drawn.step (.retry ids)) (fun _ hid => mem_of_mem_filter hid)
    (Nat.le_refl _) ?_ rfl rfl
  intro row hrow hid
  obtain ⟨old, hold, rfl⟩ := Table.mem_rows_updateWhere.mp hrow
  rw [Table.updateRow_fst] at hid
  have hkept := (mem_filter.mp hid).2
  simp only [notRetried, Bool.not_eq_true', any_eq_false, decide_eq_true_eq, not_and] at hkept
  rw [Table.updateRow, if_neg (hkept old hold rfl)]
  exact hold

theorem Settled.step (h : s.Settled) (event : JobEvent kind) (hidle : s.CancelsIdle event) :
    (s.step event).Settled := by
  cases event with
  | queue request =>
    refine h.frame_of_table (h.drawn.step (.queue request)) (fun _ hid => hid)
      (Nat.le_succ _) ?_ rfl rfl
    intro row hrow hid
    rcases Table.mem_rows_insert.mp hrow with hrow | rfl
    · exact hrow
    · exact absurd (h.id_lt _ hid) (Nat.lt_irrefl _)
  | tick seconds =>
    exact h.frame_of_table h.drawn (fun _ hid => hid) (Nat.le_refl _) (fun _ hrow _ => hrow) rfl rfl
  | select process collector => exact h.select process collector
  | lock process => exact h.lock process
  | readBack process alerts => exact h.readBack process alerts
  | start position =>
    have hsame : ∀ id, id ∈ (s.start position).handedOut → id ∈ s.handedOut := fun _ =>
      mem_handedOut_start.mp
    simp only [JobState.step]
    unfold JobState.start at hsame ⊢
    cases hitem : s.queue[position]? with
    | none => exact h
    | some item =>
      simp only [hitem] at hsame
      exact h.frame h.drawn (fun _ hid => hid) (Nat.le_refl _) (fun _ hrow _ => hrow)
        (fun id _ => hsame id) (fun _ _ _ hin => hin) fun _ _ _ _ _ hlocked _ => hlocked
  | finish position outcome => exact h.finish position outcome
  | checkCancel call =>
    exact h.frame_of_table h.drawn (fun _ hid => hid) (Nat.le_refl _) (fun _ hrow _ => hrow) rfl rfl
  | cancel position => exact h.cancel position hidle
  | retry ids => exact h.retry ids
  | delete ids =>
    exact h.frame_of_table (h.drawn.step (.delete ids)) (fun _ hid => hid) (Nat.le_refl _)
      (fun _ hrow _ => (Table.mem_rows_deleteWhere.mp hrow).1) rfl rfl

theorem Settled.startsNoCancelled (h : s.Settled) (event : JobEvent kind) :
    s.StartsNoCancelled event := by
  cases event with
  | start position =>
    intro item hitem hid
    refine h.notHanded _ hid (mem_append.mpr (.inl ?_))
    exact mem_map.mpr ⟨item, mem_of_getElem? hitem, rfl⟩
  | _ => trivial

end JobState

/-! ## §3 Final and not final -/

open JobState

/-- **Cancellations are final**: in every run in which each cancel call changes what it reports and
nobody has these rows at the time of its `UPDATE`, no worker starts on a row whose cancellation was
reported, and the row stays cancelled until it is retried. -/
theorem cancellations_are_final (table : JobTable) (events : List (JobEvent table.kind))
    (h : Along JobState.step CancelsIdle (init : JobState table.kind) events) :
    Along JobState.step StartsNoCancelled (init : JobState table.kind) events ∧
      (events.foldl JobState.step (init : JobState table.kind)).StaysCancelled := by
  have hstep : ∀ (s : JobState table.kind) (event : JobEvent table.kind), s.Settled →
      s.CancelsIdle event → (s.step event).Settled := fun _ event hsettled hidle =>
    hsettled.step event hidle
  constructor
  · exact h.of_invariant Settled hstep (fun _ event hsettled _ => hsettled.startsNoCancelled event)
      .init
  · exact (h.invariant Settled hstep .init).cancelled

def cancelBeforeCollection : List (JobEvent fileCollections) :=
  [.queue hostFileRequest, .checkCancel (1 : Nat), .cancel 0, .select 0 { listeners := ["falcon"] },
    .lock 0, .readBack 0 requestAlerts, .start 0]

/-- The cancelled file collection is neither executed nor changed. -/
theorem cancellations_are_final_unseen :
    Along JobState.step StartsNoCancelled (init : JobState fileCollections)
        cancelBeforeCollection ∧
      (cancelBeforeCollection.foldl JobState.step
        (init : JobState fileCollections)).StaysCancelled := by
  have hidle : Along JobState.step CancelsIdle (init : JobState fileCollections)
      cancelBeforeCollection := by
    refine ⟨trivial, trivial, ?_, trivial, trivial, trivial, trivial, trivial⟩
    intro update _ row _ hreports
    -- no collector has started and no queue has an item
    exact ⟨.inl hreports, nofun, fun _ => ⟨nofun, nofun⟩⟩
  exact cancellations_are_final .fileCollection cancelBeforeCollection hidle

/-- A row is collected, cancelled while its item waits in a queue, and taken by a worker. -/
def cancelWhileQueued {kind : JobKind} (request : kind.Request) (collector : kind.Collector)
    (call : kind.CancelCall) : List (JobEvent kind) :=
  [.queue request, .select 0 collector, .lock 0, .readBack 0 requestAlerts, .checkCancel call,
    .cancel 0, .start 0]

/-- In each table a worker executes a row whose cancellation was reported before it started. -/
theorem cancelled_row_is_started : ∀ table : JobTable,
    ¬ ∀ events : List (JobEvent table.kind),
      Along JobState.step StartsNoCancelled (init : JobState table.kind) events ∧
        (events.foldl JobState.step (init : JobState table.kind)).StaysCancelled := by
  intro table h
  cases table with
  | remediation =>
    have hrun : Along JobState.step StartsNoCancelled (init : JobState remediations)
        (cancelWhileQueued emailRemovalRequest { listeners := ["mailbox"] } (.remediations [1])) :=
      (h _).1
    revert hrun
    decide
  | fileCollection =>
    have hrun : Along JobState.step StartsNoCancelled (init : JobState fileCollections)
        (cancelWhileQueued hostFileRequest { listeners := ["falcon"] } (1 : Nat)) :=
      (h _).1
    revert hrun
    decide
  | externalRemediationCheck =>
    have hrun : Along JobState.step StartsNoCancelled (init : JobState externalChecks)
        (cancelWhileQueued emailCheckRequest { listeners := [("vendor", none)] }
          (.externalCheck 1)) :=
      (h _).1
    revert hrun
    decide

theorem cancelled_row_is_executed :
    ¬ ∀ (table : JobTable) (events : List (JobEvent table.kind)),
      Along JobState.step StartsNoCancelled (init : JobState table.kind) events ∧
        (events.foldl JobState.step (init : JobState table.kind)).StaysCancelled :=
  fun h => cancelled_row_is_started .remediation (h .remediation)

end Ace3.Remediation
