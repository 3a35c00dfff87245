import Ace3.Remediation.HandOut

/-!
# Which File Collections Are Pending

Before a file collection is queued, the callers look for a pending one to attach to: one that is
`NEW` or `IN_PROGRESS`. To the collector a row means anything only before its cutoff, a fixed time
after it was inserted. A row past its cutoff that no worker has stays pending for ever, and
everybody who asks for the same file attaches to it.
-/

namespace Ace3.Remediation

open Lib Lib.Runs

/-! ## §1 The lookups -/

def FileCollection.isPending (row : FileCollection) : Bool :=
  row.status = .new ∨ row.status = .inProgress

def isPendingFor (collectorName observableType observableValue : String)
    (row : Nat × FileCollection) : Bool :=
  row.2.name = collectorName ∧ row.2.type = observableType ∧ row.2.key = observableValue ∧
    row.2.isPending

/-- `get_pending_file_collection_by_observable`: the newest request of an alert, or the oldest
request of any alert. -/
def getPendingFileCollectionByObservable (table : Table FileCollection)
    (collectorName observableType observableValue : String) (alertUuid : Option String) :
    Option (Nat × FileCollection) :=
  match alertUuid with
  | some alertUuid => table.last? fun row =>
      isPendingFor collectorName observableType observableValue row ∧ row.2.alertUuid = alertUuid
  | none => table.first? (isPendingFor collectorName observableType observableValue)

/-- The row is a pending request for the same observable, made before the other. -/
def isEarlierThan (own row : Nat × FileCollection) : Bool :=
  isPendingFor own.2.name own.2.type own.2.key row ∧ row.1 < own.1

def FileCollection.isUntouched (row : FileCollection) : Bool :=
  row.status = .new ∧ row.lock = none

/-- `resolve_duplicate_pending_file_collection`: the id to attach to, and the table without the
request that was made in vain. -/
def resolveDuplicatePendingFileCollection (table : Table FileCollection) (collectionId : Nat) :
    Nat × Table FileCollection :=
  match table.first? (·.1 = collectionId) with
  | none => (collectionId, table)
  | some own =>
    match table.first? (isEarlierThan own) with
    | none => (collectionId, table)
    | some earlier =>
      if own.2.isUntouched then (earlier.1, table.deleteWhere (·.1 = collectionId))
      else (collectionId, table)

namespace JobState

def IsWithWorker (s : JobState fileCollections) (row : Nat × FileCollection) : Prop :=
  row.2.lock.isSome ∧ (row.1 ∈ s.handedOut ∨
    ∃ process lockUuid, s.phase process = .locked lockUuid ∧ row.2.lock = some lockUuid)

def IsAlive (s : JobState fileCollections) (collector : FileCollectionCollector)
    (row : Nat × FileCollection) : Prop :=
  collector.listeners.contains row.2.name →
    s.IsWithWorker row ∨ ∃ later, s.now ≤ later ∧ collector.selects later row.2

def ReportsAlive (s : JobState fileCollections) (collector : FileCollectionCollector)
    (collectorName observableType observableValue : String) (alertUuid : Option String) : Prop :=
  ∀ row, getPendingFileCollectionByObservable s.table collectorName observableType observableValue
    alertUuid = some row → s.IsAlive collector row

/-- What the second lookup returns is the id of a row, and the row is alive. -/
def ResolvesAlive (s : JobState fileCollections) (collector : FileCollectionCollector)
    (collectionId : Nat) : Prop :=
  ∃ row ∈ (resolveDuplicatePendingFileCollection s.table collectionId).2.rows,
    row.1 = (resolveDuplicatePendingFileCollection s.table collectionId).1 ∧
      s.IsAlive collector row

end JobState

/-! ## §2 When a row can still be selected -/

namespace FileCollectionCollector

variable {collector : FileCollectionCollector} {row : FileCollection} {now : Nat}

def lockEnd (collector : FileCollectionCollector) (row : FileCollection) : Nat :=
  match row.lock, row.lockTime with
  | some _, some lockTime => lockTime + collector.lockTimeoutSeconds
  | _, _ => 0

def delayEnd (collector : FileCollectionCollector) (row : FileCollection) : Nat :=
  match row.updateTime with
  | some updateTime => updateTime + collector.requiredDelay row
  | none => 0

/-- The first time from `now` on at which neither lock nor delay is in the way. -/
def readyTime (collector : FileCollectionCollector) (now : Nat) (row : FileCollection) : Nat :=
  max now (max (collector.lockEnd row) (collector.delayEnd row))

def isReadyBeforeCutoff (collector : FileCollectionCollector) (now : Nat) (row : FileCollection) :
    Bool :=
  row.status ≠ .completed ∧
    collector.readyTime now row < row.insertDate + collector.maxCollectionTimeSeconds

theorem lockFilter_iff (htimed : row.lock.isSome → row.lockTime.isSome) :
    (row.lock.isNone || hasElapsed now row.lockTime collector.lockTimeoutSeconds) = true ↔
      collector.lockEnd row ≤ now := by
  unfold lockEnd hasElapsed
  cases hlock : row.lock with
  | none => simp
  | some lockUuid =>
    rw [hlock] at htimed
    obtain ⟨lockTime, htime⟩ := Option.isSome_iff_exists.mp (htimed rfl)
    simp [htime]

theorem delayFilter_iff :
    isPastDelay now row.updateTime (collector.requiredDelay row) = true ↔
      collector.delayEnd row ≤ now := by
  unfold delayEnd isPastDelay hasElapsed
  cases row.updateTime <;> simp

theorem selects_iff (htimed : row.lock.isSome → row.lockTime.isSome) :
    collector.selects now row ↔
      collector.listeners.contains row.name ∧ row.status ≠ .completed ∧
        collector.lockEnd row ≤ now ∧ collector.delayEnd row ≤ now ∧
        now < row.insertDate + collector.maxCollectionTimeSeconds := by
  unfold selects
  rw [Bool.and_eq_true, Bool.and_eq_true, Bool.and_eq_true, Bool.and_eq_true,
    lockFilter_iff htimed, delayFilter_iff, decide_eq_true_eq, decide_eq_true_eq]
  tauto

theorem exists_selects_iff (htimed : row.lock.isSome → row.lockTime.isSome)
    (hregistered : collector.listeners.contains row.name) :
    (∃ later, now ≤ later ∧ collector.selects later row) ↔
      collector.isReadyBeforeCutoff now row := by
  unfold isReadyBeforeCutoff
  rw [decide_eq_true_eq]
  constructor
  · rintro ⟨later, hlater, hselects⟩
    obtain ⟨_, hstatus, hlock, hdelay, hcutoff⟩ := (selects_iff htimed).mp hselects
    refine ⟨hstatus, Nat.lt_of_le_of_lt ?_ hcutoff⟩
    exact max_le hlater (max_le hlock hdelay)
  · rintro ⟨hstatus, hcutoff⟩
    -- the row is selected as soon as it is ready
    refine ⟨collector.readyTime now row, le_max_left _ _, (selects_iff htimed).mpr ?_⟩
    exact ⟨hregistered, hstatus, (le_max_left _ _).trans (le_max_right _ _),
      (le_max_right _ _).trans (le_max_right _ _), hcutoff⟩

end FileCollectionCollector

/-! ## §3 Locked rows have a lock time -/

namespace JobState

variable {s : JobState fileCollections}

def LocksTimed (s : JobState fileCollections) : Prop :=
  ∀ row ∈ s.table.rows, row.2.lock.isSome → row.2.lockTime.isSome

theorem locksTimed_updateWhere {table : Table FileCollection}
    {condition : Nat × FileCollection → Bool} {set : FileCollection → FileCollection}
    (h : ∀ row ∈ table.rows, row.2.lock.isSome → row.2.lockTime.isSome)
    (hset : ∀ row ∈ table.rows, (set row.2).lock.isSome → (set row.2).lockTime.isSome) :
    ∀ row ∈ (table.updateWhere condition set).rows, row.2.lock.isSome →
      row.2.lockTime.isSome := by
  intro row hrow
  obtain ⟨old, hold, rfl⟩ := Table.mem_rows_updateWhere.mp hrow
  unfold Table.updateRow
  split
  · exact hset old hold
  · exact h old hold

theorem LocksTimed.step (h : s.LocksTimed) (event : JobEvent fileCollections) :
    (s.step event).LocksTimed := by
  cases event with
  | queue request =>
    intro row hrow hlock
    rcases Table.mem_rows_insert.mp hrow with hrow | rfl
    · exact h row hrow hlock
    · cases hlock
  | lock process =>
    show (s.lock process).LocksTimed
    unfold JobState.lock
    split
    · exact locksTimed_updateWhere h fun _ _ _ => rfl
    · exact h
  | readBack process alerts =>
    show (s.readBack process alerts).LocksTimed
    unfold JobState.readBack
    split <;> exact h
  | start position =>
    show (s.start position).LocksTimed
    unfold JobState.start
    split <;> exact h
  | finish position outcome =>
    show (s.finish position outcome).LocksTimed
    unfold JobState.finish
    split
    · exact locksTimed_updateWhere h fun _ _ hlock => nomatch hlock
    · exact h
  | cancel position =>
    show (s.cancel position).LocksTimed
    unfold JobState.cancel
    split
    · exact locksTimed_updateWhere h h
    · exact h
  | retry ids => exact locksTimed_updateWhere h fun _ _ hlock => nomatch hlock
  | delete ids => exact fun row hrow => h row (Table.mem_rows_deleteWhere.mp hrow).1
  | _ => exact h

theorem locksTimed_run (events : List (JobEvent fileCollections)) :
    (events.foldl JobState.step init).LocksTimed := by
  have hrun : ∀ (s : JobState fileCollections), s.LocksTimed →
      (events.foldl JobState.step s).LocksTimed := by
    induction events with
    | nil => exact fun _ h => h
    | cons event events ih => exact fun s h => ih (s.step event) (h.step event)
  exact hrun init fun row hrow => absurd hrow List.not_mem_nil

/-! ## §4 What the lookups return -/

def MayRun (s : JobState fileCollections) (collector : FileCollectionCollector)
    (row : Nat × FileCollection) : Prop :=
  collector.listeners.contains row.2.name →
    s.IsWithWorker row ∨ collector.isReadyBeforeCutoff s.now row.2

theorem LocksTimed.isAlive_iff (h : s.LocksTimed) {collector : FileCollectionCollector}
    {row : Nat × FileCollection} (hrow : row ∈ s.table.rows) :
    s.IsAlive collector row ↔ s.MayRun collector row := by
  unfold IsAlive MayRun
  refine forall_congr' fun hregistered => or_congr_right ?_
  exact FileCollectionCollector.exists_selects_iff (h row hrow) hregistered

end JobState

/-- The row is the newest pending request of the alert, or the oldest one of any alert. -/
def IsReported (table : Table FileCollection)
    (collectorName observableType observableValue : String) (alertUuid : Option String)
    (row : Nat × FileCollection) : Prop :=
  row ∈ table.rows ∧ isPendingFor collectorName observableType observableValue row ∧
    match alertUuid with
    | some alertUuid => row.2.alertUuid = alertUuid ∧ ∀ other ∈ table.rows,
        isPendingFor collectorName observableType observableValue other →
          other.2.alertUuid = alertUuid → other.1 ≤ row.1
    | none => ∀ other ∈ table.rows,
        isPendingFor collectorName observableType observableValue other → row.1 ≤ other.1

/-- The row is the oldest earlier request, if the own request is untouched and there is an earlier
one, and the own request otherwise. -/
def IsAttachedTo (table : Table FileCollection) (own row : Nat × FileCollection) : Prop :=
  (own.2.isUntouched ∧ isEarlierThan own row ∧
      ∀ other ∈ table.rows, isEarlierThan own other → row.1 ≤ other.1) ∨
    (row = own ∧ ¬ (own.2.isUntouched ∧ ∃ other ∈ table.rows, isEarlierThan own other))

variable {table : Table FileCollection} {row : Nat × FileCollection}

theorem getPendingFileCollectionByObservable_eq_some_iff
    {collectorName observableType observableValue : String} {alertUuid : Option String} :
    getPendingFileCollectionByObservable table collectorName observableType observableValue
      alertUuid = some row ↔
      IsReported table collectorName observableType observableValue alertUuid row := by
  unfold getPendingFileCollectionByObservable IsReported
  cases alertUuid with
  | none => simp only [Table.first?_eq_some_iff, and_assoc]
  | some alertUuid => simp only [Table.last?_eq_some_iff, decide_eq_true_eq, and_assoc, and_imp]

theorem first?_id_eq_some_iff {id : Nat} :
    table.first? (·.1 = id) = some row ↔ row ∈ table.rows ∧ row.1 = id := by
  rw [Table.first?_eq_some_iff, decide_eq_true_eq]
  refine ⟨fun h => h.1, fun h => ⟨h, fun other _ hother => ?_⟩⟩
  rw [h.2, of_decide_eq_true hother]

theorem exists_resolved_iff {P : Nat × FileCollection → Prop} {own : Nat × FileCollection}
    (hown : own ∈ table.rows) :
    (∃ row ∈ (resolveDuplicatePendingFileCollection table own.1).2.rows,
        row.1 = (resolveDuplicatePendingFileCollection table own.1).1 ∧ P row) ↔
      ∀ row ∈ table.rows, IsAttachedTo table own row → P row := by
  have hfound : table.first? (·.1 = own.1) = some own :=
    first?_id_eq_some_iff.mpr ⟨hown, rfl⟩
  -- the own request is what the caller is attached to
  have hkeeps : (¬ (own.2.isUntouched ∧ ∃ other ∈ table.rows, isEarlierThan own other)) →
      ((∃ row ∈ table.rows, row.1 = own.1 ∧ P row) ↔
        ∀ row ∈ table.rows, IsAttachedTo table own row → P row) := by
    intro hkept
    constructor
    · rintro ⟨row, hrow, hid, hP⟩ row' hrow' hattached
      rcases hattached with ⟨huntouched, hearlier, _⟩ | ⟨rfl, _⟩
      · exact absurd ⟨huntouched, row', hrow', hearlier⟩ hkept
      · exact table.id_inj row hrow row' hown hid ▸ hP
    · exact fun hall => ⟨own, hown, rfl, hall own hown (.inr ⟨rfl, hkept⟩)⟩
  unfold resolveDuplicatePendingFileCollection
  simp only [hfound]
  cases hfirst : table.first? (isEarlierThan own) with
  | none =>
    refine hkeeps fun hboth => ?_
    obtain ⟨other, hother, hearlier⟩ := hboth.2
    exact Table.first?_eq_none_iff.mp hfirst other hother hearlier
  | some earlier =>
    obtain ⟨⟨hmem, hearlier⟩, hleast⟩ := Table.first?_eq_some_iff.mp hfirst
    simp only
    split
    · next huntouched =>
      have hlt : earlier.1 < own.1 := (of_decide_eq_true hearlier).2
      constructor
      · rintro ⟨row, hrow, hid, hP⟩ row' hrow' hattached
        obtain ⟨hrow, _⟩ := Table.mem_rows_deleteWhere.mp hrow
        have hsame : row = earlier := table.id_inj row hrow earlier hmem hid
        rcases hattached with ⟨_, hearlier', hleast'⟩ | ⟨_, hkept⟩
        · -- both are the oldest earlier request
          have hid' : row'.1 = earlier.1 :=
            Nat.le_antisymm (hleast' earlier hmem hearlier) (hleast row' hrow' hearlier')
          rw [table.id_inj row' hrow' earlier hmem hid', ← hsame]
          exact hP
        · exact absurd ⟨huntouched, earlier, hmem, hearlier⟩ hkept
      · intro hall
        refine ⟨earlier, Table.mem_rows_deleteWhere.mpr ⟨hmem, ?_⟩, rfl, ?_⟩
        · simpa using Nat.ne_of_lt hlt
        · exact hall earlier hmem (.inl ⟨huntouched, hearlier, hleast⟩)
    · next htouched => exact hkeeps fun hboth => htouched hboth.1

theorem not_exists_resolved {P : Nat × FileCollection → Prop} {collectionId : Nat}
    (h : ∀ row ∈ table.rows, row.1 ≠ collectionId) :
    ¬ ∃ row ∈ (resolveDuplicatePendingFileCollection table collectionId).2.rows,
        row.1 = (resolveDuplicatePendingFileCollection table collectionId).1 ∧ P row := by
  have hfound : table.first? (·.1 = collectionId) = none :=
    Table.first?_eq_none_iff.mpr fun row hrow hid => h row hrow (of_decide_eq_true hid)
  unfold resolveDuplicatePendingFileCollection
  simp only [hfound]
  rintro ⟨row, hrow, hid, _⟩
  exact h row hrow hid

open JobState

/-- **Pending means alive, exactly under the condition**: after any history, a lookup returns a row
that is with a worker or will still be selected if and only if the pending row it is for is with a
worker, or is ready before its cutoff. -/
theorem pending_lookups_alive_iff (events : List (JobEvent fileCollections))
    (collector : FileCollectionCollector) :
    (∀ collectorName observableType observableValue alertUuid,
      (events.foldl JobState.step init).ReportsAlive collector collectorName observableType
          observableValue alertUuid ↔
        ∀ row, IsReported (events.foldl JobState.step init).table collectorName observableType
          observableValue alertUuid row →
            (events.foldl JobState.step init).MayRun collector row) ∧
      ∀ collectionId,
        (events.foldl JobState.step init).ResolvesAlive collector collectionId ↔
          ∃ own ∈ (events.foldl JobState.step init).table.rows, own.1 = collectionId ∧
            ∀ row ∈ (events.foldl JobState.step init).table.rows,
              IsAttachedTo (events.foldl JobState.step init).table own row →
                (events.foldl JobState.step init).MayRun collector row := by
  have htimed := locksTimed_run events
  generalize events.foldl JobState.step init = s at htimed ⊢
  constructor
  · intro collectorName observableType observableValue alertUuid
    refine forall_congr' fun row => ?_
    refine imp_congr_ctx getPendingFileCollectionByObservable_eq_some_iff fun hreported => ?_
    exact htimed.isAlive_iff hreported.1
  · intro collectionId
    by_cases hown : ∃ own ∈ s.table.rows, own.1 = collectionId
    · obtain ⟨own, hown, rfl⟩ := hown
      refine (exists_resolved_iff hown).trans ?_
      constructor
      · intro hall
        refine ⟨own, hown, rfl, fun row hrow hattached => ?_⟩
        exact (htimed.isAlive_iff hrow).mp (hall row hrow hattached)
      · rintro ⟨own', hown', hid, hall⟩ row hrow hattached
        rw [s.table.id_inj own' hown' own hown hid] at hall
        exact (htimed.isAlive_iff hrow).mpr (hall row hrow hattached)
    · refine iff_of_false (not_exists_resolved fun row hrow hid => hown ⟨row, hrow, hid⟩) ?_
      rintro ⟨own, hmem, hid, _⟩
      exact hown ⟨own, hmem, hid⟩

theorem not_reportsAlive {s : JobState fileCollections} {collector : FileCollectionCollector}
    {collectorName observableType observableValue : String} {alertUuid : Option String}
    (hfound : getPendingFileCollectionByObservable s.table collectorName observableType
      observableValue alertUuid = some row)
    (hregistered : collector.listeners.contains row.2.name) (hunlocked : row.2.lock = none)
    (hdead : ¬ collector.isReadyBeforeCutoff s.now row.2) :
    ¬ s.ReportsAlive collector collectorName observableType observableValue alertUuid := by
  intro h
  have htimed : row.2.lock.isSome → row.2.lockTime.isSome := fun hlock => by
    rw [hunlocked] at hlock
    cases hlock
  rcases h row hfound hregistered with hworker | hlater
  · exact absurd hworker.1 (by simp [hunlocked])
  · exact hdead ((FileCollectionCollector.exists_selects_iff htimed hregistered).mp hlater)

/-- A request is queued, no collector comes by for a week, and the request is made again. -/
def requestAgainAfterAWeek : List (JobEvent fileCollections) :=
  [.queue hostFileRequest, .tick 604800, .queue hostFileRequest]

/-- Both lookups return the old row, which no collector will ever select. -/
theorem dead_row_is_reported_pending :
    ¬ ∀ (events : List (JobEvent fileCollections)) (collector : FileCollectionCollector),
      (∀ collectorName observableType observableValue alertUuid,
        (events.foldl JobState.step init).ReportsAlive collector collectorName observableType
          observableValue alertUuid) ∧
      ∀ row ∈ (events.foldl JobState.step init).table.rows,
        (events.foldl JobState.step init).ResolvesAlive collector row.1 := by
  intro h
  have hfound : getPendingFileCollectionByObservable
      (requestAgainAfterAWeek.foldl JobState.step init).table "falcon" "file_location"
      "host@/tmp/sample" none = some (1, queueFileCollection 0 hostFileRequest) := by
    decide
  have hdead : ¬ FileCollectionCollector.isReadyBeforeCutoff { listeners := ["falcon"] }
      (requestAgainAfterAWeek.foldl JobState.step init).now
      (queueFileCollection 0 hostFileRequest) := by
    decide
  have hregistered : ({ listeners := ["falcon"] } : FileCollectionCollector).listeners.contains
      (queueFileCollection 0 hostFileRequest).name := by
    decide
  exact not_reportsAlive hfound hregistered rfl hdead
    ((h requestAgainAfterAWeek { listeners := ["falcon"] }).1 _ _ _ _)

end Ace3.Remediation
