import Ace3.Engine.WorkloadProtocol
import Ace3.Lib.Runs

/-!
# At Most One Execution of a Row

A row of `delayed_analysis` or of `workload` should be executed once: while a worker has it,
and after it has cleared it, nobody else may be handed it. `get_work_target` selects the row again
once it holds the lock; `get_delayed_analysis_work_target` hands out the row as it was listed.
-/

namespace Ace3.Engine

open Lib
open Lib.Runs
open Database

/-! ## §1 Rows in hand -/

inductive RowKey where
  | delayed (id : Nat)
  | workload (id : Nat)
  deriving DecidableEq

/-- There was such a row, and there never will be again. -/
def RowKey.Gone (tables : WorkTables) : RowKey → Prop
  | .delayed id => tables.delayedAnalysis.Gone id
  | .workload id => tables.workload.Gone id

def WorkTarget.key : WorkTarget → RowKey
  | delayed row => .delayed row.1
  | root row _ => .workload row.1

namespace WorkerPhase

@[simp] def lockedRoot : WorkerPhase → Option RootUuid
  | verify row _ | releaseStale row _ => some row.2.uuid
  | execute target _ => some target.uuid
  | release uuid => some uuid
  | idle | tryDelayed _ | acquireDelayed _ _ _ | tryWork _ | acquireWork _ _ _ => none

/-- The rows of `delayed_analysis` that a worker in this phase may still act on. -/
@[simp] def delayedRows : WorkerPhase → List DelayedRow
  | tryDelayed rows => rows
  | acquireDelayed row rest _ => row :: rest
  | execute (.delayed row) _ => [row]
  | _ => []

/-- The rows of `workload` that a worker in this phase may still act on. -/
@[simp] def workRows : WorkerPhase → List WorkloadRow
  | tryWork rows => rows
  | acquireWork row rest _ | verify row rest => row :: rest
  | releaseStale _ rest => rest
  | execute (.root row _) _ => [row]
  | _ => []

end WorkerPhase

/-- Later tables: what was issued stays issued, and what is gone stays gone. -/
structure LaterTables (tables tables' : WorkTables) : Prop where
  issuedDelayed (row : DelayedRow) (h : tables.delayedAnalysis.Issued row) :
    tables'.delayedAnalysis.Issued row
  issuedWork (row : WorkloadRow) (h : tables.workload.Issued row) : tables'.workload.Issued row
  gone (key : RowKey) (h : key.Gone tables) : key.Gone tables'

namespace LaterTables

variable {tables tables' tables'' : WorkTables}

theorem refl : LaterTables tables tables := ⟨fun _ h => h, fun _ h => h, fun _ h => h⟩

theorem trans (h : LaterTables tables tables') (h' : LaterTables tables' tables'') :
    LaterTables tables tables'' :=
  ⟨fun row hrow => h'.issuedDelayed row (h.issuedDelayed row hrow),
    fun row hrow => h'.issuedWork row (h.issuedWork row hrow),
    fun key hkey => h'.gone key (h.gone key hkey)⟩

theorem insertWorkload (item : WorkloadItem) : LaterTables tables (tables.insertWorkload item) := by
  unfold WorkTables.insertWorkload
  split
  · exact refl
  · refine ⟨fun _ h => h, fun _ h => h.insert item, fun key h => ?_⟩
    cases key with
    | delayed id => exact h
    | workload id => exact Table.Gone.insert h item

theorem setDispositions (alertUuids : List RootUuid) (disposition : String) :
    LaterTables tables (tables.setDispositions alertUuids disposition) := by
  unfold WorkTables.setDispositions
  split
  · exact List.foldlRecOn (motive := LaterTables tables) alertUuids _ refl
      fun _ h _ _ => h.trans (insertWorkload _)
  · exact refl

theorem addDelayedAnalysisRequest (request : DelayedAnalysis) :
    LaterTables tables (tables.addDelayedAnalysisRequest request) := by
  refine ⟨fun _ h => h.insert request, fun _ h => h, fun key h => ?_⟩
  cases key with
  | delayed id => exact Table.Gone.insert h request
  | workload id => exact h

theorem deleteDelayed (condition : DelayedRow → Bool) :
    LaterTables tables
      { tables with delayedAnalysis := tables.delayedAnalysis.deleteWhere condition } := by
  refine ⟨fun _ h => h.deleteWhere condition, fun _ h => h, fun key h => ?_⟩
  cases key with
  | delayed id => exact Table.Gone.deleteWhere h condition
  | workload id => exact h

theorem deleteWork (condition : WorkloadRow → Bool) :
    LaterTables tables { tables with workload := tables.workload.deleteWhere condition } := by
  refine ⟨fun _ h => h, fun _ h => h.deleteWhere condition, fun key h => ?_⟩
  cases key with
  | delayed id => exact h
  | workload id => exact Table.Gone.deleteWhere h condition

theorem clear (target : WorkTarget) (loaded : Option AnalysisMode) :
    LaterTables tables (target.clear loaded tables) := by
  cases target with
  | delayed row => exact deleteDelayed _
  | root row analysisMode => exact deleteWork _

end LaterTables

/-! ## §2 Histories and the invariant -/

/-- The site, and the keys of the rows that a worker was handed, executed and cleared. -/
structure WorkHistory where
  site : Site
  done : List RowKey

namespace WorkHistory

def init : WorkHistory := ⟨.init, []⟩

def doneAfter (h : WorkHistory) : WorkEvent → List RowKey
  | .clear w =>
    match h.site.phase w with
    | .execute target _ => target.key :: h.done
    | _ => h.done
  | _ => h.done

def step (defaultAnalysisMode : AnalysisMode) (h : WorkHistory) (e : WorkEvent) : WorkHistory :=
  ⟨h.site.step defaultAnalysisMode e, h.doneAfter e⟩

/-- The row a worker is handed in this event is not done, and no other worker has it. -/
def AtMostOnce (defaultAnalysisMode : AnalysisMode) (h : WorkHistory) (e : WorkEvent) : Prop :=
  ∀ w target, (h.site.step defaultAnalysisMode e).phase w = .execute target none →
    h.site.phase w ≠ .execute target none →
    target.key ∉ h.done ∧
      ∀ w' target' loaded, w' ≠ w → h.site.phase w' = .execute target' loaded →
        target'.key ≠ target.key

/-- A listed delayed request is still in its table when the `INSERT` for its free lock is issued,
and a root is cleared in the analysis mode of its workload row. -/
def rowsHold (h : WorkHistory) : WorkEvent → Bool
  | .proceed w =>
    match h.site.phase w with
    | .tryDelayed (row :: _) | .acquireDelayed row _ .insert =>
      h.site.locks row.2.uuid = none → row ∈ h.site.tables.delayedAnalysis.rows
    | _ => true
  | .clear w =>
    match h.site.phase w with
    | .execute (.root row analysisMode) loaded =>
      (WorkTarget.root row analysisMode).originalAnalysisMode loaded = some row.2.analysisMode
    | _ => true
  | _ => true

/-- Exactly who has acquired a lock is its holder, the rows in hand were issued, and the rows that
are done are gone. -/
structure Orderly (h : WorkHistory) : Prop where
  locked : ∀ w uuid, (h.site.phase w).lockedRoot = some uuid ↔
    h.site.locks.getLockUuid uuid = some (.worker w)
  issuedDelayed : ∀ w, ∀ row ∈ (h.site.phase w).delayedRows,
    h.site.tables.delayedAnalysis.Issued row
  issuedWork : ∀ w, ∀ row ∈ (h.site.phase w).workRows, h.site.tables.workload.Issued row
  gone : ∀ key ∈ h.done, key.Gone h.site.tables

theorem orderly_init : Orderly init where
  locked := fun _ _ => ⟨nofun, nofun⟩
  issuedDelayed := by rintro w row ⟨⟩
  issuedWork := by rintro w row ⟨⟩
  gone := by rintro key ⟨⟩

section Update

variable {h : WorkHistory}

theorem Orderly.setTables (hinv : Orderly h) {tables : WorkTables} {done : List RowKey}
    (hlater : LaterTables h.site.tables tables) (hdone : ∀ key ∈ done, key ∈ h.done ∨ key.Gone tables) :
    Orderly ⟨h.site.setTables tables, done⟩ where
  locked := hinv.locked
  issuedDelayed := fun w row hrow => hlater.issuedDelayed row (hinv.issuedDelayed w row hrow)
  issuedWork := fun w row hrow => hlater.issuedWork row (hinv.issuedWork w row hrow)
  gone := fun key hkey => (hdone key hkey).elim (fun h => hlater.gone key (hinv.gone key h)) id

variable {phase : WorkerPhase} {w : Nat}

/-- One worker may go on to a phase that matches the lock it holds afterwards, with rows that
were issued, as long as the locks of others stay theirs. -/
theorem Orderly.setPhase (hinv : Orderly h) {locks : Locks}
    (hothers : ∀ uuid w', w' ≠ w → (locks.getLockUuid uuid = some (.worker w') ↔
      h.site.locks.getLockUuid uuid = some (.worker w')))
    (hlocked : ∀ uuid, phase.lockedRoot = some uuid ↔
      locks.getLockUuid uuid = some (.worker w))
    (hdelayed : ∀ row ∈ phase.delayedRows, h.site.tables.delayedAnalysis.Issued row)
    (hwork : ∀ row ∈ phase.workRows, h.site.tables.workload.Issued row) :
    Orderly ⟨(h.site.setLocks locks).setPhase w phase, h.done⟩ := by
  have hself : ((h.site.setLocks locks).setPhase w phase).phase w = phase := Function.update_self ..
  have hne {w' : Nat} (hw : w' ≠ w) :
      ((h.site.setLocks locks).setPhase w phase).phase w' = h.site.phase w' :=
    Function.update_of_ne hw ..
  refine ⟨fun w' uuid => ?_, fun w' row hrow => ?_, fun w' row hrow => ?_, hinv.gone⟩
  · by_cases hw : w' = w
    · subst hw
      simp only [hself]
      exact hlocked uuid
    · simp only [hne hw]
      exact (hinv.locked w' uuid).trans (hothers uuid w' hw).symm
  · by_cases hw : w' = w
    · subst hw
      exact hdelayed row (hself ▸ hrow)
    · exact hinv.issuedDelayed w' row (hne hw ▸ hrow)
  · by_cases hw : w' = w
    · subst hw
      exact hwork row (hself ▸ hrow)
    · exact hinv.issuedWork w' row (hne hw ▸ hrow)

def WithinHand (h : WorkHistory) (w : Nat) (phase : WorkerPhase) : Prop :=
  phase.delayedRows ⊆ (h.site.phase w).delayedRows ∧ phase.workRows ⊆ (h.site.phase w).workRows

theorem Orderly.goTo (hinv : Orderly h) {locks : Locks}
    (howner : ∀ uuid, locks.getLockUuid uuid = h.site.locks.getLockUuid uuid)
    (hlocked : phase.lockedRoot = (h.site.phase w).lockedRoot) (hhand : WithinHand h w phase) :
    Orderly ⟨(h.site.setLocks locks).setPhase w phase, h.done⟩ :=
  hinv.setPhase (fun uuid _ _ => by rw [howner])
    (fun uuid => by rw [howner, hlocked]; exact hinv.locked w uuid)
    (fun row hrow => hinv.issuedDelayed w row (hhand.1 hrow))
    (fun row hrow => hinv.issuedWork w row (hhand.2 hrow))

theorem Orderly.acquire (hinv : Orderly h) {uuid : RootUuid} {stage : Locks.AcquireStage}
    {goesOn : Locks.AcquireStage → WorkerPhase} {acquired failed : WorkerPhase}
    (hunlocked : (h.site.phase w).lockedRoot = none)
    (hgoesOn : ∀ stage', (goesOn stage').lockedRoot = none)
    (hacquired : acquired.lockedRoot = some uuid) (hfailed : failed.lockedRoot = none)
    (hgoesOnHand : ∀ stage', WithinHand h w (goesOn stage'))
    (hacquiredHand : WithinHand h w acquired) (hfailedHand : WithinHand h w failed) :
    Orderly ⟨h.site.acquire w uuid stage goesOn acquired failed, h.done⟩ := by
  have hnone (uuid' : RootUuid) : h.site.locks.getLockUuid uuid' ≠ some (.worker w) := by
    rw [Ne, ← hinv.locked, hunlocked]
    nofun
  have hacquires := h.site.locks.acquires_acquireLock 0 0 uuid (.worker w) stage
  unfold Site.acquire
  generalize h.site.locks.acquireLock 0 0 uuid (.worker w) false stage = result at hacquires ⊢
  cases hacquires with
  | inserted hfree =>
    have hfree' := Locks.getLockUuid_eq_none_iff.mpr hfree
    refine hinv.setPhase (fun uuid' w' hw => ?_) (fun uuid' => ?_)
      (fun row hrow => hinv.issuedDelayed w row (hacquiredHand.1 hrow))
      (fun row hrow => hinv.issuedWork w row (hacquiredHand.2 hrow))
    · by_cases huuid : uuid' = uuid
      · -- the inserted row was nobody's and is this worker's
        subst huuid
        rw [Locks.getLockUuid_update_self, hfree']
        simp [Ne.symm hw]
      · rw [Locks.getLockUuid_update_of_ne huuid]
    · by_cases huuid : uuid' = uuid
      · subst huuid
        rw [Locks.getLockUuid_update_self]
        simpa using hacquired
      · rw [Locks.getLockUuid_update_of_ne huuid, hacquired]
        exact iff_of_false (fun h => huuid (Option.some.inj h).symm) (hnone uuid')
  | @goesOn _ stage' _ _ howner =>
    exact hinv.goTo howner ((hgoesOn stage').trans hunlocked.symm) (hgoesOnHand stage')
  | verified hown => exact absurd hown (hnone uuid)
  | failed hown => exact hinv.goTo (fun _ => rfl) (hfailed.trans hunlocked.symm) hfailedHand

theorem Orderly.releaseLock (hinv : Orderly h) {uuid : RootUuid}
    (hlocked : (h.site.phase w).lockedRoot = some uuid) (hunlocked : phase.lockedRoot = none)
    (hhand : WithinHand h w phase) : Orderly ⟨h.site.releaseLock w uuid phase, h.done⟩ := by
  have hown := (hinv.locked w uuid).mp hlocked
  refine hinv.setPhase (fun uuid' w' hw => ?_) (fun uuid' => ?_)
    (fun row hrow => hinv.issuedDelayed w row (hhand.1 hrow))
    (fun row hrow => hinv.issuedWork w row (hhand.2 hrow))
  · rw [Locks.getLockUuid_releaseLock]
    split
    next hself =>
      rw [hself.1, hown]
      simp [Ne.symm hw]
    next => rfl
  · rw [Locks.getLockUuid_releaseLock, hunlocked]
    split
    next => exact iff_of_false nofun nofun
    next hother =>
      refine iff_of_false nofun fun hown' => hother ⟨?_, hown⟩
      have hroot := (hinv.locked w uuid').mpr hown'
      exact Option.some.inj (hroot.symm.trans hlocked)

theorem Orderly.proceed (hinv : Orderly h) (w : Nat) : Orderly ⟨h.site.proceed w, h.done⟩ := by
  unfold Site.proceed
  split
  next hphase =>
    exact Orderly.goTo (h := h) hinv (fun _ => rfl) (by simp [hphase]) (by simp [WithinHand])
  next row rest hphase =>
    refine hinv.acquire (by simp [hphase]) (fun _ => rfl) rfl rfl (fun _ => ?_) ?_ ?_ <;>
      simp [WithinHand, hphase]
  next row rest stage hphase =>
    refine hinv.acquire (by simp [hphase]) (fun _ => rfl) rfl rfl (fun _ => ?_) ?_ ?_ <;>
      simp [WithinHand, hphase]
  next hphase =>
    exact Orderly.goTo (h := h) hinv (fun _ => rfl) (by simp [hphase]) (by simp [WithinHand])
  next row rest hphase =>
    refine hinv.acquire (by simp [hphase]) (fun _ => rfl) rfl rfl (fun _ => ?_) ?_ ?_ <;>
      simp [WithinHand, hphase]
  next row rest stage hphase =>
    refine hinv.acquire (by simp [hphase]) (fun _ => rfl) rfl rfl (fun _ => ?_) ?_ ?_ <;>
      simp [WithinHand, hphase]
  next row rest hphase =>
    exact hinv.releaseLock (by simp [hphase]) rfl (by simp [WithinHand, hphase])
  next uuid hphase =>
    exact hinv.releaseLock (by simp [hphase]) rfl (by simp [WithinHand, hphase])
  all_goals exact hinv

theorem Orderly.verify (hinv : Orderly h) (w : Nat) (transfer : Transfer) :
    Orderly ⟨h.site.verify w transfer, h.done⟩ := by
  unfold Site.verify
  split
  next row rest hphase =>
    have hgo {phase : WorkerPhase} (hroot : phase.lockedRoot = some row.2.uuid)
        (hhand : WithinHand h w phase) : Orderly ⟨h.site.setPhase w phase, h.done⟩ :=
      Orderly.goTo (h := h) hinv (fun _ => rfl) (by rw [hroot, hphase]; rfl) hhand
    split
    · cases transfer with
      | notNeeded => exact hgo rfl (by simp [WithinHand, hphase])
      | succeeded => exact hgo rfl (by simp [WithinHand, hphase])
      | failed => exact hgo rfl (by simp [WithinHand])
    · exact hgo rfl (by simp [WithinHand, hphase])
  next => exact hinv

theorem Orderly.gone_of_clear (hinv : Orderly h) (hrows : h.rowsHold (.clear w))
    {target : WorkTarget} {loaded : Option AnalysisMode}
    (hphase : h.site.phase w = .execute target loaded) :
    target.key.Gone (target.clear loaded h.site.tables) := by
  cases target with
  | delayed row =>
    have hissued := hinv.issuedDelayed w row (by simp [hphase])
    exact hissued.gone_deleteWhere (by simp)
  | root row analysisMode =>
    have hissued := hinv.issuedWork w row (by simp [hphase])
    simp only [rowsHold, hphase, decide_eq_true_eq] at hrows
    exact hissued.gone_deleteWhere (by simp [hrows])

theorem Orderly.step (hinv : Orderly h) {defaultAnalysisMode : AnalysisMode} {e : WorkEvent}
    (hrows : h.rowsHold e) : Orderly (h.step defaultAnalysisMode e) := by
  unfold WorkHistory.step
  cases e with
  | listDelayed w rows =>
    simp only [Site.step, doneAfter]
    split
    next hlisted =>
      refine Orderly.setPhase (h := h) hinv (fun _ _ _ => Iff.rfl) (fun uuid => ?_)
        (fun row hrow => Table.issued_of_mem (hlisted.2 row hrow).1) (by simp)
      rw [← hinv.locked, hlisted.1]
      rfl
    next => exact hinv
  | listWork w rows =>
    simp only [Site.step, doneAfter]
    split
    next hlisted =>
      refine Orderly.setPhase (h := h) hinv (fun _ _ _ => Iff.rfl) (fun uuid => ?_) (by simp)
        (fun row hrow => Table.issued_of_mem (hlisted.2 row hrow).1)
      rw [← hinv.locked, hlisted.1]
      rfl
    next => exact hinv
  | proceed w => exact hinv.proceed w
  | verify w transfer => exact hinv.verify w transfer
  | load w saved relocated =>
    simp only [Site.step, doneAfter]
    split
    next target hphase =>
      refine Orderly.goTo (h := h) hinv (fun _ => rfl) (by rw [hphase]; rfl) ?_
      cases target <;> simp [WithinHand, hphase]
    next => exact hinv
  | delay w observableUuid analysisModule =>
    simp only [Site.step, doneAfter]
    split
    next => exact hinv.setTables (.addDelayedAnalysisRequest _) fun _ => .inl
    next => exact hinv
  | abort w =>
    simp only [Site.step, doneAfter]
    split
    next => exact hinv.setTables (.deleteDelayed _) fun _ => .inl
    next => exact hinv
  | clear w =>
    cases hphase : h.site.phase w with
    | execute target loaded =>
      have hcleared : Orderly ⟨h.site.setTables (target.clear loaded h.site.tables),
          target.key :: h.done⟩ := by
        refine hinv.setTables (.clear target loaded) fun key hkey => ?_
        rcases List.mem_cons.mp hkey with rfl | hkey
        · exact .inr (hinv.gone_of_clear hrows hphase)
        · exact .inl hkey
      simp only [Site.step, doneAfter, hphase]
      refine Orderly.goTo hcleared (fun _ => rfl) ?_ (by simp [WithinHand])
      exact (congrArg WorkerPhase.lockedRoot hphase).symm
    | _ => simpa only [Site.step, doneAfter, hphase] using hinv
  | addWorkload uuid analysisMode => exact hinv.setTables (.insertWorkload _) fun _ => .inl
  | setDispositions alertUuids disposition =>
    exact hinv.setTables (.setDispositions _ _) fun _ => .inl

end Update

/-! ## §3 How a row is handed out -/

section HandOut

variable {h : WorkHistory} {w : Nat} {target : WorkTarget}

/-- What holds when a worker is handed a row: nobody holds the lock of a delayed request, and
a workload row is there. -/
inductive HandsOut (h : WorkHistory) (w : Nat) : WorkEvent → WorkTarget → Prop where
  | delayed {row : DelayedRow} {rest : List DelayedRow}
      (hphase : h.site.phase w = .tryDelayed (row :: rest) ∨
        h.site.phase w = .acquireDelayed row rest .insert)
      (hfree : h.site.locks row.2.uuid = none) : HandsOut h w (.proceed w) (.delayed row)
  | root {row : WorkloadRow} {rest : List WorkloadRow} {transfer : Transfer}
      {analysisMode : Option AnalysisMode} (hphase : h.site.phase w = .verify row rest)
      (hthere : h.site.tables.workload.hasId row.1) :
      HandsOut h w (.verify w transfer) (.root row analysisMode)

theorem Orderly.acquire_hands_out (hinv : Orderly h) {uuid : RootUuid}
    {stage : Locks.AcquireStage} {goesOn : Locks.AcquireStage → WorkerPhase}
    {acquired failed : WorkerPhase} (hunlocked : (h.site.phase w).lockedRoot = none)
    (hgoesOn : ∀ stage', goesOn stage' ≠ .execute target none)
    (hfailed : failed ≠ .execute target none)
    (hexecute : (h.site.acquire w uuid stage goesOn acquired failed).phase w =
      .execute target none) :
    acquired = .execute target none ∧ stage = .insert ∧ h.site.locks uuid = none := by
  have hacquires := h.site.locks.acquires_acquireLock 0 0 uuid (.worker w) stage
  unfold Site.acquire at hexecute
  generalize h.site.locks.acquireLock 0 0 uuid (.worker w) false stage = result
    at hacquires hexecute
  cases hacquires with
  | inserted hfree => exact ⟨by simpa using hexecute, rfl, hfree⟩
  | @goesOn _ stage' _ _ _ => exact absurd (by simpa using hexecute) (hgoesOn stage')
  | verified hown =>
    have hlocked := (hinv.locked w uuid).mpr hown
    rw [hunlocked] at hlocked
    cases hlocked
  | failed _ => exact absurd (by simpa using hexecute) hfailed

theorem Orderly.proceed_hands_out (hinv : Orderly h)
    (hexecute : (h.site.proceed w).phase w = .execute target none)
    (hnew : h.site.phase w ≠ .execute target none) : HandsOut h w (.proceed w) target := by
  unfold Site.proceed at hexecute
  split at hexecute
  next => simp at hexecute
  next row rest hphase =>
    obtain ⟨htarget, -, hfree⟩ := hinv.acquire_hands_out (by simp [hphase]) (by simp) (by simp)
      hexecute
    obtain rfl : WorkTarget.delayed row = target := by simpa using htarget
    exact .delayed (.inl hphase) hfree
  next row rest stage hphase =>
    obtain ⟨htarget, rfl, hfree⟩ := hinv.acquire_hands_out (by simp [hphase]) (by simp) (by simp)
      hexecute
    obtain rfl : WorkTarget.delayed row = target := by simpa using htarget
    exact .delayed (.inr hphase) hfree
  next => simp at hexecute
  next row rest hphase =>
    cases (hinv.acquire_hands_out (by simp [hphase]) (by simp) (by simp) hexecute).1
  next row rest stage hphase =>
    cases (hinv.acquire_hands_out (by simp [hphase]) (by simp) (by simp) hexecute).1
  next => simp [Site.releaseLock] at hexecute
  next => simp [Site.releaseLock] at hexecute
  all_goals exact absurd hexecute hnew

theorem verify_hands_out {transfer : Transfer}
    (hexecute : (h.site.verify w transfer).phase w = .execute target none)
    (hnew : h.site.phase w ≠ .execute target none) :
    HandsOut h w (.verify w transfer) target := by
  unfold Site.verify at hexecute
  split at hexecute
  next row rest hphase =>
    split at hexecute
    next hthere =>
      cases transfer with
      | notNeeded =>
        obtain rfl : WorkTarget.root row (some row.2.analysisMode) = target := by
          simpa using hexecute
        exact .root hphase hthere
      | succeeded =>
        obtain rfl : WorkTarget.root row none = target := by simpa using hexecute
        exact .root hphase hthere
      | failed => simp at hexecute
    next => simp at hexecute
  next => exact absurd hexecute hnew

theorem Orderly.hands_out (hinv : Orderly h) {defaultAnalysisMode : AnalysisMode} {e : WorkEvent}
    (hexecute : (h.site.step defaultAnalysisMode e).phase w = .execute target none)
    (hnew : h.site.phase w ≠ .execute target none) : HandsOut h w e target := by
  by_cases hself : e.worker = some w
  · cases e with
    | proceed w' =>
      obtain rfl : w' = w := Option.some.inj hself
      exact hinv.proceed_hands_out hexecute hnew
    | verify w' transfer =>
      obtain rfl : w' = w := Option.some.inj hself
      exact verify_hands_out hexecute hnew
    | addWorkload _ _ | setDispositions _ _ => cases hself
    | delay _ _ _ | abort _ =>
      obtain rfl := Option.some.inj hself
      simp only [Site.step] at hexecute
      split at hexecute <;> exact absurd hexecute hnew
    | _ =>
      -- the other statements of a worker leave it somewhere else
      obtain rfl := Option.some.inj hself
      simp only [Site.step] at hexecute
      split at hexecute
      · simp at hexecute
      · exact absurd hexecute hnew
  · exact absurd ((Site.step_phase_of_ne hself).symm.trans hexecute) hnew

end HandOut

/-! ## §4 At most once -/

section Once

variable {h : WorkHistory} {w w' : Nat} {loaded : Option AnalysisMode}

theorem Orderly.not_executed_of_free (hinv : Orderly h) {row : DelayedRow}
    (hrow : row ∈ h.site.tables.delayedAnalysis.rows) (hfree : h.site.locks row.2.uuid = none)
    {target : WorkTarget} (hphase : h.site.phase w' = .execute target loaded) :
    target.key ≠ .delayed row.1 := by
  intro hkey
  cases target with
  | root row' analysisMode => cases hkey
  | delayed row' =>
    have hid : row'.1 = row.1 := RowKey.delayed.inj hkey
    have hissued := hinv.issuedDelayed w' row' (by simp [hphase])
    obtain rfl : row = row' := hissued.2 row hrow hid.symm
    have hlocked := (hinv.locked w' row.2.uuid).mp (by simp [hphase, WorkTarget.uuid])
    rw [Locks.getLockUuid_eq_none_iff.mpr hfree] at hlocked
    cases hlocked

theorem Orderly.not_executed_of_locked (hinv : Orderly h) {row : WorkloadRow}
    (hthere : h.site.tables.workload.hasId row.1)
    (hissued : h.site.tables.workload.Issued row)
    (hlocked : (h.site.phase w).lockedRoot = some row.2.uuid) (hw : w' ≠ w)
    {target : WorkTarget} (hphase : h.site.phase w' = .execute target loaded) :
    target.key ≠ .workload row.1 := by
  intro hkey
  cases target with
  | delayed row' => cases hkey
  | root row' analysisMode =>
    have hid : row.1 = row'.1 := (RowKey.workload.inj hkey).symm
    have hissued' := hinv.issuedWork w' row' (by simp [hphase])
    obtain rfl : row = row' := hissued.eq_of_hasId hissued' hid hthere
    have hown := (hinv.locked w row.2.uuid).mp hlocked
    have hown' := (hinv.locked w' row.2.uuid).mp (by simp [hphase, WorkTarget.uuid])
    cases hown'.symm.trans hown
    exact hw rfl

theorem Orderly.atMostOnce (hinv : Orderly h) {defaultAnalysisMode : AnalysisMode} {e : WorkEvent}
    (hrows : h.rowsHold e) : AtMostOnce defaultAnalysisMode h e := by
  intro w target hexecute hnew
  cases hinv.hands_out hexecute hnew with
  | @delayed row rest hphase hfree =>
    have hrow : row ∈ h.site.tables.delayedAnalysis.rows := by
      rcases hphase with hphase | hphase <;> simpa [rowsHold, hphase, hfree] using hrows
    refine ⟨fun hdone => ?_, fun w' target' loaded _ hphase' => ?_⟩
    · exact (hinv.gone _ hdone).not_mem hrow
    · exact hinv.not_executed_of_free hrow hfree hphase'
  | @root row rest transfer analysisMode hphase hthere =>
    refine ⟨fun hdone => ?_, fun w' target' loaded hw hphase' => ?_⟩
    · obtain ⟨item, hrow⟩ := Table.hasId_iff.mp hthere
      exact (hinv.gone _ hdone).2 _ hrow rfl
    · have hissued := hinv.issuedWork w row (by simp [hphase])
      exact hinv.not_executed_of_locked hthere hissued (by simp [hphase]) hw hphase'

end Once

/-- In every run in which the listed requests are still there when their free lock is taken and
roots are cleared in the mode of their row, no row is handed out that is done or in the hands of
another worker. -/
theorem run_atMostOnce (defaultAnalysisMode : AnalysisMode) (events : List WorkEvent)
    (hrows : Along (step defaultAnalysisMode) (rowsHold · ·) init events) :
    Along (step defaultAnalysisMode) (AtMostOnce defaultAnalysisMode) init events :=
  hrows.of_invariant _ (fun _ _ hinv hrows => hinv.step hrows)
    (fun _ _ hinv hrows => hinv.atMostOnce hrows) orderly_init

/-- The delayed request of the runs below, the first row of its table. -/
def delayedRow : DelayedRow := (1, ⟨"root", "observable", "module"⟩)

/-- Worker 0 executes a root and delays a module, and worker 1 lists the request. -/
def listedByOne : List WorkEvent :=
  [.addWorkload "root" none, .listWork 0 [(1, ⟨"root", "analysis"⟩)], .proceed 0,
    .verify 0 .notNeeded, .load 0 "analysis" false, .delay 0 "observable" "module", .clear 0,
    .proceed 0, .listDelayed 1 [delayedRow]]

def executedByTwo : List WorkEvent :=
  [.listDelayed 2 [delayedRow], .proceed 2, .load 2 "analysis" false, .clear 2, .proceed 2]

/-- Worker 1, which has listed the request before, is handed it once more. -/
theorem executedByTwo_is_handed_out_again :
    ¬ Along (step "analysis") (AtMostOnce "analysis") init
      (listedByOne ++ executedByTwo ++ [.proceed 1]) := by
  intro hrun
  have hlast := hrun.at (listedByOne ++ executedByTwo)
  obtain ⟨hdone, -⟩ := hlast 1 (.delayed delayedRow) (by decide) (by decide)
  exact hdone (by decide)

/-- Where worker 2 does not get in between, worker 1 is handed it once. -/
theorem listedByOne_is_handed_out_once :
    Along (step "analysis") (AtMostOnce "analysis") init (listedByOne ++ [.proceed 1]) :=
  run_atMostOnce "analysis" _ (by decide)

end WorkHistory

end Ace3.Engine
