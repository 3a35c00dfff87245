import Ace3.Engine.WorkloadProtocol
import Ace3.Lib.Runs

/-!
# Requests That Wake the Engine Up

Whoever adds a root to the workload in a mode wants it analyzed in that mode after this moment.
The ledger keeps the requests that are still owed: one is entered when it is made and struck out
when a worker that was handed the root loads it in that mode.
-/

namespace Ace3.Engine

open Lib.Runs
open Database

/-! ## §1 Requests made and answered -/

/-- The requests to analyze a root in a mode that an event makes. -/
def WorkEvent.requests (defaultAnalysisMode : AnalysisMode) : WorkEvent → List WorkloadItem
  | .addWorkload uuid analysisMode => [⟨uuid, analysisMode.getD defaultAnalysisMode⟩]
  | .setDispositions alertUuids disposition =>
    if disposition ≠ dispositionIgnore then
      alertUuids.map fun uuid => ⟨uuid, analysisModeDispositioned⟩
    else []
  | _ => []

/-- The request that the execution of a loaded root answers: it was handed out by
`get_work_target`, and it runs in the mode it has after its load. -/
@[simp] def WorkerPhase.answers : WorkerPhase → Option WorkloadItem
  | .execute (.root row _) (some analysisMode) => some ⟨row.2.uuid, analysisMode⟩
  | _ => none

namespace Site

def answered (defaultAnalysisMode : AnalysisMode) (s : Site) (e : WorkEvent) :
    Option WorkloadItem :=
  match e with
  | .load w _ _ => ((s.step defaultAnalysisMode e).phase w).answers
  | _ => none

/-! ## §2 Rows and loaded roots after an event -/

variable {s : Site} {defaultAnalysisMode : AnalysisMode} {item : WorkloadItem}

/-- The event is the `DELETE` of a worker that clears this request. -/
def Clears (s : Site) (e : WorkEvent) (item : WorkloadItem) : Prop :=
  ∃ w row analysisMode loaded, e = .clear w ∧
    s.phase w = .execute (.root row analysisMode) loaded ∧ item.uuid = row.2.uuid ∧
      some item.analysisMode = (WorkTarget.root row analysisMode).originalAnalysisMode loaded

variable {e : WorkEvent}

theorem queued_of_requests (hitem : item ∈ e.requests defaultAnalysisMode) :
    (s.step defaultAnalysisMode e).tables.Queued item := by
  cases e with
  | addWorkload uuid analysisMode =>
    exact WorkTables.queued_insertWorkload.mpr (.inr (List.mem_singleton.mp hitem))
  | setDispositions alertUuids disposition =>
    apply (WorkTables.queued_setDispositions alertUuids disposition).mpr
    simp only [WorkEvent.requests] at hitem
    split at hitem
    next hdisposition =>
      obtain ⟨uuid, huuid, rfl⟩ := List.mem_map.mp hitem
      exact .inr ⟨hdisposition, uuid, huuid, rfl⟩
    next => cases hitem
  | _ => cases hitem

theorem phase_of_requests (hitem : item ∈ e.requests defaultAnalysisMode) :
    (s.step defaultAnalysisMode e).phase = s.phase := by
  cases e with
  | addWorkload _ _ | setDispositions _ _ => rfl
  | _ => cases hitem

theorem acquire_tables (w : Nat) (uuid : RootUuid) (stage : Locks.AcquireStage)
    (goesOn : Locks.AcquireStage → WorkerPhase) (acquired failed : WorkerPhase) :
    (s.acquire w uuid stage goesOn acquired failed).tables = s.tables := by
  unfold acquire
  split <;> rfl

theorem proceed_tables (w : Nat) : (s.proceed w).tables = s.tables := by
  simp only [proceed, acquireDelayed, acquireWork]
  split <;> first | exact acquire_tables .. | rfl

theorem verify_tables (w : Nat) (transfer : Transfer) :
    (s.verify w transfer).tables = s.tables := by
  unfold verify
  split
  · split
    · cases transfer <;> rfl
    · rfl
  · rfl

theorem queued_step (hqueued : s.tables.Queued item) (hkept : ¬ s.Clears e item) :
    (s.step defaultAnalysisMode e).tables.Queued item := by
  cases e with
  | addWorkload uuid analysisMode => exact WorkTables.queued_insertWorkload.mpr (.inl hqueued)
  | setDispositions alertUuids disposition =>
    exact (WorkTables.queued_setDispositions alertUuids disposition).mpr (.inl hqueued)
  | proceed w => exact (proceed_tables (s := s) w).symm ▸ hqueued
  | verify w transfer => exact (verify_tables (s := s) w transfer).symm ▸ hqueued
  | clear w =>
    simp only [step]
    split
    next target loaded hphase =>
      cases target with
      | delayed row => exact hqueued
      | root row analysisMode =>
        apply (WorkTables.queued_deleteWorkload _ _).mpr
        exact ⟨hqueued, fun hitem =>
          hkept ⟨w, row, analysisMode, loaded, rfl, hphase, hitem.1, hitem.2⟩⟩
    next => exact hqueued
  | _ =>
    -- the other statements do not touch `workload`
    simp only [step]
    split <;> exact hqueued

variable {w : Nat}

theorem not_queued_of_clear (defaultAnalysisMode : AnalysisMode)
    (hanswers : (s.phase w).answers = some item) :
    ¬ (s.step defaultAnalysisMode (.clear w)).tables.Queued item := by
  unfold WorkerPhase.answers at hanswers
  split at hanswers
  next row analysisMode mode hphase =>
    obtain rfl := Option.some.inj hanswers
    simp only [step, hphase]
    intro hqueued
    exact ((WorkTables.queued_deleteWorkload _ _).mp hqueued).2 ⟨rfl, rfl⟩
  next => cases hanswers

theorem answers_acquire {uuid : RootUuid} {stage : Locks.AcquireStage}
    {goesOn : Locks.AcquireStage → WorkerPhase} {acquired failed : WorkerPhase}
    (hgoesOn : ∀ stage', (goesOn stage').answers = none) (hacquired : acquired.answers = none)
    (hfailed : failed.answers = none) :
    ((s.acquire w uuid stage goesOn acquired failed).phase w).answers = none := by
  unfold acquire
  split <;> rw [setPhase_phase_self]
  · exact hgoesOn _
  · exact hacquired
  · exact hfailed

theorem answers_proceed (hanswers : ((s.proceed w).phase w).answers = some item) :
    (s.phase w).answers = some item := by
  unfold proceed at hanswers
  split at hanswers
  next => simp at hanswers
  next => cases (answers_acquire (fun _ => rfl) rfl rfl).symm.trans hanswers
  next => cases (answers_acquire (fun _ => rfl) rfl rfl).symm.trans hanswers
  next => simp at hanswers
  next => cases (answers_acquire (fun _ => rfl) rfl rfl).symm.trans hanswers
  next => cases (answers_acquire (fun _ => rfl) rfl rfl).symm.trans hanswers
  next => simp [releaseLock] at hanswers
  next => simp [releaseLock] at hanswers
  all_goals exact hanswers

theorem answers_verify {transfer : Transfer}
    (hanswers : ((s.verify w transfer).phase w).answers = some item) :
    (s.phase w).answers = some item := by
  unfold verify at hanswers
  split at hanswers
  next =>
    split at hanswers
    · cases transfer <;> simp at hanswers
    · simp at hanswers
  next => exact hanswers

theorem answers_step (hanswers : ((s.step defaultAnalysisMode e).phase w).answers = some item) :
    (s.phase w).answers = some item ∨ s.answered defaultAnalysisMode e = some item := by
  by_cases hself : e.worker = some w
  · cases e with
    | proceed w' =>
      obtain rfl : w' = w := Option.some.inj hself
      exact .inl (answers_proceed hanswers)
    | verify w' transfer =>
      obtain rfl : w' = w := Option.some.inj hself
      exact .inl (answers_verify hanswers)
    | load w' saved relocated =>
      obtain rfl : w' = w := Option.some.inj hself
      exact .inr hanswers
    | addWorkload _ _ | setDispositions _ _ => cases hself
    | delay _ _ _ | abort _ =>
      obtain rfl := Option.some.inj hself
      simp only [step] at hanswers
      split at hanswers <;> exact .inl hanswers
    | _ =>
      obtain rfl := Option.some.inj hself
      simp only [step] at hanswers
      split at hanswers
      · simp at hanswers
      · exact .inl hanswers
  · rw [step_phase_of_ne hself] at hanswers
    exact .inl hanswers

end Site

/-! ## §3 Owed requests -/

/-- The site, and the requests that no load has answered since they were made. -/
structure WorkLedger where
  site : Site
  owed : List WorkloadItem

namespace WorkLedger

def init : WorkLedger := ⟨.init, []⟩

def step (defaultAnalysisMode : AnalysisMode) (l : WorkLedger) (e : WorkEvent) : WorkLedger where
  site := l.site.step defaultAnalysisMode e
  owed := e.requests defaultAnalysisMode ++
    l.owed.filter fun item => l.site.answered defaultAnalysisMode e ≠ some item

def Kept (l : WorkLedger) : Prop :=
  ∀ item ∈ l.owed, l.site.tables.Queued item

instance (l : WorkLedger) : Decidable l.Kept :=
  inferInstanceAs (Decidable (∀ item ∈ l.owed, l.site.tables.Queued item))

/-- No request is made while a worker executes a root that it has already loaded in the
requested mode, and no root is cleared that has not been loaded. -/
structure InTime (defaultAnalysisMode : AnalysisMode) (l : WorkLedger) (e : WorkEvent) : Prop where
  requests : ∀ item ∈ e.requests defaultAnalysisMode, ∀ w,
    (l.site.phase w).answers ≠ some item
  loaded (w : Nat) (hevent : e = .clear w) : ∀ row analysisMode,
    l.site.phase w ≠ .execute (.root row analysisMode) none

/-- Owed requests have their rows, and what a loaded root answers is not owed. -/
structure Heard (l : WorkLedger) : Prop where
  kept : l.Kept
  answered : ∀ w item, (l.site.phase w).answers = some item → item ∉ l.owed

theorem heard_init : Heard init := ⟨nofun, nofun⟩

variable {l : WorkLedger} {defaultAnalysisMode : AnalysisMode} {e : WorkEvent}
  {item : WorkloadItem}

theorem mem_owed_step : item ∈ (l.step defaultAnalysisMode e).owed ↔
    item ∈ e.requests defaultAnalysisMode ∨
      item ∈ l.owed ∧ l.site.answered defaultAnalysisMode e ≠ some item := by
  simp [step]

theorem Heard.not_clears (hinv : Heard l) (hintime : InTime defaultAnalysisMode l e)
    (howed : item ∈ l.owed) : ¬ l.site.Clears e item := by
  rintro ⟨w, row, analysisMode, loaded, rfl, hphase, huuid, hmode⟩
  cases loaded with
  | none => exact hintime.loaded w rfl row analysisMode hphase
  | some mode =>
    obtain rfl : item = ⟨row.2.uuid, mode⟩ := by
      cases item
      simp_all [WorkTarget.originalAnalysisMode]
    exact hinv.answered w _ (by simp [hphase]) howed

theorem Heard.step (hinv : Heard l) (hintime : InTime defaultAnalysisMode l e) :
    Heard (l.step defaultAnalysisMode e) where
  kept := by
    intro item howed
    rcases mem_owed_step.mp howed with hrequest | ⟨howed, -⟩
    · exact Site.queued_of_requests hrequest
    · exact Site.queued_step (hinv.kept item howed) (hinv.not_clears hintime howed)
  answered := by
    intro w item hanswers howed
    rcases mem_owed_step.mp howed with hrequest | ⟨howed, hnot⟩
    · have hphase := Site.phase_of_requests (s := l.site) hrequest
      exact hintime.requests item hrequest w (hphase ▸ hanswers)
    · rcases Site.answers_step hanswers with hbefore | hnow
      · exact hinv.answered w item hbefore howed
      · exact hnot hnow

/-- After every run whose events are in time, each request has been answered by a load made
after it, or its workload row is there. -/
theorem run_kept (defaultAnalysisMode : AnalysisMode) (events : List WorkEvent)
    (hintime : Along (step defaultAnalysisMode) (InTime defaultAnalysisMode) init events) :
    Kept (events.foldl (step defaultAnalysisMode) init) :=
  (hintime.invariant _ (fun _ _ hinv hintime => hinv.step hintime) heard_init).kept

theorem late_request_is_swallowed {w : Nat} (hanswers : (l.site.phase w).answers = some item)
    (hrequest : item ∈ e.requests defaultAnalysisMode) :
    ¬ Kept ([e, .clear w].foldl (step defaultAnalysisMode) l) := by
  intro hkept
  have howed : item ∈ ((l.step defaultAnalysisMode e).step defaultAnalysisMode (.clear w)).owed :=
    mem_owed_step.mpr (.inr ⟨mem_owed_step.mpr (.inl hrequest), nofun⟩)
  have hphase := Site.phase_of_requests (s := l.site) hrequest
  have hloaded : ((l.step defaultAnalysisMode e).site.phase w).answers = some item :=
    (congrArg (fun phase => (phase w).answers) hphase).trans hanswers
  exact Site.not_queued_of_clear defaultAnalysisMode hloaded (hkept item howed)

/-- Worker 0 is handed the root in analysis mode and loads it. -/
def loadedByZero : List WorkEvent :=
  [.addWorkload "root" none, .listWork 0 [(1, ⟨"root", "analysis"⟩)], .proceed 0,
    .verify 0 .notNeeded, .load 0 "analysis" false]

/-- The analyst's request for the same root in the same mode. -/
def requestedAgain : WorkEvent := .addWorkload "root" (some "analysis")

/-- A request that arrives while worker 0 executes the root is swallowed when it clears it. -/
theorem request_during_execution_is_lost :
    ¬ Kept ((loadedByZero ++ [requestedAgain, .clear 0]).foldl (step "analysis") init) := by
  decide

/-- A request that arrives after worker 0 has cleared the root is kept. -/
theorem request_after_execution_is_kept :
    Kept ((loadedByZero ++ [.clear 0, requestedAgain]).foldl (step "analysis") init) := by
  apply run_kept
  refine ⟨⟨fun _ _ _ => nofun, nofun⟩, ⟨nofun, nofun⟩, ⟨nofun, nofun⟩, ⟨nofun, nofun⟩,
    ⟨nofun, nofun⟩, ⟨nofun, ?_⟩, ⟨?_, nofun⟩, trivial⟩
  · -- worker 0 has loaded the root that it clears
    rintro w ⟨⟩ row analysisMode hphase
    cases hphase
  · intro item _ w
    -- every worker other than worker 0 has been idle all along
    cases w with
    | zero => exact nofun
    | succ w => exact nofun

end WorkLedger

end Ace3.Engine
