import Ace3.Engine.Orchestrator
import Ace3.Lib.Runs

/-!
# No Detection without an Alert

Alerting and cleaning up are decided by the execution that finds no other outstanding work. When
this execution is the last one, nobody decides after it.
-/

namespace Ace3.Engine

open Lib.Runs
open Database

/-! ## §1 Settled histories -/

def HasWork (tables : WorkTables) (uuid : RootUuid) : Prop :=
  (∃ row ∈ tables.workload.rows, row.2.uuid = uuid) ∨
    ∃ row ∈ tables.delayedAnalysis.rows, row.2.uuid = uuid

instance (tables : WorkTables) (uuid : RootUuid) : Decidable (HasWork tables uuid) :=
  inferInstanceAs (Decidable (_ ∨ _))

namespace RootHistory

variable (config : OrchestratorConfig) (uuid : RootUuid)

/-- A root that holds a detection point, is not whitelisted and is in a detectable mode, and one
that a decision has switched, is switched to correlation mode and has its alert. -/
def Alerted (h : RootHistory) : Prop :=
  config.alertingEnabled →
    (h.switched ∨ h.stored.tree.hasDetections ∧ ¬ h.stored.tree.whitelisted ∧
      config.detectable h.analysisMode) →
    h.switched ∧ h.alert

def CleanedUp (h : RootHistory) : Prop :=
  config.cleansUp h.analysisMode → ¬ h.storageExists

def Settled (h : RootHistory) : Prop := h.Alerted config ∧ h.CleanedUp config

/-- No row is left for the root, and no execution of it is under way. -/
def Quiet (h : RootHistory) : Prop := h.phase = .idle ∧ ¬ HasWork h.tables uuid

instance (h : RootHistory) : Decidable (h.Settled config) :=
  inferInstanceAs (Decidable ((_ → _ → _) ∧ (_ → _)))

instance (h : RootHistory) : Decidable (h.Quiet uuid) := inferInstanceAs (Decidable (_ ∧ _))

/-- An execution that ended early leaves a row of the root, unless its directory is gone. And a
root that is to become an alert has a queue to go to, and changes its mode or is an alert. -/
def reachesDecision (h : RootHistory) : RootEvent → Prop
  | .clear =>
    match h.phase with
    | .finished target original decided =>
      decided ∨ ¬ h.storageExists ∨ HasWork (h.clear uuid target original).tables uuid
    | _ => True
  | .decide =>
    match h.phase with
    | .analyzed target modes tree =>
      ¬ checkForOutstandingWork h.tables uuid target modes.originalAnalysisMode →
        becomesAlert config modes.analysisMode tree →
          (modes.analysisMode = some analysisModeCorrelation ∨ (applyDetectionQueue tree).isSome) ∧
            (modes.originalAnalysisMode ∉ [none, some analysisModeCorrelation] ∨ h.alert)
    | _ => True
  | _ => True

instance (h : RootHistory) (e : RootEvent) : Decidable (h.reachesDecision config uuid e) := by
  unfold reachesDecision
  split
  · split <;> infer_instance
  · split <;> infer_instance
  · infer_instance

end RootHistory

/-! ## §2 Rows that stay -/

/-- No row of the first tables is missing in the second ones. -/
structure Grows (tables tables' : WorkTables) : Prop where
  workload : ∀ row ∈ tables.workload.rows, row ∈ tables'.workload.rows
  delayed : ∀ row ∈ tables.delayedAnalysis.rows, row ∈ tables'.delayedAnalysis.rows

namespace Grows

variable {tables tables' tables'' : WorkTables} {uuid : RootUuid}

theorem refl : Grows tables tables := ⟨fun _ h => h, fun _ h => h⟩

theorem trans (h : Grows tables tables') (h' : Grows tables' tables'') : Grows tables tables'' :=
  ⟨fun row hrow => h'.workload row (h.workload row hrow),
    fun row hrow => h'.delayed row (h.delayed row hrow)⟩

theorem insertWorkload (item : WorkloadItem) : Grows tables (tables.insertWorkload item) := by
  unfold WorkTables.insertWorkload
  split
  · exact refl
  · exact ⟨fun _ hrow => Lib.Table.mem_rows_insert.mpr (.inl hrow), fun _ h => h⟩

theorem setDispositions (alertUuids : List RootUuid) (disposition : String) :
    Grows tables (tables.setDispositions alertUuids disposition) := by
  unfold WorkTables.setDispositions
  split
  · exact List.foldlRecOn (motive := Grows tables) alertUuids _ refl
      fun _ h _ _ => h.trans (insertWorkload _)
  · exact refl

theorem addDelays (uuid : RootUuid) (delays : List (String × String)) :
    Grows tables (RootHistory.addDelays uuid tables delays) :=
  List.foldlRecOn (motive := Grows tables) delays _ refl fun _ h _ _ =>
    h.trans ⟨fun _ h => h, fun _ hrow => Lib.Table.mem_rows_insert.mpr (.inl hrow)⟩

theorem hasWork (hgrows : Grows tables tables') (h : HasWork tables uuid) :
    HasWork tables' uuid :=
  h.imp (fun ⟨row, hrow, huuid⟩ => ⟨row, hgrows.workload row hrow, huuid⟩)
    fun ⟨row, hrow, huuid⟩ => ⟨row, hgrows.delayed row hrow, huuid⟩

theorem outstanding (hgrows : Grows tables tables') {target : WorkTarget}
    {original : Option AnalysisMode}
    (h : checkForOutstandingWork tables uuid target original) :
    checkForOutstandingWork tables' uuid target original := by
  simp only [checkForOutstandingWork, Bool.or_eq_true, List.any_eq_true] at h ⊢
  exact h.imp (fun ⟨row, hrow, hout⟩ => ⟨row, hgrows.workload row hrow, hout⟩)
    fun ⟨row, hrow, hout⟩ => ⟨row, hgrows.delayed row hrow, hout⟩

end Grows

theorem hasWork_clear {h : RootHistory} {uuid : RootUuid} {target : WorkTarget}
    {original : Option AnalysisMode}
    (hout : checkForOutstandingWork h.tables uuid target original) :
    HasWork (h.clear uuid target original).tables uuid := by
  simp only [checkForOutstandingWork, Bool.or_eq_true, List.any_eq_true] at hout
  rcases hout with ⟨row, hrow, hout⟩ | ⟨row, hrow, hout⟩
  · simp only [outstandingWorkload, ne_eq, decide_eq_true_eq] at hout
    refine .inl ⟨row, ?_, hout.1⟩
    cases target with
    | delayed own => exact hrow
    | root own analysisMode =>
      refine Lib.Table.mem_rows_deleteWhere.mpr ⟨hrow, ?_⟩
      simp [hout.2.2]
  · simp only [outstandingDelayed, Bool.and_eq_true, decide_eq_true_eq] at hout
    refine .inr ⟨row, ?_, hout.1⟩
    cases target with
    | delayed own =>
      refine Lib.Table.mem_rows_deleteWhere.mpr ⟨hrow, ?_⟩
      simpa using hout.2
    | root own analysisMode => exact hrow

/-! ## §3 The invariant -/

namespace RootHistory

variable {config : OrchestratorConfig} {uuid : RootUuid} {h : RootHistory}

/-- What holds of the history in a phase. A decision that was made while other work was
outstanding leaves this work behind, any other has settled the history. -/
def PhaseInv (config : OrchestratorConfig) (uuid : RootUuid) (h : RootHistory) :
    ExecutionPhase → Prop
  | .idle | .handed _ => HasWork h.tables uuid ∨ h.Settled config
  | .analyzed _ _ tree => h.storageExists ∧ tree = h.stored.tree
  | .decided target modes =>
    h.storageExists ∧ h.analysisMode = modes.analysisMode ∧
      (checkForOutstandingWork h.tables uuid target modes.originalAnalysisMode ∨
        h.Alerted config)
  | .finished target original decided =>
    decided →
      checkForOutstandingWork h.tables uuid target original ∨ h.Settled config

/-- A switched root is an alert, and the directory goes after the decision only. -/
structure Inv (config : OrchestratorConfig) (uuid : RootUuid) (h : RootHistory) : Prop where
  switched : h.switched → h.alert
  gone : ¬ h.storageExists → h.Alerted config
  phase : h.PhaseInv config uuid h.phase

theorem inv_submit (stored : StoredRoot) : Inv config uuid (submit config uuid stored) where
  switched := nofun
  gone := fun h => absurd rfl h
  phase := by
    obtain ⟨id, hrow⟩ : (WorkTables.empty.addWorkload config.defaultAnalysisMode uuid
        stored.analysisMode).Queued ⟨uuid, _⟩ := WorkTables.queued_insertWorkload.mpr (.inr rfl)
    exact .inl (.inl ⟨_, hrow, rfl⟩)

theorem Inv.setTables (hinv : Inv config uuid h) {tables : WorkTables}
    (hgrows : Grows h.tables tables) : Inv config uuid { h with tables } where
  switched := hinv.switched
  gone := hinv.gone
  phase := by
    have hphase := hinv.phase
    cases hp : h.phase with
    | idle => rw [hp] at hphase; exact hphase.imp_left hgrows.hasWork
    | handed target => rw [hp] at hphase; exact hphase.imp_left hgrows.hasWork
    | analyzed target modes tree => rw [hp] at hphase; exact hphase
    | decided target modes =>
      rw [hp] at hphase
      exact ⟨hphase.1, hphase.2.1, hphase.2.2.imp_left hgrows.outstanding⟩
    | finished target original decided =>
      rw [hp] at hphase
      exact fun hdecided => (hphase hdecided).imp_left hgrows.outstanding

variable {target : WorkTarget}

theorem Inv.analyze (hinv : Inv config uuid h) {relocated : Bool} {effects : ModuleEffects}
    (hstorage : h.storageExists) :
    Inv config uuid (h.analyze uuid target relocated effects) := by
  unfold RootHistory.analyze
  cases effects.outcome with
  | skipped =>
    simp only
    split
    · exact ⟨hinv.switched, hinv.gone, hstorage, rfl⟩
    · exact hinv
  | completed => exact ⟨hinv.switched, fun h => absurd hstorage h, hstorage, rfl⟩
  | aborted => exact ⟨hinv.switched, fun h => absurd hstorage h, hstorage, rfl⟩

/-- What `_handle_analysis_mode_changes` does: it adds rows, and a root whose mode has become
correlation mode is an alert. -/
structure ModesHandled (h : RootHistory) (modes : RootModes) (tree : RootTree)
    (r : RootHistory × RootModes) : Prop where
  grows : Grows h.tables r.1.tables
  storageExists : r.1.storageExists = h.storageExists
  switched : r.1.switched = h.switched
  tree : r.1.stored.tree = h.stored.tree ∨ r.1.stored.tree = tree
  alert : h.alert → r.1.alert
  converted : modes.analysisMode = some analysisModeCorrelation →
    modes.originalAnalysisMode ≠ some analysisModeCorrelation → r.1.alert
  original : r.2.originalAnalysisMode = modes.originalAnalysisMode
  analysisMode : modes.analysisMode ≠ none → r.2.analysisMode = modes.analysisMode

theorem modesHandled (config : OrchestratorConfig) (uuid : RootUuid) (h : RootHistory)
    (modes : RootModes) (tree : RootTree) :
    ModesHandled h modes tree (h.handleAnalysisModeChanges config uuid modes tree) := by
  unfold handleAnalysisModeChanges
  by_cases hchanged : modes.analysisMode = modes.originalAnalysisMode
  · rw [if_neg (not_not.mpr hchanged)]
    exact ⟨.refl, rfl, rfl, .inl rfl, id, fun hc ho => absurd (hchanged ▸ hc) ho, rfl,
      fun _ => rfl⟩
  · rw [if_pos hchanged]
    by_cases hcorrelation : modes.analysisMode = some analysisModeCorrelation
    · have hsome : modes.analysisMode ≠ none := by simp [hcorrelation]
      simp only [hcorrelation, if_true, reduceCtorEq, if_false]
      exact ⟨.insertWorkload _, rfl, rfl, .inr rfl, fun _ => rfl, fun _ _ => rfl, rfl,
        fun _ => rfl⟩
    · simp only [hcorrelation, if_false]
      refine ⟨.insertWorkload _, rfl, rfl, .inl rfl, id, fun hc => absurd hc hcorrelation, ?_, ?_⟩
      · by_cases hnone : modes.analysisMode = none
        · obtain ⟨original, horiginal⟩ := Option.ne_none_iff_exists'.mp (hnone ▸ Ne.symm hchanged)
          simp [hnone, RootModes.setAnalysisMode, horiginal]
        · rw [if_neg hnone]
      · intro hsome
        rw [if_neg hsome]

variable {modes : RootModes}

theorem handleDetectionPoints_isSome {tree : RootTree} :
    (handleDetectionPoints config modes tree).isSome ↔
      becomesAlert config modes.analysisMode tree ∧
        (modes.analysisMode = some analysisModeCorrelation ∨
          (applyDetectionQueue tree).isSome) := by
  unfold handleDetectionPoints
  by_cases hbecomes : becomesAlert config modes.analysisMode tree
  · by_cases hmode : modes.analysisMode = some analysisModeCorrelation
    · simp [hmode ▸ hbecomes, hmode]
    · simp [hbecomes, hmode]
  · simp [hbecomes]

theorem handleDetectionPoints_eq_some {modes modes' : RootModes} {tree tree' : RootTree}
    (h : handleDetectionPoints config modes tree = some (modes', tree')) :
    becomesAlert config modes.analysisMode tree ∧
      modes' = modes.setAnalysisMode (some analysisModeCorrelation) := by
  unfold handleDetectionPoints at h
  split at h
  next hbecomes =>
    obtain ⟨routed, -, heq⟩ := Option.map_eq_some_iff.mp h
    exact ⟨hbecomes, (Prod.mk.inj heq).1.symm⟩
  next => exact absurd h (by simp)

theorem Inv.decide (hinv : Inv config uuid h) {tree : RootTree}
    (hphase : h.phase = .analyzed target modes tree)
    (hdecision : h.reachesDecision config uuid .decide) :
    Inv config uuid (h.decide config uuid target modes tree) := by
  have hanalyzed := hinv.phase
  simp only [hphase, PhaseInv] at hanalyzed
  obtain ⟨hstorage, rfl⟩ := hanalyzed
  simp only [reachesDecision, hphase] at hdecision
  unfold RootHistory.decide
  by_cases hout : checkForOutstandingWork h.tables uuid target modes.originalAnalysisMode
  · -- the decision is left to the outstanding work
    have hswitch : h.switchesTo config uuid target modes h.stored.tree = none := by
      simp [switchesTo, hout]
    have hm := h.modesHandled config uuid modes h.stored.tree
    simp only [hswitch, Option.getD_none, Option.isSome_none, Bool.or_false]
    refine ⟨fun hs => hm.alert (hinv.switched hs), fun hg => absurd ?_ hg, ?_, rfl, .inl ?_⟩
    · exact hm.storageExists ▸ hstorage
    · exact hm.storageExists ▸ hstorage
    · exact hm.original ▸ hm.grows.outstanding hout
  · cases hswitch : h.switchesTo config uuid target modes h.stored.tree with
    | none =>
      have hm := h.modesHandled config uuid modes h.stored.tree
      simp only [Option.getD_none, Option.isSome_none, Bool.or_false]
      have hstays : ¬ becomesAlert config modes.analysisMode h.stored.tree := by
        intro hbecomes
        have := handleDetectionPoints_isSome.mpr ⟨hbecomes, (hdecision hout hbecomes).1⟩
        simp only [switchesTo, hout, Bool.false_eq_true, if_false] at hswitch
        simp [hswitch] at this
      refine ⟨fun hs => hm.alert (hinv.switched hs), fun hg => absurd ?_ hg, ?_, rfl, .inr ?_⟩
      · exact hm.storageExists ▸ hstorage
      · exact hm.storageExists ▸ hstorage
      · rintro hconfig (hs | ⟨hdetections, hwhitelisted, hdetectable⟩)
        · exact ⟨hs, hm.alert (hinv.switched hs)⟩
        · have htree : (h.handleAnalysisModeChanges config uuid modes h.stored.tree).1.stored.tree =
              h.stored.tree := hm.tree.elim id id
          simp only [htree] at hdetections hwhitelisted
          refine absurd ?_ hstays
          have hdetectable' : config.detectable modes.analysisMode := by
            by_cases hnone : modes.analysisMode = none
            · simp [hnone, OrchestratorConfig.detectable]
            · simpa only [hm.analysisMode hnone] using hdetectable
          simp only [becomesAlert, hdetectable', hwhitelisted, hdetections, hconfig]
          simp
    | some switched =>
      obtain ⟨modes', tree'⟩ := switched
      have hswitched : becomesAlert config modes.analysisMode h.stored.tree ∧
          modes' = modes.setAnalysisMode (some analysisModeCorrelation) := by
        simp only [switchesTo, hout, Bool.false_eq_true, if_false] at hswitch
        exact handleDetectionPoints_eq_some hswitch
      obtain ⟨hbecomes, rfl⟩ := hswitched
      have hm := h.modesHandled config uuid
        (modes.setAnalysisMode (some analysisModeCorrelation)) tree'
      simp only [Option.getD_some, Option.isSome_some, Bool.or_true]
      have halert : (h.handleAnalysisModeChanges config uuid
          (modes.setAnalysisMode (some analysisModeCorrelation)) tree').1.alert := by
        rcases (hdecision hout hbecomes).2 with horiginal | halert
        · refine hm.converted rfl ?_
          simp only [List.mem_cons, List.not_mem_nil, or_false, not_or] at horiginal
          obtain ⟨original, hsome⟩ := Option.ne_none_iff_exists'.mp horiginal.1
          simpa [RootModes.setAnalysisMode, hsome] using horiginal.2
        · exact hm.alert halert
      refine ⟨fun _ => halert, fun hg => absurd ?_ hg, ?_, rfl, .inr fun _ _ => ⟨rfl, halert⟩⟩
      · exact hm.storageExists ▸ hstorage
      · exact hm.storageExists ▸ hstorage

theorem Inv.cleanUp (hinv : Inv config uuid h) (hphase : h.phase = .decided target modes) :
    Inv config uuid (h.cleanUp config uuid target modes) := by
  have hdecided := hinv.phase
  simp only [hphase, PhaseInv] at hdecided
  obtain ⟨hstorage, hmode, hdecision⟩ := hdecided
  by_cases hout : checkForOutstandingWork h.tables uuid target modes.originalAnalysisMode
  · refine ⟨hinv.switched, fun hg => absurd ?_ hg, fun _ => .inl hout⟩
    simp [RootHistory.cleanUp, hout, hstorage]
  · have halerted : h.Alerted config := hdecision.resolve_left hout
    refine ⟨hinv.switched, fun _ => halerted, fun _ => .inr ⟨halerted, ?_⟩⟩
    -- without other work the directory of a mode that cleans up is removed
    intro hcleans
    have hcleans : config.cleansUp modes.analysisMode := hmode ▸ hcleans
    simp [RootHistory.cleanUp, hcleans, hout]

theorem Inv.clear (hinv : Inv config uuid h) {original : Option AnalysisMode} {decided : Bool}
    (hphase : h.phase = .finished target original decided)
    (hdecision : h.reachesDecision config uuid .clear) :
    Inv config uuid (h.clear uuid target original) where
  switched := hinv.switched
  gone := hinv.gone
  phase := by
    have hfinished := hinv.phase
    simp only [hphase, PhaseInv] at hfinished
    simp only [reachesDecision, hphase] at hdecision
    rcases hdecision with hdecided | hgone | hwork
    · exact (hfinished hdecided).imp hasWork_clear id
    · exact .inr ⟨hinv.gone hgone, fun _ => hgone⟩
    · exact .inl hwork

theorem Inv.step (hinv : Inv config uuid h) {e : RootEvent}
    (hdecision : h.reachesDecision config uuid e) : Inv config uuid (h.step config uuid e) := by
  cases e with
  | pick target =>
    simp only [RootHistory.step]
    split
    next hpick =>
      have hphase := hinv.phase
      rw [hpick.1] at hphase
      exact ⟨hinv.switched, hinv.gone, hphase⟩
    next => exact hinv
  | abandon delays =>
    cases hphase : h.phase with
    | handed target =>
      simp only [RootHistory.step, hphase]
      have hhanded := (hinv.setTables (.addDelays uuid delays)).phase
      simp only [hphase] at hhanded
      exact ⟨hinv.switched, hinv.gone, hhanded⟩
    | _ => simpa only [RootHistory.step, hphase] using hinv
  | endEarly original =>
    cases hphase : h.phase with
    | handed target =>
      simp only [RootHistory.step, hphase]
      exact ⟨hinv.switched, hinv.gone, nofun⟩
    | _ => simpa only [RootHistory.step, hphase] using hinv
  | analyze relocated effects =>
    cases hphase : h.phase with
    | handed target =>
      simp only [RootHistory.step, hphase]
      split
      next hstorage => exact hinv.analyze hstorage
      next => exact hinv
    | _ => simpa only [RootHistory.step, hphase] using hinv
  | decide =>
    cases hphase : h.phase with
    | analyzed target modes tree =>
      simp only [RootHistory.step, hphase]
      exact hinv.decide hphase hdecision
    | _ => simpa only [RootHistory.step, hphase] using hinv
  | cleanUp =>
    cases hphase : h.phase with
    | decided target modes =>
      simp only [RootHistory.step, hphase]
      exact hinv.cleanUp hphase
    | _ => simpa only [RootHistory.step, hphase] using hinv
  | clear =>
    cases hphase : h.phase with
    | finished target original decided =>
      simp only [RootHistory.step, hphase]
      exact hinv.clear hphase hdecision
    | _ => simpa only [RootHistory.step, hphase] using hinv
  | addWorkload analysisMode => exact hinv.setTables (.insertWorkload _)
  | setDisposition disposition =>
    simp only [RootHistory.step]
    split
    next => exact hinv.setTables (.setDispositions _ _)
    next => exact hinv

theorem Inv.settled (hinv : Inv config uuid h) (hquiet : h.Quiet uuid) : h.Settled config := by
  have hphase := hinv.phase
  rw [hquiet.1] at hphase
  exact hphase.resolve_left hquiet.2

/-! ### All histories -/

/-- In every history whose steps meet the condition, the root is settled in each state in which
no row is left for it. -/
theorem run_settled (config : OrchestratorConfig) (uuid : RootUuid) (stored : StoredRoot)
    (events : List RootEvent)
    (hdecision : Along (step config uuid) (reachesDecision config uuid)
      (submit config uuid stored) events) :
    Along (step config uuid)
      (fun h e => (h.step config uuid e).Quiet uuid → (h.step config uuid e).Settled config)
      (submit config uuid stored) events :=
  hdecision.of_invariant (Inv config uuid) (fun _ _ hinv he => hinv.step he)
    (fun _ _ hinv he => (hinv.step he).settled) (inv_submit stored)

/-- Alerts are on, alerts are not analyzed for detections, and the mode `analysis` cleans up. -/
def defaultConfig : OrchestratorConfig where
  alertingEnabled := true
  forcedAlerts := false
  nonDetectableModes := [analysisModeCorrelation, analysisModeDispositioned, "event"]
  cleanup := (· = "analysis")
  defaultAnalysisMode := "analysis"

/-- A first analysis that detects something and delays a module. -/
def delayingAnalysis : List RootEvent :=
  [.pick (.root (1, ⟨"root", "analysis"⟩) (some "analysis")),
    .analyze false ⟨.completed, ⟨[none], false, queueDefault⟩, [], [("url", "crawlphish")]⟩,
    .decide, .cleanUp, .clear]

/-- The delayed request is resumed and decides. -/
theorem resumed_settled :
    Along (step defaultConfig "root")
      (fun h e => (h.step defaultConfig "root" e).Quiet "root" →
        (h.step defaultConfig "root" e).Settled defaultConfig)
      (submit defaultConfig "root" ⟨some "analysis", ⟨[], false, queueDefault⟩⟩)
      (delayingAnalysis ++
        [.pick (.delayed (1, ⟨"root", "url", "crawlphish"⟩)),
          .analyze false ⟨.completed, ⟨[none], false, queueDefault⟩, [], []⟩,
          .decide, .cleanUp, .clear]) :=
  run_settled _ _ _ _ (by decide)

/-- The delayed request does not load: the detection is never decided on, and the directory
stays. -/
theorem unloadable_not_settled :
    ¬ ∀ (config : OrchestratorConfig) (uuid : RootUuid) (stored : StoredRoot)
      (events : List RootEvent),
      Along (step config uuid)
        (fun h e => (h.step config uuid e).Quiet uuid → (h.step config uuid e).Settled config)
        (submit config uuid stored) events := by
  intro h
  have := h defaultConfig "root" ⟨some "analysis", ⟨[], false, queueDefault⟩⟩
    (delayingAnalysis ++
      [.pick (.delayed (1, ⟨"root", "url", "crawlphish"⟩)), .endEarly (some "analysis"), .clear])
  revert this
  decide

end RootHistory

end Ace3.Engine
