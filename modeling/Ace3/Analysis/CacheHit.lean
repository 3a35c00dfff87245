import Ace3.Analysis.ReplayTwice

/-!
# The Slot that a Cache Hit Fills

A module looks for its analysis under the path of the class it generates and its own instance.
What a cached delta leaves there is followed from `_rehydrate_analysis` of
`saq/analysis/cache.py`, which splits the instance off the recorded path and drops it, to
`_process_generated_analysis` of `saq/engine/executor.py`.
-/

namespace Ace3.Analysis

open List RootAnalysis
open Lib

/-! ## §1 After a module has run -/

/-- The part of an analysis module that tells where its analysis is. -/
structure GeneratingModule where
  /-- `generated_analysis_type`, by module and class name. -/
  generatedAnalysisType : String
  inst : Option String
  deriving DecidableEq

def GeneratingModule.modulePath (m : GeneratingModule) : AnalysisPath :=
  ⟨m.generatedAnalysisType, m.inst⟩

namespace Observable

/-- `add_no_analysis`, which leaves a slot that is there alone. -/
def addNoAnalysis (path : AnalysisPath) (o : Observable) : Observable :=
  if o.analysis.any (·.1 = path) then o else { o with analysis := o.analysis ++ [(path, none)] }

/-- `output_analysis.completed = True`, unless the analysis was delayed. -/
def completeAnalysis (path : AnalysisPath) (o : Observable) : Observable :=
  { o with
    analysis := o.analysis.map fun slot =>
      if slot.1 = path then
        (slot.1, slot.2.map fun a => if a.delayed then a else { a with completed := true })
      else slot }

end Observable

namespace RootAnalysis

/-- `_process_generated_analysis` after a module has completed, as far as it concerns the analysis
map: `get_analysis` finds nothing, or `False`, or an analysis. -/
def processGeneratedAnalysis (root : RootAnalysis) (target : NodeUuid) (m : GeneratingModule) :
    RootAnalysis :=
  match root.slot target m.modulePath with
  | some (some _) => root.modify target (·.completeAnalysis m.modulePath)
  | _ => root.modify target (·.addNoAnalysis m.modulePath)

end RootAnalysis

/-! ## §2 The slots after a replay -/

section Slots

variable {rt : Runtime} {root : RootAnalysis} {target : NodeUuid} {path : AnalysisPath}
  {delta : ModuleExecutionDelta} {replay : Replay}

theorem slot_applyRootDiff (root : RootAnalysis) (diff : RootDiff) :
    (root.applyRootDiff rt diff).slot = root.slot := rfl

theorem skeleton_draw (root : RootAnalysis) (count : Nat) :
    (root.draw count).skeleton = root.skeleton := rfl

theorem slot_of_applyDelta (hroot : root.WellFormed) (htarget : root.Has target)
    (h : applyDelta rt root target delta = some replay) :
    ∃ news children, replay.root.slot =
      ((root.rehydrateAnalysis rt target delta.analysis).1.take
        (replayParent rt root target delta.analysis) news children).slot := by
  have hok : (attemptDelta rt root target delta).toOption = some replay :=
    (toOption_attemptDelta rt root target delta).trans h
  have hstaged : Staged rt delta := by
    by_contra hstaged
    rw [attemptDelta_of_not_staged hstaged] at hok
    cases hok
  obtain ⟨news, children, count, -, -, -, hresult⟩ :=
    attemptDelta_eq hroot.sound htarget (hroot.hasChildren_rehydrated htarget rt delta.analysis)
      hstaged
  refine ⟨news, children, ?_⟩
  cases hattempt : attemptDelta rt root target delta with
  | error left =>
    rw [hattempt] at hok
    cases hok
  | ok replayed =>
    rw [hattempt] at hok hresult
    obtain rfl := Option.some.inj hok
    split at hresult
    · have hreplayed : replayed.root = _ := Except.ok.inj hresult
      rw [hreplayed, slot_applyRootDiff]
      -- the changes and the draws after the first half leave the skeleton
      apply slot_of_skeleton
      rw [skeleton_draw, skeleton_change]
    · cases hresult

variable {dict : AnalysisDict}

theorem slot_of_kept (hroot : root.WellFormed) (htarget : root.Has target)
    (h : applyDelta rt root target delta = some replay) (hdict : delta.analysis = some dict)
    {a : AnalysisObject} (hslot : root.slot target dict.modulePath = some (some a)) :
    ∃ children, replay.root.slot target dict.modulePath = some (some (a.addChildren children)) := by
  obtain ⟨news, children, hreplay⟩ := slot_of_applyDelta hroot htarget h
  obtain ⟨hkept, hparent⟩ := rehydrateAnalysis_kept rt hslot
  refine ⟨children, ?_⟩
  rw [hreplay, hdict, hkept, hparent]
  exact slot_take hslot

theorem slot_of_installed (hroot : root.WellFormed) (htarget : root.Has target)
    (h : applyDelta rt root target delta = some replay) (hdict : delta.analysis = some dict)
    (hslot : ∀ a, root.slot target dict.modulePath ≠ some (some a)) :
    ∃ children, replay.root.slot target (rehydrated rt dict).modulePath =
      some (some ((rehydrated rt dict).addChildren children)) := by
  obtain ⟨news, children, hreplay⟩ := slot_of_applyDelta hroot htarget h
  obtain ⟨hadded, hparent⟩ := rehydrateAnalysis_installed rt hslot
  refine ⟨children, ?_⟩
  rw [hreplay, hdict, hadded, hparent]
  exact slot_take (slot_addAnalysis htarget)

theorem slot_of_displaced (hroot : root.WellFormed) (htarget : root.Has target)
    (h : applyDelta rt root target delta = some replay) (hdict : delta.analysis = some dict)
    (hslot : ∀ a, root.slot target dict.modulePath ≠ some (some a))
    (hpath : path ≠ (rehydrated rt dict).modulePath) :
    replay.root.slot target path = root.slot target path := by
  obtain ⟨news, children, hreplay⟩ := slot_of_applyDelta hroot htarget h
  obtain ⟨hadded, hparent⟩ := rehydrateAnalysis_installed rt hslot
  have hhas : (root.addAnalysis target (rehydrated rt dict)).Has target := by
    obtain ⟨i, hi, huuid⟩ := htarget
    refine ⟨i, ?_, huuid⟩
    rw [addAnalysis, identities_modify fun o => setAnalysis_identity o _]
    exact hi
  rw [hreplay, hdict, hadded, hparent, slot_take_other hhas hpath,
    slot_addAnalysis_other hpath]

end Slots

/-! ## §3 The slot of the module -/

section Executor

variable {rt : Runtime} {root : RootAnalysis} {target : NodeUuid} {m : GeneratingModule}

theorem lookup_addNoAnalysis (o : Observable) (path : AnalysisPath)
    (h : ∀ a, o.analysis.lookup path ≠ some (some a)) :
    (o.addNoAnalysis path).analysis.lookup path = some none := by
  unfold Observable.addNoAnalysis
  split
  next hany =>
    -- the sentinel is there already
    cases hlookup : o.analysis.lookup path with
    | none =>
      obtain ⟨slot, hmem, hpath⟩ := any_eq_true.mp hany
      have hother := lookup_eq_none_iff.mp hlookup slot hmem
      simp only [decide_eq_true_eq] at hpath
      simp [hpath] at hother
    | some slot =>
      cases slot with
      | none => rfl
      | some a => exact absurd hlookup (h a)
  next hany =>
    have hnone : o.analysis.lookup path = none := by
      apply lookup_eq_none_iff.mpr
      intro slot hmem
      have hother : ¬ slot.1 = path := fun hpath =>
        hany (any_eq_true.mpr ⟨slot, hmem, decide_eq_true hpath⟩)
      simpa using fun hpath : path = slot.1 => hother hpath.symm
    rw [lookup_append, hnone]
    simp

theorem has_iff_getObservable : root.Has target ↔ ∃ o, root.getObservable target = some o := by
  rw [← getObservable_ne_none_iff, Option.ne_none_iff_exists']

/-- What `_process_generated_analysis` leaves in the slot: the analysis it found there, or the
sentinel. -/
theorem slot_processGeneratedAnalysis (htarget : root.Has target) :
    (root.processGeneratedAnalysis target m).slot target m.modulePath = some none ↔
      ∀ a, root.slot target m.modulePath ≠ some (some a) := by
  obtain ⟨o, ho⟩ := has_iff_getObservable.mp htarget
  have hslot : root.slot target m.modulePath = o.analysis.lookup m.modulePath := by
    rw [slot, ho, Option.bind_some]
  unfold processGeneratedAnalysis
  split
  next a hfound =>
    have hcompleted : ((root.modify target (·.completeAnalysis m.modulePath)).slot target
        m.modulePath) = some (some (if a.delayed then a else { a with completed := true })) := by
      rw [slot, getObservable_modify
        (f := (·.completeAnalysis m.modulePath)) fun _ => rfl, ho, Option.map_some,
        Option.bind_some, Observable.completeAnalysis, lookup_map_slot, ← hslot, hfound]
      rfl
    rw [hcompleted]
    constructor
    · intro h
      cases h
    · intro h
      exact absurd hfound (h a)
  next hfound =>
    have huuid (o : Observable) : (o.addNoAnalysis m.modulePath).uuid = o.uuid := by
      unfold Observable.addNoAnalysis
      split <;> rfl
    rw [slot, getObservable_modify huuid, ho, Option.map_some,
      Option.bind_some]
    constructor
    · intro _ a ha
      exact hfound a ha
    · intro h
      apply lookup_addNoAnalysis
      intro a ha
      exact h a (hslot.trans ha)

/-- The analysis that a cache hit is to leave in the slot: the one that is there, or the one of the
delta. -/
def returnedAnalysis (rt : Runtime) (root : RootAnalysis) (target : NodeUuid)
    (dict : AnalysisDict) : AnalysisObject :=
  match root.slot target dict.modulePath with
  | some (some a) => a
  | _ => rehydrated rt dict

/-- A hit fills the slot of the module: the analysis is under the path at which the module looks
for it, and no sentinel is recorded there afterwards. -/
structure FillsSlot (rt : Runtime) (root : RootAnalysis) (target : NodeUuid) (m : GeneratingModule)
    (dict : AnalysisDict) (hit : RootAnalysis) : Prop where
  held : ∃ children, hit.slot target m.modulePath =
    some (some ((returnedAnalysis rt root target dict).addChildren children))
  noSentinel : (hit.processGeneratedAnalysis target m).slot target m.modulePath ≠ some none

theorem rehydrated_modulePath_eq_iff (rt : Runtime) (dict : AnalysisDict) :
    (rehydrated rt dict).modulePath = dict.modulePath ↔
      dict.modulePath.inst = none ∨ rt.canImport dict.modulePath.classPath = false := by
  unfold rehydrated
  cases himport : rt.canImport dict.modulePath.classPath with
  | false => simp
  | true =>
    obtain ⟨classPath, inst⟩ := dict.modulePath
    simp [eq_comm]

variable {dict : AnalysisDict} {delta : ModuleExecutionDelta} {replay : Replay}

theorem FillsSlot.of_held (htarget : replay.root.Has target)
    (h : ∃ children, replay.root.slot target m.modulePath =
      some (some ((returnedAnalysis rt root target dict).addChildren children))) :
    FillsSlot rt root target m dict replay.root := by
  refine ⟨h, ?_⟩
  obtain ⟨children, hchildren⟩ := h
  intro hsentinel
  exact (slot_processGeneratedAnalysis htarget).mp hsentinel _ hchildren

theorem has_of_slot {path : AnalysisPath} {slot : Option AnalysisObject}
    (h : root.slot target path = some slot) : root.Has target := by
  obtain ⟨o, ho, -⟩ := Option.bind_eq_some_iff.mp h
  exact has_of_getObservable ho

/-- **A cache hit fills the slot that it was recorded from** exactly if the module has no instance
name, or its class cannot be imported, or the analysis is there already. -/
theorem fillsSlot_iff (hroot : root.WellFormed) (htarget : root.Has target)
    (hdict : delta.analysis = some dict) (hpath : dict.modulePath = m.modulePath)
    (h : applyDelta rt root target delta = some replay) :
    FillsSlot rt root target m dict replay.root ↔
      m.inst = none ∨ rt.canImport m.generatedAnalysisType = false ∨
        ∃ a, root.slot target m.modulePath = some (some a) := by
  have hinstalled := rehydrated_modulePath_eq_iff rt dict
  rw [hpath] at hinstalled
  by_cases hkept : ∃ a, root.slot target m.modulePath = some (some a)
  · -- the analysis that is there is left alone
    obtain ⟨a, ha⟩ := hkept
    have hreturned : returnedAnalysis rt root target dict = a := by
      unfold returnedAnalysis
      rw [hpath, ha]
    rw [← hpath] at ha
    obtain ⟨children, hslot⟩ := slot_of_kept hroot htarget h hdict ha
    constructor
    · intro _
      exact .inr (.inr ⟨a, hpath ▸ ha⟩)
    · intro _
      apply FillsSlot.of_held (has_of_slot hslot)
      rw [hreturned, ← hpath]
      exact ⟨children, hslot⟩
  · have hnone : ∀ a, root.slot target dict.modulePath ≠ some (some a) := by
      intro a ha
      exact hkept ⟨a, hpath ▸ ha⟩
    have hreturned : returnedAnalysis rt root target dict = rehydrated rt dict := by
      unfold returnedAnalysis
      split
      next a ha => exact absurd ha (hnone a)
      next => rfl
    by_cases hsame : (rehydrated rt dict).modulePath = m.modulePath
    · -- it is rehydrated under its own path
      obtain ⟨children, hslot⟩ := slot_of_installed hroot htarget h hdict hnone
      constructor
      · intro _
        rcases hinstalled.mp hsame with hinst | himport
        · exact .inl hinst
        · exact .inr (.inl himport)
      · intro _
        apply FillsSlot.of_held (has_of_slot hslot)
        rw [hreturned, ← hsame]
        exact ⟨children, hslot⟩
    · -- it is rehydrated under the path of its class, and the slot of the module stays as it was
      have hother : replay.root.slot target m.modulePath = root.slot target m.modulePath := by
        apply slot_of_displaced hroot htarget h hdict hnone
        exact fun heq => hsame heq.symm
      constructor
      · intro hfills
        obtain ⟨children, hheld⟩ := hfills.held
        rw [hother] at hheld
        exact absurd ⟨_, hheld⟩ hkept
      · rintro (hinst | himport | hthere)
        · exact absurd (hinstalled.mpr (.inl hinst)) hsame
        · exact absurd (hinstalled.mpr (.inr himport)) hsame
        · exact absurd hthere hkept

end Executor

section Examples

/-- The module that `instancedDelta` was recorded from. -/
def externalModule : GeneratingModule := ⟨"saq.modules.url:UrlAnalysis", some "external"⟩

def plainModule : GeneratingModule := ⟨"saq.modules.url:UrlAnalysis", none⟩

/-- The analysis of an instance, which the module has named with its own name. -/
def externalDict : AnalysisDict :=
  { modulePath := externalModule.modulePath
    summary := some "1 url"
    summaryDetails := none
    completed := some true
    delayed := none
    externalDetailsPath := none
    tags := none
    details := none }

def plainDelta : ModuleExecutionDelta :=
  { instancedDelta with analysis := some { externalDict with modulePath := plainModule.modulePath } }

/-- The hit of an instance leaves its own slot empty and fills that of the class; the executor then
records that there is no analysis. -/
theorem instanced_hit_misses_its_slot :
    ((applyDelta plainRuntime urlRoot ⟨1, 0⟩ instancedDelta).map fun replay =>
        (replay.root.slot ⟨1, 0⟩ externalModule.modulePath,
          (replay.root.slot ⟨1, 0⟩ plainModule.modulePath).map (·.map (·.observables)),
          (replay.root.processGeneratedAnalysis ⟨1, 0⟩ externalModule).slot ⟨1, 0⟩
            externalModule.modulePath)) =
      some (none, some (some [⟨1, 1⟩]), some none) ∧
    ¬ ∀ replay, applyDelta plainRuntime urlRoot ⟨1, 0⟩ instancedDelta = some replay →
        FillsSlot plainRuntime urlRoot ⟨1, 0⟩ externalModule externalDict replay.root := by
  refine ⟨by decide, ?_⟩
  intro hall
  cases hreplay : applyDelta plainRuntime urlRoot ⟨1, 0⟩ instancedDelta with
  | none => exact absurd hreplay (by decide)
  | some replay =>
    apply (hall replay hreplay).noSentinel
    have hslot : ((applyDelta plainRuntime urlRoot ⟨1, 0⟩ instancedDelta).map fun replay =>
        (replay.root.processGeneratedAnalysis ⟨1, 0⟩ externalModule).slot ⟨1, 0⟩
          externalModule.modulePath) = some (some none) := by decide
    rw [hreplay] at hslot
    exact Option.some.inj hslot

/-- A hit of the module without an instance name fills its slot. -/
theorem plain_hit_fills_its_slot :
    ∃ replay, applyDelta plainRuntime urlRoot ⟨1, 0⟩ plainDelta = some replay ∧
      FillsSlot plainRuntime urlRoot ⟨1, 0⟩ plainModule
        { externalDict with modulePath := plainModule.modulePath } replay.root := by
  have hsome : (applyDelta plainRuntime urlRoot ⟨1, 0⟩ plainDelta).isSome := by decide
  obtain ⟨replay, hreplay⟩ := Option.isSome_iff_exists.mp hsome
  refine ⟨replay, hreplay, ?_⟩
  apply (fillsSlot_iff urlRoot_wellFormed urlRoot_has rfl rfl hreplay).mpr
  exact .inl rfl

end Examples

end Ace3.Analysis
