import Ace3.Analysis.ReplayTwice

/-!
# Replays That Raise

A replay that raises in its staging pass has not touched the tree. One that raises later leaves
what was done before: the analysis that was installed, the observables that were added, what was
set on them. The tree is as it was only where all of this was there before.
-/

namespace Ace3.Analysis

open List
open Lib

/-! ## §1 What is in place already -/

/-- Everything that a replay does in front of the step that raises is in the tree already. -/
structure InPlace (rt : Runtime) (root : RootAnalysis) (target : NodeUuid)
    (delta : ModuleExecutionDelta) : Prop where
  /-- The slot that is looked at holds an analysis, or the slot that is written holds one that
  differs from the rehydrated one in its children at most. -/
  analysis : ∀ dict, delta.analysis = some dict →
    (∃ a, root.slot target dict.modulePath = some (some a)) ∨
      ∃ a, root.slot target (RootAnalysis.rehydrated rt dict).modulePath = some (some a) ∧
        { a with observables := [] } = RootAnalysis.rehydrated rt dict
  /-- Every new observable up to the first file that cannot be stored is a child of that analysis,
  unless the registry refuses it. -/
  placed : (placement rt root target delta).1 =
    root.shelf rt (replayParent rt root target delta.analysis)
  /-- What is set up to the first relationship that is not valid changes no observable. -/
  changed : ∀ o ∈ root.observables,
    (Change.total (outcomeChanges rt root (placement rt root target delta).2 target delta)
      o.uuid).apply (root.sameObservable rt) o = o

/-! ## §2 When the tree is left as it was -/

section Failure

variable {rt : Runtime} {root root' : RootAnalysis} {parent : Parent} {target : NodeUuid}
  {delta : ModuleExecutionDelta} {news : List Observable} {children : List NodeUuid}

def Observable.strip (o : Observable) : Observable :=
  { o with analysis := [] }

/-- What neither installing an analysis nor adding children changes. -/
structure SameBeside (root root' : RootAnalysis) : Prop where
  number : root.number = root'.number
  draws : root.draws = root'.draws
  tags : root.tags = root'.tags
  detections : root.detections = root'.detections
  observables : root.observables.map (·.strip) = root'.observables.map (·.strip)

theorem SameBeside.refl (root : RootAnalysis) : SameBeside root root := ⟨rfl, rfl, rfl, rfl, rfl⟩

theorem SameBeside.modify (h : SameBeside root root') (uuid : NodeUuid)
    {f : Observable → Observable} (hf : ∀ o, (f o).strip = o.strip) :
    SameBeside (root.modify uuid f) root' := by
  refine ⟨h.number, h.draws, h.tags, h.detections, ?_⟩
  rw [← h.observables, RootAnalysis.modify, map_map]
  apply map_congr_left
  intro o _
  rw [Function.comp_apply]
  split
  · exact hf o
  · rfl

theorem SameBeside.addChildren (h : SameBeside root root') (parent : Parent)
    (children : List NodeUuid) : SameBeside (root.addChildren parent children) root' := by
  cases parent with
  | root => exact ⟨h.number, h.draws, h.tags, h.detections, h.observables⟩
  | analysis uuid modulePath => exact h.modify uuid fun _ => rfl

theorem sameBeside_rehydrated (rt : Runtime) (root : RootAnalysis) (target : NodeUuid)
    (dict : Option AnalysisDict) :
    SameBeside (root.rehydrateAnalysis rt target dict).1 root := by
  rcases RootAnalysis.rehydrateAnalysis_cases rt root target dict with
    ⟨hkept, -⟩ | ⟨d, -, -, hroot, -⟩
  · rw [hkept]
    exact .refl root
  · rw [hroot]
    apply (SameBeside.refl root).modify
    intro o
    unfold Observable.setAnalysis
    split <;> rfl

theorem SameBeside.eq_of_skeleton (h : SameBeside root root')
    (hskeleton : root.skeleton = root'.skeleton) : root = root' := by
  have hobservables : root.observables = root'.observables := by
    have hboth : root.observables.map (fun o => (o.strip, o.analysis)) =
        root'.observables.map fun o => (o.strip, o.analysis) := by
      have hanalysis := congrArg (fun skeleton => skeleton.2.map Prod.snd) hskeleton
      simp only [RootAnalysis.skeleton, map_map, Function.comp_def] at hanalysis
      have hzip := congrArg₂ List.zip h.observables hanalysis
      simpa only [zip_map'] using hzip
    apply map_injective_iff.mpr _ hboth
    intro o o' heq
    obtain ⟨hstrip, hanalysis⟩ := Prod.mk.inj heq
    cases o
    cases o'
    simp only [Observable.strip, Observable.mk.injEq] at hstrip hanalysis ⊢
    simp only [hstrip, hanalysis, true_and]
  have hchildren := congrArg Prod.fst hskeleton
  obtain ⟨hnumber, hdraws, htags, hdetections, -⟩ := h
  cases root
  cases root'
  simp only [RootAnalysis.mk.injEq]
  exact ⟨hnumber, hdraws, hobservables, hchildren, htags, hdetections⟩

theorem skeleton_of_tree (h : root.tree = root'.tree) : root.skeleton = root'.skeleton := by
  show root.tree.skeleton = root'.tree.skeleton
  rw [h]

theorem change_eq_self_iff {same : NodeUuid → NodeUuid → Bool}
    {changes : List (NodeUuid × Change)} :
    root.change same changes = root ↔
      ∀ o ∈ root.observables, (Change.total changes o.uuid).apply same o = o := by
  have hmap : root.observables.map (fun o => (Change.total changes o.uuid).apply same o) =
      root.observables ↔ ∀ o ∈ root.observables, (Change.total changes o.uuid).apply same o = o := by
    conv_lhs => rhs; rw [← map_id root.observables]
    exact map_inj_left
  rw [← hmap]
  constructor
  · exact congrArg RootAnalysis.observables
  · intro h
    rw [RootAnalysis.change, h]

theorem RootAnalysis.WellFormed.holds (hroot : root.WellFormed) {a : AnalysisObject}
    (h : root.slot target a.modulePath = some (some a)) :
    ∀ o ∈ root.observables, o.uuid = target → o.Holds a := by
  rintro o ho rfl
  obtain ⟨o', ho', hlookup⟩ := Option.bind_eq_some_iff.mp h
  have hdistinct : (root.observables.map (·.uuid)).Nodup := by
    have hnodup := hroot.sound.distinct
    rwa [RootAnalysis.identities, map_map] at hnodup
  obtain rfl : o' = o := inj_on_of_nodup_map hdistinct (List.mem_of_find?_eq_some ho') ho
    (RootAnalysis.getObservable_uuid ho')
  obtain ⟨before, after, hslots, -⟩ := lookup_eq_some_iff.mp hlookup
  have hmem : (a.modulePath, some a) ∈ o'.analysis := by simp [hslots]
  refine ⟨any_eq_true.mpr ⟨_, hmem, decide_eq_true rfl⟩, ?_⟩
  intro slot hslot hpath
  rw [inj_on_of_nodup_map (hroot.slots o' ho) hslot hmem hpath]

theorem grown_eq_iff (hroot : root.WellFormed) (htarget : root.Has target)
    (htakes : RootAnalysis.Takes rt (root.rehydrateAnalysis rt target delta.analysis).1
      (replayParent rt root target delta.analysis) (placement rt root target delta).1 news children) :
    (root.rehydrateAnalysis rt target delta.analysis).1.take
        (replayParent rt root target delta.analysis) news children = root ↔
      (∀ dict, delta.analysis = some dict →
        (∃ a, root.slot target dict.modulePath = some (some a)) ∨
          ∃ a, root.slot target (RootAnalysis.rehydrated rt dict).modulePath = some (some a) ∧
            { a with observables := [] } = RootAnalysis.rehydrated rt dict) ∧
      (placement rt root target delta).1 =
        root.shelf rt (replayParent rt root target delta.analysis) := by
  have hparent := hasParent_rehydrated htarget rt delta.analysis
  constructor
  · intro h
    have hshelf : ((root.rehydrateAnalysis rt target delta.analysis).1.take
        (replayParent rt root target delta.analysis) news children).shelf rt
          (replayParent rt root target delta.analysis) = (placement rt root target delta).1 := by
      rw [RootAnalysis.shelf_take hparent, ← htakes.entries, ← htakes.taken]
    rw [h] at hshelf
    refine ⟨?_, hshelf.symm⟩
    intro dict hdict
    rcases RootAnalysis.rehydrateAnalysis_cases rt root target delta.analysis with
      ⟨-, ⟨-, hnone⟩ | ⟨d, a, hsome, hslot, -⟩⟩ | ⟨d, hsome, -, hroot, hpath⟩
    · cases hnone.symm.trans hdict
    · obtain rfl := Option.some.inj (hsome.symm.trans hdict)
      exact .inl ⟨a, hslot⟩
    · obtain rfl := Option.some.inj (hsome.symm.trans hdict)
      have hinstalled : ((root.addAnalysis target (RootAnalysis.rehydrated rt d)).take
          (.analysis target (RootAnalysis.rehydrated rt d).modulePath) news children).slot target
            (RootAnalysis.rehydrated rt d).modulePath =
              some (some ((RootAnalysis.rehydrated rt d).addChildren children)) :=
        RootAnalysis.slot_take (RootAnalysis.slot_addAnalysis htarget)
      rw [hroot, hpath] at h
      rw [h] at hinstalled
      exact .inr ⟨_, hinstalled, rfl⟩
  · rintro ⟨hanalysis, hplaced⟩
    have hidentities := (hroot.sound.rehydrateAnalysis rt target delta.analysis).2
    have hnews : news = [] := by
      have hlength := congrArg (fun s => s.entries.length) hplaced
      simp only [htakes.entries, RootAnalysis.shelf, hidentities, length_append,
        length_map] at hlength
      exact eq_nil_of_length_eq_zero (by omega)
    have htaken := htakes.taken
    rw [hplaced] at htaken
    rw [hnews, RootAnalysis.take_nil]
    rcases RootAnalysis.rehydrateAnalysis_cases rt root target delta.analysis with
      ⟨hkept, -⟩ | ⟨d, hsome, hslot, hinstalled, hpath⟩
    · rw [hkept] at htaken ⊢
      rw [self_eq_append_right.mp htaken, RootAnalysis.addChildren_nil]
    · -- the slot that is written holds the analysis with the children that are added
      obtain ⟨a, ha⟩ | ⟨a, ha, hrest⟩ := hanalysis d hsome
      · exact absurd ha (hslot a)
      · have hpaths : a.modulePath = (RootAnalysis.rehydrated rt d).modulePath :=
          by rw [← hrest]
        rw [hinstalled, hpath] at htaken ⊢
        have hinstalledChildren := RootAnalysis.childrenOf_of_slot
          (RootAnalysis.slot_addAnalysis (a := RootAnalysis.rehydrated rt d) htarget)
        have hobservables : a.observables = children := by
          rw [← RootAnalysis.childrenOf_of_slot ha]
          simp only [RootAnalysis.shelf, hinstalledChildren] at htaken
          exact htaken
        have hchildren : a = (RootAnalysis.rehydrated rt d).addChildren children := by
          rw [← hrest, ← hobservables]
          rfl
        apply RootAnalysis.reinstall_eq
        rw [← hchildren]
        exact hroot.holds (hpaths ▸ ha)

end Failure

/-! ## §3 A file that cannot be stored -/

section Examples

/-- The blobs are there, but no file can be written into the file directory. -/
def unwritableRuntime : Runtime :=
  { plainRuntime with storeFile := fun _ _ => none }

def foundFile : ObservableSpec :=
  { foundUrl with uuid := ⟨0, 2⟩, type := "file", value := "c0ffee", filePath := some "a.bin" }

def foundFileDelta (specs : List ObservableSpec) : ModuleExecutionDelta :=
  { foundUrlDelta .empty with newObservables := specs ++ [foundFile] }

end Examples

end Ace3.Analysis
