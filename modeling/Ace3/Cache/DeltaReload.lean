import Ace3.Cache.DeltaDict

/-!
# Deltas Behind a Serializer

What `from_dict` makes of the dictionary of a delta that was written and read back.
-/

namespace Ace3.Cache

open List
open Lib.FallibleMap
open Lib.Json
open Lib.Json.Value (reloadDict reloadDict_eq_self_iff isJsonDict)

/-! ## §1 Fields -/

@[simp] theorem str?_reload (s : String) : str? (Value.str s).reload = some s := rfl

@[simp] theorem int?_reload (i : Int) : int? (Value.int i).reload = some i := rfl

@[simp] theorem dict?_reload (items : Dict) :
    dict? (Value.dict items).reload = some (reloadDict items) := rfl

@[simp] theorem listOf_strings (items : List String) :
    listOf str? ((stringsField items).map Value.reload) = some items := by
  have h : _ = some (items.map id) := listOf_reload str?_reload items
  rwa [map_id] at h

@[simp] theorem listOf_dicts (items : List Dict) :
    listOf dict? ((dictsField items).map Value.reload) = some (items.map reloadDict) :=
  listOf_reload dict?_reload items

@[simp] theorem optionalStr?_reload (value : Option String) :
    optionalStr? ((strField value).map Value.reload) = some value := by
  cases value <;> rfl

@[simp] theorem flag?_reload (value : Bool) :
    flag? ((flagField value).map Value.reload) = some value := by
  cases value <;> rfl

@[simp] theorem flags?_reload (value : Option (Bool × Bool)) :
    flags? ((flagsField value).map Value.reload) = some value := by
  cases value <;> rfl

@[simp] theorem redirection?_reload (value : Option (Option String × Option String)) :
    redirection? ((redirectionField value).map Value.reload) = some value := by
  cases value with
  | none => rfl
  | some value =>
    obtain ⟨before, after⟩ := value
    cases before <;> cases after <;> rfl

/-! ## §2 Records -/

def ObservableDiff.reload (diff : ObservableDiff) : ObservableDiff :=
  { diff with
    addedDetections := diff.addedDetections.map reloadDict
    removedDetections := diff.removedDetections.map reloadDict
    addedRelationships := diff.addedRelationships.map reloadDict
    removedRelationships := diff.removedRelationships.map reloadDict }

def ObservableSpec.reload (spec : ObservableSpec) : ObservableSpec :=
  { spec with
    initialDetections := spec.initialDetections.map reloadDict
    initialRelationships := spec.initialRelationships.map reloadDict }

def RootDiff.reload (diff : RootDiff) : RootDiff :=
  { diff with
    addedDetections := diff.addedDetections.map reloadDict
    removedDetections := diff.removedDetections.map reloadDict }

/-- A delta as it is read back, without the empty diffs that `to_dict` drops. -/
def ModuleExecutionDelta.reload (delta : ModuleExecutionDelta) : ModuleExecutionDelta :=
  { delta with
    analysis := delta.analysis.map reloadDict
    targetObservableDiff := delta.targetObservableDiff.reload
    newObservables := delta.newObservables.map (·.reload)
    rootDiff := delta.rootDiff.reload
    otherObservableDiffs := (delta.otherObservableDiffs.filter (!·.2.isEmpty)).map fun item =>
      (item.1, item.2.reload)
    analysisChildrenDiffs := delta.analysisChildrenDiffs.filter (!·.isEmpty) }

theorem ObservableDiff.fromDict_reload (diff : ObservableDiff) :
    fromDict (reloadDict diff.toDict) = some diff.reload := by
  simp [fromDict, toDict, Dict.get_reloadDict, Dict.get_ofFields_cons, reload]

theorem ObservableSpec.fromDict_reload (spec : ObservableSpec) :
    fromDict (reloadDict spec.toDict) = some spec.reload := by
  simp [fromDict, toDict, Dict.get_reloadDict, Dict.get_ofFields_cons, reload]

theorem RootDiff.fromDict_reload (diff : RootDiff) :
    fromDict (reloadDict diff.toDict) = some diff.reload := by
  simp [fromDict, toDict, Dict.get_reloadDict, Dict.get_ofFields_cons, reload]

theorem AnalysisChildrenDiff.fromDict_reload (diff : AnalysisChildrenDiff) :
    fromDict (reloadDict diff.toDict) = some diff := by
  simp [fromDict, toDict, Dict.get_reloadDict, Dict.get_ofFields_cons]

theorem observableDiffs?_reload (diffs : List (String × ObservableDiff)) :
    observableDiffs? ((ModuleExecutionDelta.otherObservableDiffsField diffs).map Value.reload) =
      some ((diffs.filter (!·.2.isEmpty)).map fun item => (item.1, item.2.reload)) := by
  cases diffs with
  | nil => rfl
  | cons diff diffs =>
    simp only [ModuleExecutionDelta.otherObservableDiffsField, isEmpty_cons,
      Bool.false_eq_true, if_false, Option.map_some, Value.reload, observableDiffs?,
      Value.reloadDict_eq_map, map_map, mapM_map]
    apply mapM_eq_some_map
    intro item
    simp [ObservableDiff.fromDict_reload]

theorem analysisChildrenDiffs_reload (diffs : List AnalysisChildrenDiff) :
    listOf (fun value => (dict? value).bind AnalysisChildrenDiff.fromDict)
      ((ModuleExecutionDelta.analysisChildrenDiffsField diffs).map Value.reload) =
        some (diffs.filter (!·.isEmpty)) := by
  cases diffs with
  | nil => rfl
  | cons diff diffs =>
    simp only [ModuleExecutionDelta.analysisChildrenDiffsField, isEmpty_cons,
      Bool.false_eq_true, if_false, Option.map_some, Value.reload, listOf,
      Value.reloadList_eq_map, map_map, mapM_map]
    have h := mapM_eq_some_map (g := id) AnalysisChildrenDiff.fromDict_reload
      ((diff :: diffs).filter (!·.isEmpty))
    rw [map_id] at h
    exact h

theorem newObservables_reload (specs : List ObservableSpec) :
    listOf (fun value => (dict? value).bind ObservableSpec.fromDict)
      ((listField (fun spec => Value.dict spec.toDict) specs).map Value.reload) =
        some (specs.map (·.reload)) :=
  listOf_reload (fun spec => ObservableSpec.fromDict_reload spec) specs

variable {α : Type*}

theorem record_reload {fromDict : Dict → Option α} {toDict : Dict} {default record : α}
    {isEmpty : Bool} (hrecord : fromDict (reloadDict toDict) = some record)
    (hempty : isEmpty = true → default = record) :
    valueOr (fun value => (dict? value).bind fromDict) default
      ((recordField isEmpty toDict).map Value.reload) = some record := by
  cases isEmpty with
  | true => simp [recordField, valueOr, hempty]
  | false => simp [recordField, valueOr, hrecord]

theorem ObservableDiff.reload_of_isEmpty {diff : ObservableDiff} (h : diff.isEmpty = true) :
    .empty = diff.reload := by
  simp only [isEmpty, Bool.and_eq_true, List.isEmpty_iff, Option.isNone_iff_eq_none] at h
  simp [empty, reload, h]

theorem RootDiff.reload_of_isEmpty {diff : RootDiff} (h : diff.isEmpty = true) :
    .empty = diff.reload := by
  simp only [isEmpty, Bool.and_eq_true, List.isEmpty_iff] at h
  simp [empty, reload, h]

@[simp] theorem valueOr_some (decode : Value → Option α) (default : α) (value : Value) :
    valueOr decode default (some value) = decode value := rfl

theorem rootUuid_reload (rootUuid : String) :
    valueOr str? "" ((if rootUuid = "" then none else some (Value.str rootUuid)).map
      Value.reload) = some rootUuid := by
  by_cases h : rootUuid = ""
  · simp [h, valueOr]
  · simp [h, valueOr]

theorem analysis?_reload (analysis : Option Dict) :
    analysis? ((dictField analysis).map Value.reload) = some (analysis.map reloadDict) := by
  cases analysis <;> rfl

theorem analysis?_dict (analysis : Dict) :
    analysis? (some (.dict analysis)) = some (some analysis) := rfl

namespace ModuleExecutionDelta

theorem fromDict_reload (delta : ModuleExecutionDelta) :
    fromDict (reloadDict delta.toDict) = some delta.reload := by
  have htarget := record_reload delta.targetObservableDiff.fromDict_reload
    ObservableDiff.reload_of_isEmpty
  have hroot := record_reload delta.rootDiff.fromDict_reload RootDiff.reload_of_isEmpty
  simp [fromDict, toDict, Dict.get_reloadDict, Dict.get_ofFields_cons, reload, htarget, hroot,
    observableDiffs?_reload, analysisChildrenDiffs_reload, newObservables_reload, rootUuid_reload,
    analysis?_reload]

theorem fromDict_set_analysis (delta : ModuleExecutionDelta) (analysis : Dict) :
    fromDict ((reloadDict delta.toDict).set "analysis" (.dict analysis)) =
      some { delta.reload with analysis := some analysis } := by
  have htarget := record_reload delta.targetObservableDiff.fromDict_reload
    ObservableDiff.reload_of_isEmpty
  have hroot := record_reload delta.rootDiff.fromDict_reload RootDiff.reload_of_isEmpty
  simp [fromDict, toDict, Dict.get_set, Dict.get_reloadDict, Dict.get_ofFields_cons, reload,
    htarget, hroot, observableDiffs?_reload, analysisChildrenDiffs_reload, newObservables_reload,
    rootUuid_reload, analysis?_dict]

theorem get_analysis_toDict (delta : ModuleExecutionDelta) :
    delta.toDict.get "analysis" = delta.analysis.map .dict := by
  simp [toDict, Dict.get_ofFields_cons, dictField]

end ModuleExecutionDelta

/-! ## §3 What is read back as it is -/

theorem map_eq_self_iff {f : α → α} {items : List α} :
    items.map f = items ↔ ∀ item ∈ items, f item = item := by
  induction items with
  | nil => simp
  | cons item items ih => simp [ih]

theorem map_filter_eq_self_iff {f : α → α} {p : α → Bool} {items : List α} :
    (items.filter p).map f = items ↔ ∀ item ∈ items, p item = true ∧ f item = item := by
  constructor
  · intro h
    have hlength : (items.filter p).length = items.length := by
      rw [← length_map (f := f), h]
    have hkept := length_filter_eq_length_iff.mp hlength
    rw [filter_eq_self.mpr hkept] at h
    exact fun item hitem => ⟨hkept item hitem, map_eq_self_iff.mp h item hitem⟩
  · intro h
    rw [filter_eq_self.mpr fun item hitem => (h item hitem).1]
    exact map_eq_self_iff.mpr fun item hitem => (h item hitem).2

theorem dicts_eq_self_iff {items : List Dict} :
    items.map reloadDict = items ↔ items.all isJsonDict = true := by
  simp only [map_eq_self_iff, all_eq_true, reloadDict_eq_self_iff]

def ObservableDiff.isJson (diff : ObservableDiff) : Bool :=
  diff.addedDetections.all isJsonDict && diff.removedDetections.all isJsonDict &&
    diff.addedRelationships.all isJsonDict && diff.removedRelationships.all isJsonDict

def ObservableSpec.isJson (spec : ObservableSpec) : Bool :=
  spec.initialDetections.all isJsonDict && spec.initialRelationships.all isJsonDict

def RootDiff.isJson (diff : RootDiff) : Bool :=
  diff.addedDetections.all isJsonDict && diff.removedDetections.all isJsonDict

theorem ObservableDiff.reload_eq_self_iff {diff : ObservableDiff} :
    diff.reload = diff ↔ diff.isJson = true := by
  cases diff
  simp [reload, isJson, dicts_eq_self_iff, and_assoc]

theorem ObservableSpec.reload_eq_self_iff {spec : ObservableSpec} :
    spec.reload = spec ↔ spec.isJson = true := by
  cases spec
  simp [reload, isJson, dicts_eq_self_iff]

theorem RootDiff.reload_eq_self_iff {diff : RootDiff} :
    diff.reload = diff ↔ diff.isJson = true := by
  cases diff
  simp [reload, isJson, dicts_eq_self_iff]

namespace ModuleExecutionDelta

/-- All dictionaries of the delta besides its analysis entry are JSON, and no diff on another
observable or analysis is empty. -/
def isJson (delta : ModuleExecutionDelta) : Bool :=
  delta.targetObservableDiff.isJson && delta.newObservables.all (·.isJson) &&
    delta.rootDiff.isJson && delta.otherObservableDiffs.all (fun item =>
      !item.2.isEmpty && item.2.isJson) &&
    delta.analysisChildrenDiffs.all (!·.isEmpty)

theorem reload_eq_self_iff {delta : ModuleExecutionDelta} :
    delta.reload = delta ↔ delta.analysis.all isJsonDict = true ∧ delta.isJson = true := by
  have hanalysis : delta.analysis.map reloadDict = delta.analysis ↔
      delta.analysis.all isJsonDict = true := by
    cases delta.analysis with
    | none => simp
    | some analysis => simp [reloadDict_eq_self_iff]
  have hspecs : delta.newObservables.map (·.reload) = delta.newObservables ↔
      delta.newObservables.all (·.isJson) = true := by
    simp only [map_eq_self_iff, all_eq_true, ObservableSpec.reload_eq_self_iff]
  have hothers : ((delta.otherObservableDiffs.filter (!·.2.isEmpty)).map fun item =>
        (item.1, item.2.reload)) = delta.otherObservableDiffs ↔
      delta.otherObservableDiffs.all (fun item => !item.2.isEmpty && item.2.isJson) = true := by
    simp [map_filter_eq_self_iff, Prod.ext_iff, ObservableDiff.reload_eq_self_iff]
  have hchildren : delta.analysisChildrenDiffs.filter (!·.isEmpty) =
        delta.analysisChildrenDiffs ↔
      delta.analysisChildrenDiffs.all (!·.isEmpty) = true := by
    simp [filter_eq_self]
  rw [← hanalysis, isJson]
  simp only [Bool.and_eq_true, ← hspecs, ← hothers, ← hchildren,
    ← ObservableDiff.reload_eq_self_iff, ← RootDiff.reload_eq_self_iff]
  cases delta
  simp [reload, and_assoc]

theorem reload_with_analysis_eq_iff {delta : ModuleExecutionDelta} {analysis : Option Dict} :
    { delta.reload with analysis := analysis } = delta ↔
      analysis = delta.analysis ∧ delta.isJson = true := by
  have hrest : reload { delta with analysis := none } = { delta with analysis := none } ↔
      _ ∧ isJson { delta with analysis := none } = true := reload_eq_self_iff
  simp only [Option.all_none, true_and] at hrest
  change _ ↔ _ ∧ ModuleExecutionDelta.isJson { delta with analysis := none } = true
  rw [← hrest]
  cases delta
  simp [reload, and_left_comm]

end ModuleExecutionDelta

end Ace3.Cache
