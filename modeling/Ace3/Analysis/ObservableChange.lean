import Ace3.Analysis.ReplayRegistry

/-!
# Changes of Observables

What a replay changes of an observable, as one record: what it appends to the lists of the
observable, which take nothing twice, and the fields that it sets. Changes compose, and making one
twice is making it once.
-/

namespace Ace3.Analysis

open List Function

/-! ## §1 Lists that take nothing twice -/

section AddUnlike

variable {α : Type*} (like : α → α → Bool)

def addUnlike (items : List α) (item : α) : List α :=
  if items.any (like · item) then items else items ++ [item]

theorem addNew_eq_addUnlike [DecidableEq α] (items : List α) (item : α) :
    addNew items item = addUnlike (· = ·) items item := by
  simp [addNew, addUnlike]

variable {like} {items : List α}

theorem addUnlike_of_any {item : α} (h : items.any (like · item)) :
    addUnlike like items item = items := if_pos h

theorem any_addUnlike {item item' : α} (h : items.any (like · item')) :
    (addUnlike like items item).any (like · item') := by
  unfold addUnlike
  split
  · exact h
  · rw [any_append, h, Bool.true_or]

theorem any_addUnlike_self {item : α} (h : like item item) :
    (addUnlike like items item).any (like · item) := by
  unfold addUnlike
  split
  next hany => exact hany
  next => simp [h]

theorem any_foldl_addUnlike (added : List α) {item : α} (h : items.any (like · item)) :
    (added.foldl (addUnlike like) items).any (like · item) := by
  induction added generalizing items with
  | nil => exact h
  | cons first added ih => exact ih (any_addUnlike h)

theorem any_foldl_addUnlike_of_mem {added : List α} {item : α} (hitem : item ∈ added)
    (h : like item item) : (added.foldl (addUnlike like) items).any (like · item) := by
  induction added generalizing items with
  | nil => cases hitem
  | cons first added ih =>
    rcases mem_cons.mp hitem with rfl | hitem
    · exact any_foldl_addUnlike added (any_addUnlike_self h)
    · exact ih hitem

theorem foldl_addUnlike_of_any {added : List α} (h : ∀ item ∈ added, items.any (like · item)) :
    added.foldl (addUnlike like) items = items := by
  induction added with
  | nil => rfl
  | cons first added ih =>
    rw [foldl_cons, addUnlike_of_any (h first mem_cons_self)]
    exact ih fun item hitem => h item (mem_cons_of_mem _ hitem)

theorem foldl_addUnlike_twice (added : List α) (h : ∀ item ∈ added, like item item) :
    added.foldl (addUnlike like) (added.foldl (addUnlike like) items) =
      added.foldl (addUnlike like) items :=
  foldl_addUnlike_of_any fun item hitem => any_foldl_addUnlike_of_mem hitem (h item hitem)

end AddUnlike

theorem foldl_addNew_twice {α : Type*} [DecidableEq α] (added items : List α) :
    added.foldl addNew (added.foldl addNew items) = added.foldl addNew items := by
  have hadd : (addNew : List α → α → List α) = addUnlike (· = ·) := by
    funext items item
    exact addNew_eq_addUnlike items item
  rw [hadd]
  exact foldl_addUnlike_twice added fun _ _ => decide_eq_true rfl

/-! ## §2 Changes -/

/-- What is appended to the lists of an observable, and the fields that are set. -/
structure Change where
  tags : List String
  detections : List DetectionPoint
  directives : List String
  relationships : List Relationship
  excludedAnalysis : List String
  limitedAnalysis : List String
  groupingTarget : Option Bool
  redirection : Option (Option NodeUuid)
  ignored : Option Bool
  deriving DecidableEq

namespace Change

def nothing : Change := ⟨[], [], [], [], [], [], none, none, none⟩

/-- One change after another: what is set last counts. -/
def append (c d : Change) : Change where
  tags := c.tags ++ d.tags
  detections := c.detections ++ d.detections
  directives := c.directives ++ d.directives
  relationships := c.relationships ++ d.relationships
  excludedAnalysis := c.excludedAnalysis ++ d.excludedAnalysis
  limitedAnalysis := c.limitedAnalysis ++ d.limitedAnalysis
  groupingTarget := d.groupingTarget.or c.groupingTarget
  redirection := d.redirection.or c.redirection
  ignored := d.ignored.or c.ignored

def likeRelationship (same : NodeUuid → NodeUuid → Bool) (r r' : Relationship) : Bool :=
  r.rType = r'.rType ∧ same r.target r'.target

/-- The change of an observable, where `same` tells which uuids lead to equal observables. -/
def apply (same : NodeUuid → NodeUuid → Bool) (c : Change) (o : Observable) : Observable :=
  { o with
    tags := c.tags.foldl addNew o.tags
    detections := c.detections.foldl addNew o.detections
    directives := c.directives.foldl addNew o.directives
    relationships := c.relationships.foldl (addUnlike (likeRelationship same)) o.relationships
    excludedAnalysis := c.excludedAnalysis.foldl addNew o.excludedAnalysis
    limitedAnalysis := c.limitedAnalysis.foldl addNew o.limitedAnalysis
    groupingTarget := c.groupingTarget.getD o.groupingTarget
    redirection := c.redirection.getD o.redirection
    ignored := c.ignored.getD o.ignored }

variable {same : NodeUuid → NodeUuid → Bool} {c d : Change} {o : Observable}

@[simp]
theorem apply_identity :
    (c.apply same o).toObservableIdentity = o.toObservableIdentity := rfl

@[simp]
theorem apply_nothing : nothing.apply same o = o := rfl

theorem getD_or {α : Type*} (x y : Option α) (a : α) : (x.or y).getD a = x.getD (y.getD a) := by
  cases x <;> rfl

@[simp]
theorem apply_append : (c.append d).apply same o = d.apply same (c.apply same o) := by
  simp only [apply, append, foldl_append, getD_or]

theorem getD_getD {α : Type*} (x : Option α) (a : α) : x.getD (x.getD a) = x.getD a := by
  cases x <;> rfl

theorem apply_twice (h : ∀ r ∈ c.relationships, same r.target r.target) :
    c.apply same (c.apply same o) = c.apply same o := by
  have hlike : ∀ r ∈ c.relationships, likeRelationship same r r := by
    intro r hr
    exact decide_eq_true ⟨rfl, h r hr⟩
  simp only [apply, foldl_addNew_twice, foldl_addUnlike_twice c.relationships hlike, getD_getD]

theorem apply_congr {same' : NodeUuid → NodeUuid → Bool} (h : c.relationships = []) :
    c.apply same o = c.apply same' o := by
  simp only [apply, h, foldl_nil]

end Change

/-! ## §3 The changes of a root -/

def Change.total (changes : List (NodeUuid × Change)) (uuid : NodeUuid) : Change :=
  changes.foldr (fun change rest => if change.1 = uuid then change.2.append rest else rest) nothing

namespace RootAnalysis

variable {same : NodeUuid → NodeUuid → Bool} {root : RootAnalysis}
  {changes changes' : List (NodeUuid × Change)}

def change (same : NodeUuid → NodeUuid → Bool) (root : RootAnalysis)
    (changes : List (NodeUuid × Change)) : RootAnalysis :=
  { root with
    observables := root.observables.map fun o => (Change.total changes o.uuid).apply same o }

@[simp]
theorem change_nil : root.change same [] = root := by
  simp [change, Change.total]

theorem change_cons (uuid : NodeUuid) (c : Change) :
    root.change same ((uuid, c) :: changes) =
      (root.modify uuid (c.apply same)).change same changes := by
  simp only [change, modify, map_map, RootAnalysis.mk.injEq, true_and, and_true]
  apply map_congr_left
  intro o _
  simp only [comp_apply]
  by_cases huuid : o.uuid = uuid
  · rw [if_pos huuid]
    simp only [Change.total, foldr_cons, huuid, if_true, Change.apply_append,
      Change.apply_identity]
  · rw [if_neg huuid]
    simp only [Change.total, foldr_cons, Ne.symm huuid, if_false]

theorem change_append :
    root.change same (changes ++ changes') = (root.change same changes).change same changes' := by
  induction changes generalizing root with
  | nil => simp
  | cons first changes ih =>
    obtain ⟨uuid, c⟩ := first
    rw [cons_append, change_cons, change_cons, ih]

@[simp]
theorem identities_change : (root.change same changes).identities = root.identities := by
  simp only [identities, change, map_map]
  rfl

theorem mem_relationships_total {uuid : NodeUuid} {r : Relationship}
    (h : r ∈ (Change.total changes uuid).relationships) :
    ∃ c ∈ changes, r ∈ c.2.relationships := by
  induction changes with
  | nil => cases h
  | cons first changes ih =>
    simp only [Change.total, foldr_cons] at h
    split at h
    · rcases mem_append.mp h with h | h
      · exact ⟨first, mem_cons_self, h⟩
      · obtain ⟨c, hc, hr⟩ := ih h
        exact ⟨c, mem_cons_of_mem _ hc, hr⟩
    · obtain ⟨c, hc, hr⟩ := ih h
      exact ⟨c, mem_cons_of_mem _ hc, hr⟩

theorem change_congr {same' : NodeUuid → NodeUuid → Bool}
    (h : ∀ c ∈ changes, c.2.relationships = []) :
    root.change same changes = root.change same' changes := by
  simp only [change, RootAnalysis.mk.injEq, true_and, and_true]
  apply map_congr_left
  intro o _
  apply Change.apply_congr
  rw [eq_nil_iff_forall_not_mem]
  intro r hr
  obtain ⟨c, hc, hr⟩ := mem_relationships_total hr
  rw [h c hc] at hr
  cases hr

theorem change_twice (h : ∀ c ∈ changes, ∀ r ∈ c.2.relationships, same r.target r.target) :
    (root.change same changes).change same changes = root.change same changes := by
  simp only [change, map_map, RootAnalysis.mk.injEq, true_and, and_true]
  apply map_congr_left
  intro o _
  simp only [comp_apply, Change.apply_identity]
  apply Change.apply_twice
  intro r hr
  obtain ⟨c, hc, hr⟩ := mem_relationships_total hr
  exact h c hc r hr

end RootAnalysis

/-! ## §4 The steps of a replay -/

section Steps

variable (rt : Runtime) (same : NodeUuid → NodeUuid → Bool) (o : Observable)

theorem foldl_addTag (tags : List String) :
    tags.foldl Observable.addTag o = { o with tags := tags.foldl addNew o.tags } := by
  induction tags generalizing o with
  | nil => rfl
  | cons tag tags ih => exact ih (o.addTag tag)

theorem foldl_addDirective (directives : List String) :
    directives.foldl Observable.addDirective o =
      { o with directives := directives.foldl addNew o.directives } := by
  induction directives generalizing o with
  | nil => rfl
  | cons directive directives ih => exact ih (o.addDirective directive)

theorem foldl_addDetectionPoint (detections : List DetectionPoint) :
    detections.foldl Observable.addDetectionPoint o =
      { o with detections := detections.foldl addNew o.detections } := by
  induction detections generalizing o with
  | nil => rfl
  | cons detection detections ih => exact ih (o.addDetectionPoint detection)

theorem foldl_addExcludedAnalysis (names : List String) :
    names.foldl Observable.addExcludedAnalysis o =
      { o with excludedAnalysis := names.foldl addNew o.excludedAnalysis } := by
  induction names generalizing o with
  | nil => rfl
  | cons name names ih => exact ih (o.addExcludedAnalysis name)

theorem foldl_addLimitedAnalysis (names : List String) :
    names.foldl Observable.addLimitedAnalysis o =
      { o with limitedAnalysis := names.foldl addNew o.limitedAnalysis } := by
  induction names generalizing o with
  | nil => rfl
  | cons name names ih => exact ih (o.addLimitedAnalysis name)

def ObservableSpec.change (spec : ObservableSpec) : Change where
  tags := spec.initialTags
  detections := spec.initialDetections.filterMap (addDetectionDict rt)
  directives := spec.initialDirectives
  relationships := []
  excludedAnalysis := spec.initialExcludedAnalysis
  limitedAnalysis := spec.initialLimitedAnalysis
  groupingTarget := none
  redirection := none
  ignored := none

theorem applySpec_eq_change (spec : ObservableSpec) :
    o.applySpec rt spec = (spec.change rt).apply same o := by
  simp only [Observable.applySpec, Observable.addDetectionDicts, foldl_addTag, foldl_addDirective,
    foldl_addDetectionPoint, foldl_addExcludedAnalysis, foldl_addLimitedAnalysis]
  rfl

def ObservableDiff.marks (diff : ObservableDiff) : Change :=
  { Change.nothing with
    tags := diff.addedTags
    detections := diff.addedDetections.filterMap (addDetectionDict rt)
    directives := diff.addedDirectives }

theorem applyMarks_eq_change (diff : ObservableDiff) :
    o.applyMarks rt diff = (diff.marks rt).apply same o := by
  simp only [Observable.applyMarks, Observable.addDetectionDicts, foldl_addTag, foldl_addDirective,
    foldl_addDetectionPoint]
  rfl

def ObservableDiff.settings (diff : ObservableDiff) : Change :=
  { Change.nothing with
    excludedAnalysis := diff.addedExcludedAnalysis
    limitedAnalysis := diff.addedLimitedAnalysis
    groupingTarget := diff.groupingTarget.map (·.2)
    redirection := diff.redirection.map (·.2)
    ignored := diff.ignored.map (·.2) }

theorem applySettings_eq_change (diff : ObservableDiff) (recorded target : NodeUuid)
    (replay : Replay) :
    (((replay.modify target (·.applyLimits diff)).applyRedirection recorded target
      diff.redirection).modify target (·.applyIgnored diff)).root =
        replay.root.modify target (diff.settings.apply same) := by
  have hlimits (o : Observable) : (o.applyLimits diff) =
      { o with
        excludedAnalysis := diff.addedExcludedAnalysis.foldl addNew o.excludedAnalysis
        limitedAnalysis := diff.addedLimitedAnalysis.foldl addNew o.limitedAnalysis
        groupingTarget := (diff.groupingTarget.map (·.2)).getD o.groupingTarget } := by
    simp only [Observable.applyLimits, foldl_addExcludedAnalysis, foldl_addLimitedAnalysis]
    cases diff.groupingTarget <;> rfl
  have hredirection (replay : Replay) :
      (replay.applyRedirection recorded target diff.redirection).root =
        replay.root.modify target fun o =>
          { o with redirection := (diff.redirection.map (·.2)).getD o.redirection } := by
    cases hredirection : diff.redirection with
    | none => simp [Replay.applyRedirection, RootAnalysis.modify]
    | some transition =>
      simp [Replay.applyRedirection, Replay.setRedirection, comp_def]
  have hignored (o : Observable) : o.applyIgnored diff =
      { o with ignored := (diff.ignored.map (·.2)).getD o.ignored } := by
    unfold Observable.applyIgnored
    cases diff.ignored <;> rfl
  simp only [Replay.modify, hredirection, RootAnalysis.modify, map_map, RootAnalysis.mk.injEq,
    true_and, and_true]
  apply map_congr_left
  intro o _
  by_cases huuid : o.uuid = target
  · simp only [comp_apply, huuid, if_true, hlimits, hignored]
    rfl
  · simp only [comp_apply, huuid, if_false]

end Steps

/-- A relationship that is added, or a redirection that is set. -/
def EndpointWrite.change (write : EndpointWrite) : NodeUuid × Change :=
  (write.source,
    match write.reference.rType with
    | some rType => { Change.nothing with relationships := [⟨rType, write.target⟩] }
    | none => { Change.nothing with redirection := some (some write.target) })

/-- `add_relationship` accepts the type. -/
def EndpointWrite.Valid (write : EndpointWrite) : Prop :=
  ∀ rType ∈ write.reference.rType, rType ∈ validRelationshipTypes

instance : DecidablePred EndpointWrite.Valid :=
  fun write => inferInstanceAs (Decidable (∀ rType ∈ write.reference.rType, _))

end Ace3.Analysis
