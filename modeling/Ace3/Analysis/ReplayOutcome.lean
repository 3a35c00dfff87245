import Ace3.Analysis.ReplayPlacement
import Ace3.Analysis.ReferenceClosure

/-!
# What a Replay Leaves Behind

`apply_delta` with the root that it leaves behind when it raises: what the steps in front of the
one that raises have done stays.
-/

namespace Ace3.Analysis

open List RootAnalysis
open Lib

/-! ## §1 The steps -/

/-- A step that leaves this root behind when it raises. -/
def attempt {α : Type} (root : RootAnalysis) : Option α → Except RootAnalysis α
  | none => .error root
  | some a => .ok a

/-- The loop over `new_observables`. A file that cannot be stored changes nothing any more. -/
def attemptObservableSpecs (rt : Runtime) (parent : Parent) (root : RootAnalysis)
    (uuidMap : UuidMap) : List ObservableSpec → Except RootAnalysis (RootAnalysis × UuidMap)
  | [] => .ok (root, uuidMap)
  | spec :: specs =>
    match root.applyObservableSpec rt parent spec with
    | none => .error root
    | some (root, none) => attemptObservableSpecs rt parent root uuidMap specs
    | some (root, some uuid) =>
      attemptObservableSpecs rt parent root ((spec.uuid, uuid) :: uuidMap) specs

def attemptRelationships (rt : Runtime) (uuidMap : UuidMap) (recorded source : NodeUuid)
    (replay : Replay) (rels : List RelationshipDict) : Except RootAnalysis Replay :=
  rels.foldlM (fun replay rel =>
    attempt replay.root (replay.applyRelationship rt uuidMap recorded source rel)) replay

/-- The second pass over one of `new_observables`. -/
def attemptSpecEndpoints (rt : Runtime) (uuidMap : UuidMap) (replay : Replay)
    (spec : ObservableSpec) : Except RootAnalysis Replay :=
  match uuidMap.lookup spec.uuid with
  | none => .ok replay
  | some source =>
    (attemptRelationships rt uuidMap spec.uuid source replay spec.initialRelationships).map
      (Replay.applySpecRedirection uuidMap spec.uuid source spec.initialRedirection)

def attemptObservableDiff (rt : Runtime) (target sourceObservableUuid : NodeUuid)
    (diff : ObservableDiff) (replay : Replay) : Except RootAnalysis Replay :=
  (attemptRelationships rt [(sourceObservableUuid, target)] sourceObservableUuid target
    (replay.modify target (·.applyMarks rt diff)) diff.addedRelationships).map fun replay =>
      ((replay.modify target (·.applyLimits diff)).applyRedirection sourceObservableUuid target
        diff.redirection).modify target (·.applyIgnored diff)

/-- `apply_delta`, with the root that it leaves behind when it raises. -/
def attemptDelta (rt : Runtime) (root : RootAnalysis) (target : NodeUuid)
    (delta : ModuleExecutionDelta) : Except RootAnalysis Replay :=
  if delta.wideDiff ∨ ¬ delta.fileObservableSpecs.all (fun spec => rt.hasBlob spec.value) then
    .error root
  else
    let (root, analysisPath) := root.rehydrateAnalysis rt target delta.analysis
    (attemptObservableSpecs rt (analysisPath.elim .root (.analysis target)) root
      [(delta.observableUuid, target)] delta.newObservables).bind fun (root, uuidMap) =>
        ((delta.newObservables.foldlM (attemptSpecEndpoints rt uuidMap) ⟨root, []⟩).bind
          (attemptObservableDiff rt target delta.observableUuid delta.targetObservableDiff)).map
            fun replay => { replay with root := replay.root.applyRootDiff rt delta.rootDiff }

/-- The root after a replay, whether it raised or not. -/
def leftBehind : Except RootAnalysis Replay → RootAnalysis
  | .error root => root
  | .ok replay => replay.root

/-! ## §2 The same steps as those of `applyDelta` -/

theorem toOption_attempt {α : Type} (root : RootAnalysis) (result : Option α) :
    (attempt root result).toOption = result := by
  cases result <;> rfl

theorem toOption_bind {ε α β : Type} (x : Except ε α) (f : α → Except ε β) :
    (x.bind f).toOption = x.toOption.bind fun a => (f a).toOption := by
  cases x <;> rfl

theorem toOption_map {ε α β : Type} (x : Except ε α) (f : α → β) :
    (x.map f).toOption = x.toOption.map f := by
  cases x <;> rfl

theorem toOption_foldlM {ε α β : Type} {f : β → α → Except ε β} {g : β → α → Option β}
    (h : ∀ b a, (f b a).toOption = g b a) (items : List α) (b : β) :
    (items.foldlM f b).toOption = items.foldlM g b := by
  induction items generalizing b with
  | nil => rfl
  | cons item items ih =>
    rw [foldlM_cons, foldlM_cons, ← h]
    refine (toOption_bind _ _).trans ?_
    cases f b item with
    | error => rfl
    | ok b => exact ih b

theorem toOption_attemptObservableSpecs (rt : Runtime) (parent : Parent) (root : RootAnalysis)
    (uuidMap : UuidMap) (specs : List ObservableSpec) :
    (attemptObservableSpecs rt parent root uuidMap specs).toOption =
      root.applyObservableSpecs rt parent uuidMap specs := by
  induction specs generalizing root uuidMap with
  | nil => rfl
  | cons spec specs ih =>
    unfold attemptObservableSpecs applyObservableSpecs
    cases root.applyObservableSpec rt parent spec with
    | none => rfl
    | some result =>
      obtain ⟨root, placed⟩ := result
      cases placed with
      | none => exact ih root uuidMap
      | some uuid => exact ih root _

theorem toOption_attemptRelationships (rt : Runtime) (uuidMap : UuidMap)
    (recorded source : NodeUuid) (replay : Replay) (rels : List RelationshipDict) :
    (attemptRelationships rt uuidMap recorded source replay rels).toOption =
      rels.foldlM (Replay.applyRelationship rt uuidMap recorded source) replay :=
  toOption_foldlM (fun _ _ => toOption_attempt _ _) rels replay

theorem toOption_attemptSpecEndpoints (rt : Runtime) (uuidMap : UuidMap) (replay : Replay)
    (spec : ObservableSpec) :
    (attemptSpecEndpoints rt uuidMap replay spec).toOption =
      replay.applySpecEndpoints rt uuidMap spec := by
  unfold attemptSpecEndpoints Replay.applySpecEndpoints
  cases uuidMap.lookup spec.uuid with
  | none => rfl
  | some source => exact (toOption_map _ _).trans (by rw [toOption_attemptRelationships])

theorem toOption_attemptObservableDiff (rt : Runtime) (target recorded : NodeUuid)
    (diff : ObservableDiff) (replay : Replay) :
    (attemptObservableDiff rt target recorded diff replay).toOption =
      replay.applyObservableDiff rt target recorded diff := by
  unfold attemptObservableDiff Replay.applyObservableDiff
  rw [toOption_map, toOption_attemptRelationships]

theorem toOption_attemptDelta (rt : Runtime) (root : RootAnalysis) (target : NodeUuid)
    (delta : ModuleExecutionDelta) :
    (attemptDelta rt root target delta).toOption = applyDelta rt root target delta := by
  unfold attemptDelta applyDelta replayObservables
  split
  · rfl
  · rw [toOption_bind, toOption_attemptObservableSpecs]
    congr 1
    funext result
    unfold replayChanges
    rw [toOption_map, toOption_bind, toOption_foldlM (toOption_attemptSpecEndpoints rt result.2)]
    simp only [toOption_attemptObservableDiff]

/-! ## §3 The second half as a list of changes -/

structure PlannedChange where
  uuid : NodeUuid
  change : Change
  valid : Bool
  deriving DecidableEq

/-- What the source adds or sets, unless it is a relationship of a type that is not valid. -/
def EndpointWrite.planned (write : EndpointWrite) : PlannedChange :=
  ⟨write.change.1, write.change.2, write.Valid⟩

/-- The changes are made one after the other, up to one that raises. -/
def carryOut (same : NodeUuid → NodeUuid → Bool) (root : RootAnalysis) :
    List PlannedChange → Except RootAnalysis RootAnalysis
  | [] => .ok root
  | planned :: plan =>
    if planned.valid then
      carryOut same (root.modify planned.uuid (planned.change.apply same)) plan
    else .error root

/-- The changes in front of the first one that raises. -/
def carried (plan : List PlannedChange) : List (NodeUuid × Change) :=
  (plan.takeWhile (·.valid)).map fun planned => (planned.uuid, planned.change)

section CarryOut

variable {same : NodeUuid → NodeUuid → Bool} {root : RootAnalysis} {plan plan' : List PlannedChange}

theorem carryOut_eq (same : NodeUuid → NodeUuid → Bool) (root : RootAnalysis)
    (plan : List PlannedChange) :
    carryOut same root plan =
      if plan.all (·.valid) then .ok (root.change same (carried plan))
      else .error (root.change same (carried plan)) := by
  induction plan generalizing root with
  | nil => rw [carryOut, carried, takeWhile_nil, map_nil, change_nil]; rfl
  | cons planned plan ih =>
    rw [carryOut, carried, takeWhile_cons, all_cons]
    cases hvalid : planned.valid with
    | true => simp only [if_true, ih, Bool.true_and, map_cons, change_cons, carried]
    | false => simp

theorem carryOut_append :
    carryOut same root (plan ++ plan') =
      (carryOut same root plan).bind fun root => carryOut same root plan' := by
  induction plan generalizing root with
  | nil => rfl
  | cons planned plan ih =>
    rw [cons_append, carryOut, carryOut]
    split
    · exact ih
    · rfl

theorem carryOut_identities {root' : RootAnalysis} (h : carryOut same root plan = .ok root') :
    root'.identities = root.identities := by
  rw [carryOut_eq] at h
  split at h
  · obtain rfl := Except.ok.inj h
    exact identities_change
  · cases h

end CarryOut

/-- The changes of a new observable in the second pass. -/
def specPlan (rt : Runtime) (root : RootAnalysis) (uuidMap : UuidMap) (spec : ObservableSpec) :
    List PlannedChange :=
  (specWrites rt root uuidMap spec).map (·.planned)

def diffPlan (rt : Runtime) (root : RootAnalysis) (target recorded : NodeUuid)
    (diff : ObservableDiff) : List PlannedChange :=
  ⟨target, diff.marks rt, true⟩ ::
    ((diff.addedRelationships.flatMap
        (relationshipWrites rt root [(recorded, target)] recorded target)).map (·.planned) ++
      [⟨target, diff.settings, true⟩])

def deltaPlan (rt : Runtime) (root : RootAnalysis) (uuidMap : UuidMap) (target : NodeUuid)
    (delta : ModuleExecutionDelta) : List PlannedChange :=
  delta.newObservables.flatMap (specPlan rt root uuidMap) ++
    diffPlan rt root target delta.observableUuid delta.targetObservableDiff

section Plan

variable {rt : Runtime} {same : NodeUuid → NodeUuid → Bool} {root root' : RootAnalysis}
  {uuidMap : UuidMap} {target recorded source : NodeUuid} {replay : Replay}

theorem specPlan_congr (h : root.identities = root'.identities) :
    specPlan rt root uuidMap = specPlan rt root' uuidMap := by
  funext spec
  rw [specPlan, specWrites_congr h, specPlan]

theorem diffPlan_congr (h : root.identities = root'.identities) :
    diffPlan rt root target recorded = diffPlan rt root' target recorded := by
  funext diff
  rw [diffPlan, relationshipWrites_congr h, diffPlan]

theorem deltaPlan_congr (h : root.identities = root'.identities) :
    deltaPlan rt root uuidMap target = deltaPlan rt root' uuidMap target := by
  funext delta
  rw [deltaPlan, specPlan_congr h, diffPlan_congr h, deltaPlan]

theorem sameObservable_eq (h : root.identities = root'.identities) :
    root.sameObservable rt = root'.sameObservable rt := by
  funext uuid uuid'
  exact sameObservable_congr h rt

theorem bind_carryOut {x : Except RootAnalysis Replay} {f : Replay → Except RootAnalysis Replay}
    {plan plan' : List PlannedChange} (hx : x.map (·.root) = carryOut same root plan)
    (hf : ∀ replay, replay.root.identities = root.identities →
      (f replay).map (·.root) = carryOut same replay.root plan') :
    (x.bind f).map (·.root) = carryOut same root (plan ++ plan') := by
  rw [carryOut_append, ← hx]
  cases x with
  | error => rfl
  | ok replay => exact hf replay (carryOut_identities hx.symm)

theorem map_carryOut {x : Except RootAnalysis Replay} {f : Replay → Replay}
    {plan plan' : List PlannedChange} (hx : x.map (·.root) = carryOut same root plan)
    (hf : ∀ replay, replay.root.identities = root.identities →
      .ok (f replay).root = carryOut same replay.root plan') :
    (x.map f).map (·.root) = carryOut same root (plan ++ plan') := by
  have hbind : x.map f = x.bind fun replay => .ok (f replay) := by cases x <;> rfl
  rw [hbind]
  exact bind_carryOut hx hf

theorem foldlM_carryOut {α : Type} {f : Replay → α → Except RootAnalysis Replay}
    {plan : α → List PlannedChange} (items : List α) (root₀ : RootAnalysis)
    (hf : ∀ item ∈ items, ∀ replay, replay.root.identities = root₀.identities →
      (f replay item).map (·.root) = carryOut same replay.root (plan item))
    (hreplay : replay.root.identities = root₀.identities) :
    (items.foldlM f replay).map (·.root) = carryOut same replay.root (items.flatMap plan) := by
  induction items generalizing replay with
  | nil => rfl
  | cons item items ih =>
    rw [foldlM_cons, flatMap_cons]
    apply bind_carryOut (hf item mem_cons_self replay hreplay)
    intro replay' hidentities
    apply ih
    · exact fun item hitem => hf item (mem_cons_of_mem _ hitem)
    · exact hidentities.trans hreplay

theorem addRelationship_eq (root : RootAnalysis) (source : NodeUuid) (rType : String)
    (target : NodeUuid) :
    root.addRelationship rt source rType target =
      if rType ∈ validRelationshipTypes then
        some (root.modify source
          (Change.apply (root.sameObservable rt) { Change.nothing with
            relationships := [⟨rType, target⟩] }))
      else none := by
  unfold addRelationship
  congr 3
  funext o
  simp only [Change.apply, Change.nothing, foldl_cons, foldl_nil, addUnlike,
    Change.likeRelationship, Bool.decide_and, Bool.decide_eq_true, Option.getD_none]
  split <;> rfl

theorem attempt_applyRelationship (rel : RelationshipDict) :
    (attempt replay.root (replay.applyRelationship rt uuidMap recorded source rel)).map (·.root) =
      carryOut (replay.root.sameObservable rt) replay.root
        ((relationshipWrites rt replay.root uuidMap recorded source rel).map (·.planned)) := by
  unfold Replay.applyRelationship relationshipWrites
  cases hreference : rel.reference recorded with
  | none => rfl
  | some reference =>
    have htype : ∃ rType, reference.rType = some rType := by
      unfold RelationshipDict.reference at hreference
      split at hreference
      · split at hreference
        · cases hreference
        · exact ⟨_, congrArg Reference.rType (Option.some.inj hreference).symm⟩
      · cases hreference
    obtain ⟨rType, htype⟩ := htype
    rw [Option.bind_some]
    cases hresolve : replay.root.resolveTarget rt uuidMap rel reference.target with
    | none => simp only [hresolve]; rfl
    | some uuid =>
      have hplanned : (EndpointWrite.mk reference source uuid).planned =
          ⟨source, { Change.nothing with relationships := [⟨rType, uuid⟩] },
            rType ∈ validRelationshipTypes⟩ := by
        simp only [EndpointWrite.planned, EndpointWrite.change, EndpointWrite.Valid, htype,
          Option.mem_def, Option.some.injEq, forall_eq']
      simp only [hresolve, htype, Option.getD_some, Option.map_some, Option.toList_some,
        map_cons, map_nil, hplanned, carryOut, addRelationship_eq]
      by_cases hvalid : rType ∈ validRelationshipTypes
      · rw [if_pos hvalid, if_pos (decide_eq_true hvalid)]
        rfl
      · rw [if_neg hvalid, if_neg (by simpa using hvalid)]
        rfl

theorem attemptRelationships_eq (rels : List RelationshipDict) :
    (attemptRelationships rt uuidMap recorded source replay rels).map (·.root) =
      carryOut (replay.root.sameObservable rt) replay.root
        ((rels.flatMap (relationshipWrites rt replay.root uuidMap recorded source)).map
          (·.planned)) := by
  rw [map_flatMap]
  apply foldlM_carryOut rels replay.root _ rfl
  intro rel _ replay' hidentities
  rw [attempt_applyRelationship, sameObservable_eq hidentities, relationshipWrites_congr hidentities]

theorem attemptSpecEndpoints_eq (spec : ObservableSpec) :
    (attemptSpecEndpoints rt uuidMap replay spec).map (·.root) =
      carryOut (replay.root.sameObservable rt) replay.root
        (specPlan rt replay.root uuidMap spec) := by
  unfold attemptSpecEndpoints specPlan specWrites
  cases uuidMap.lookup spec.uuid with
  | none => rfl
  | some source =>
    simp only [map_append]
    apply map_carryOut (attemptRelationships_eq spec.initialRelationships)
    intro replay' hidentities
    rw [← redirectionWrites_congr hidentities]
    unfold Replay.applySpecRedirection redirectionWrites
    cases spec.initialRedirection with
    | none => rfl
    | some target =>
      rw [Option.bind_some]
      cases hresolve : (uuidMap.lookup target).or
          ((replay'.root.getObservable target).map (·.uuid)) with
      | none => simp only [hresolve]; rfl
      | some uuid => simp only [hresolve]; rfl

theorem attemptObservableDiff_eq (diff : ObservableDiff) :
    (attemptObservableDiff rt target recorded diff replay).map (·.root) =
      carryOut (replay.root.sameObservable rt) replay.root
        (diffPlan rt replay.root target recorded diff) := by
  have hmarked : (replay.modify target (·.applyMarks rt diff)).root =
      replay.root.modify target ((diff.marks rt).apply (replay.root.sameObservable rt)) := by
    simp only [Replay.modify]
    congr 1
    funext o
    exact applyMarks_eq_change rt _ o diff
  have hidentities : (replay.modify target (·.applyMarks rt diff)).root.identities =
      replay.root.identities := identities_modify (applyMarks_identity rt diff)
  unfold attemptObservableDiff diffPlan
  rw [carryOut, if_pos rfl, ← hmarked]
  apply map_carryOut
  · rw [attemptRelationships_eq, sameObservable_eq hidentities,
      relationshipWrites_congr hidentities]
  · intro replay' _
    rw [applySettings_eq_change (replay.root.sameObservable rt)]
    rfl

theorem attemptChanges_eq (rt : Runtime) (uuidMap : UuidMap) (replay : Replay) (target : NodeUuid)
    (delta : ModuleExecutionDelta) :
    ((delta.newObservables.foldlM (attemptSpecEndpoints rt uuidMap) replay).bind
      (attemptObservableDiff rt target delta.observableUuid delta.targetObservableDiff)).map
        (·.root) =
      carryOut (replay.root.sameObservable rt) replay.root
        (deltaPlan rt replay.root uuidMap target delta) := by
  apply bind_carryOut
  · apply foldlM_carryOut delta.newObservables replay.root _ rfl
    intro spec _ replay' hidentities
    rw [attemptSpecEndpoints_eq, sameObservable_eq hidentities, specPlan_congr hidentities]
  · intro replay' hidentities
    rw [attemptObservableDiff_eq, sameObservable_eq hidentities, diffPlan_congr hidentities]

end Plan

/-! ## §4 Analyses in slots -/

/-- Every slot of this analysis holds this one, and there is such a slot. -/
structure Observable.Holds (o : Observable) (analysis : AnalysisObject) : Prop where
  any : o.analysis.any (·.1 = analysis.modulePath)
  all : ∀ slot ∈ o.analysis, slot.1 = analysis.modulePath → slot.2 = some analysis

def AnalysisObject.addChildren (analysis : AnalysisObject) (children : List NodeUuid) :
    AnalysisObject :=
  { analysis with observables := analysis.observables ++ children }

theorem Observable.holds_setAnalysis (o : Observable) (analysis : AnalysisObject) :
    (o.setAnalysis analysis).Holds analysis := by
  unfold Observable.setAnalysis
  split
  next hany =>
    refine ⟨?_, ?_⟩
    · obtain ⟨slot, hslot, hpath⟩ := any_eq_true.mp hany
      rw [any_map]
      have hpath := of_decide_eq_true hpath
      exact any_eq_true.mpr ⟨slot, hslot, by simp [hpath]⟩
    · intro slot hslot hpath
      obtain ⟨old, -, rfl⟩ := mem_map.mp hslot
      by_cases hold : old.1 = analysis.modulePath
      · simp [hold]
      · rw [if_neg hold] at hpath
        exact absurd hpath hold
  next hany =>
    refine ⟨by simp, ?_⟩
    intro slot hslot hpath
    rcases mem_append.mp hslot with hslot | hslot
    · exact absurd (any_eq_true.mpr ⟨slot, hslot, decide_eq_true hpath⟩) hany
    · rw [mem_singleton.mp hslot]

theorem Observable.Holds.addChildren {o : Observable} {analysis : AnalysisObject}
    (h : o.Holds analysis) (children : List NodeUuid) :
    (o.addChildren analysis.modulePath children).Holds (analysis.addChildren children) := by
  refine ⟨?_, ?_⟩
  · obtain ⟨slot, hslot, hpath⟩ := any_eq_true.mp h.any
    rw [Observable.addChildren, any_map]
    have hpath := of_decide_eq_true hpath
    refine any_eq_true.mpr ⟨slot, hslot, ?_⟩
    simp only [Function.comp_apply, if_pos hpath]
    exact decide_eq_true hpath
  · intro slot hslot hpath
    obtain ⟨old, hold, rfl⟩ := mem_map.mp hslot
    by_cases hsame : old.1 = analysis.modulePath
    · rw [if_pos hsame, h.all old hold hsame]
      rfl
    · rw [if_neg hsame] at hpath
      exact absurd hpath hsame

theorem Observable.Holds.reinstall {o : Observable} {analysis : AnalysisObject}
    {children : List NodeUuid} (h : o.Holds (analysis.addChildren children)) :
    (o.setAnalysis analysis).addChildren analysis.modulePath children = o := by
  have hany : o.analysis.any (·.1 = analysis.modulePath) := h.any
  have hslots : (o.analysis.map fun slot =>
      if slot.1 = analysis.modulePath then (slot.1, some (analysis.addChildren children))
      else slot) = o.analysis := by
    have hkeep : ∀ slot ∈ o.analysis, (if slot.1 = analysis.modulePath then
        (slot.1, some (analysis.addChildren children)) else slot) = id slot := by
      intro slot hslot
      by_cases hpath : slot.1 = analysis.modulePath
      · rw [if_pos hpath, ← h.all slot hslot hpath]
        rfl
      · rw [if_neg hpath]
        rfl
    rw [map_congr_left hkeep, map_id]
  unfold Observable.setAnalysis Observable.addChildren
  rw [if_pos hany]
  simp only [map_map]
  have hboth : ((fun slot : AnalysisPath × Option AnalysisObject =>
      if slot.1 = analysis.modulePath then
        (slot.1, slot.2.map fun a => { a with observables := a.observables ++ children })
      else slot) ∘ fun slot =>
        if slot.1 = analysis.modulePath then (slot.1, some analysis) else slot) =
      fun slot => if slot.1 = analysis.modulePath then
        (slot.1, some (analysis.addChildren children)) else slot := by
    funext slot
    by_cases hpath : slot.1 = analysis.modulePath
    · simp [hpath, AnalysisObject.addChildren]
    · simp [hpath]
  rw [hboth, hslots]

/-! ## §5 The outcome -/

/-- A root as the analysis tree keeps it: children are observables of the registry, and an
observable has one slot for each analysis. -/
structure RootAnalysis.WellFormed (root : RootAnalysis) : Prop where
  sound : root.Sound
  children : ∀ parent, root.HasChildren parent
  slots : ∀ o ∈ root.observables, (o.analysis.map (·.1)).Nodup

/-- The delta can be replayed, and every file of it is staged. -/
def Staged (rt : Runtime) (delta : ModuleExecutionDelta) : Prop :=
  ¬ delta.wideDiff ∧ delta.fileObservableSpecs.all fun spec => rt.hasBlob spec.value

/-- The new observables in front of the first file that cannot be stored. -/
def storedSpecs (rt : Runtime) (delta : ModuleExecutionDelta) : List ObservableSpec :=
  delta.newObservables.takeWhile (·.Storable rt)

def AllStorable (rt : Runtime) (delta : ModuleExecutionDelta) : Prop :=
  delta.newObservables.all (·.Storable rt)

instance (rt : Runtime) : DecidablePred (AllStorable rt) :=
  fun delta => inferInstanceAs (Decidable (delta.newObservables.all _ = true))

def replayParent (rt : Runtime) (root : RootAnalysis) (target : NodeUuid)
    (dict : Option AnalysisDict) : Parent :=
  (root.rehydrateAnalysis rt target dict).2.elim .root (.analysis target)

def placement (rt : Runtime) (root : RootAnalysis) (target : NodeUuid)
    (delta : ModuleExecutionDelta) : Shelf NodeUuid RecordKey × List (Option NodeUuid) :=
  ((root.rehydrateAnalysis rt target delta.analysis).1.shelf rt
    (replayParent rt root target delta.analysis)).askAll (room rt)
      (requests rt root.number root.draws (storedSpecs rt delta))

def outcomePlan (rt : Runtime) (root : RootAnalysis) (placed : List (Option NodeUuid))
    (target : NodeUuid) (delta : ModuleExecutionDelta) : List PlannedChange :=
  if AllStorable rt delta then
    deltaPlan rt root (enterAll [(delta.observableUuid, target)] (storedSpecs rt delta) placed)
      target delta
  else []

def outcomeChanges (rt : Runtime) (root : RootAnalysis) (placed : List (Option NodeUuid))
    (target : NodeUuid) (delta : ModuleExecutionDelta) : List (NodeUuid × Change) :=
  allMarks rt (storedSpecs rt delta) placed ++ carried (outcomePlan rt root placed target delta)

theorem outcomePlan_congr {rt : Runtime} {root root' : RootAnalysis}
    (h : root.identities = root'.identities) : outcomePlan rt root = outcomePlan rt root' := by
  funext placed target delta
  unfold outcomePlan
  rw [deltaPlan_congr h]

theorem outcomeChanges_congr {rt : Runtime} {root root' : RootAnalysis}
    (h : root.identities = root'.identities) : outcomeChanges rt root = outcomeChanges rt root' := by
  funext placed target delta
  unfold outcomeChanges
  rw [outcomePlan_congr h]

section Outcome

variable {rt : Runtime} {root : RootAnalysis} {parent : Parent} {target : NodeUuid}
  {uuidMap : UuidMap} {delta : ModuleExecutionDelta}

theorem attemptObservableSpecs_eq {specs : List ObservableSpec} {result : RootAnalysis × UuidMap}
    (h : root.applyObservableSpecs rt parent uuidMap (specs.takeWhile (·.Storable rt)) =
      some result) :
    attemptObservableSpecs rt parent root uuidMap specs =
      if specs.all (·.Storable rt) then .ok result else .error result.1 := by
  induction specs generalizing root uuidMap with
  | nil =>
    obtain rfl := Option.some.inj h
    rfl
  | cons spec specs ih =>
    rw [attemptObservableSpecs]
    by_cases hstore : spec.Storable rt
    · simp only [takeWhile_cons, decide_eq_true hstore, if_true] at h
      rw [all_cons, decide_eq_true hstore, Bool.true_and]
      unfold applyObservableSpecs at h
      cases hspec : root.applyObservableSpec rt parent spec with
      | none => simp only [hspec, reduceCtorEq] at h
      | some applied =>
        obtain ⟨root, placed⟩ := applied
        rw [hspec] at h
        cases placed with
        | none => exact ih h
        | some uuid => exact ih h
    · simp only [takeWhile_cons, decide_eq_false hstore, Bool.false_eq_true, if_false] at h
      obtain rfl := Option.some.inj h
      have hnone : root.applyObservableSpec rt parent spec = none := by
        simp only [ObservableSpec.Storable, Classical.not_imp, Option.not_isSome_iff_eq_none]
          at hstore
        obtain ⟨hfile, hstore⟩ := hstore
        simp only [applyObservableSpec, addFileObservable, if_pos hfile,
          hstore, Option.map_none]
      rw [hnone, all_cons, decide_eq_false hstore, Bool.false_and]
      rfl

theorem lookup_setAnalysis (o : Observable) (analysis : AnalysisObject) :
    (o.setAnalysis analysis).analysis.lookup analysis.modulePath = some (some analysis) := by
  unfold Observable.setAnalysis
  split
  next hany =>
    rw [lookup_map_slot fun _ => some analysis]
    obtain ⟨slot, hslot, hpath⟩ := any_eq_true.mp hany
    cases hlookup : o.analysis.lookup analysis.modulePath with
    | none =>
      have habsent := lookup_eq_none_iff.mp hlookup slot hslot
      rw [of_decide_eq_true hpath, bne_self_eq_false] at habsent
      cases habsent
    | some => rfl
  next hany =>
    have habsent : o.analysis.lookup analysis.modulePath = none := by
      rw [lookup_eq_none_iff]
      intro slot hslot
      rw [bne_iff_ne]
      intro hpath
      exact hany (any_eq_true.mpr ⟨slot, hslot, decide_eq_true hpath.symm⟩)
    rw [lookup_append, habsent]
    simp

theorem lookup_setAnalysis_other (o : Observable) {analysis : AnalysisObject}
    {path : AnalysisPath} (hpath : path ≠ analysis.modulePath) :
    (o.setAnalysis analysis).analysis.lookup path = o.analysis.lookup path := by
  unfold Observable.setAnalysis
  split
  · exact lookup_map_slot_other (fun _ => some analysis) hpath _
  · rw [lookup_append, lookup_cons, beq_false_of_ne hpath]
    simp

theorem setAnalysis_identity (o : Observable) (analysis : AnalysisObject) :
    (o.setAnalysis analysis).toObservableIdentity = o.toObservableIdentity := by
  unfold Observable.setAnalysis
  split <;> rfl

theorem exists_getObservable_addAnalysis (htarget : root.Has target) (rt : Runtime)
    (dict : AnalysisDict) : ∃ o : Observable,
      (root.addAnalysis target (rehydrated rt dict)).getObservable target =
        some (o.setAnalysis (rehydrated rt dict)) := by
  obtain ⟨o, ho⟩ := Option.ne_none_iff_exists'.mp
    (getObservable_ne_none_iff.mpr htarget)
  refine ⟨o, ?_⟩
  rw [addAnalysis, getObservable_modify
    fun o => congrArg (·.uuid) (setAnalysis_identity o _), ho, Option.map_some]

theorem hasParent_rehydrated (htarget : root.Has target) (rt : Runtime)
    (dict : Option AnalysisDict) :
    (root.rehydrateAnalysis rt target dict).1.HasParent (replayParent rt root target dict) := by
  unfold replayParent rehydrateAnalysis
  cases dict with
  | none => trivial
  | some dict =>
    dsimp only
    split
    next analysis hslot => exact ⟨analysis, hslot⟩
    next =>
      obtain ⟨o, hadded⟩ := exists_getObservable_addAnalysis htarget rt dict
      refine ⟨rehydrated rt dict, ?_⟩
      rw [hadded, Option.bind_some, lookup_setAnalysis]

theorem hasChildren_rehydrated (hroot : ∀ parent, root.HasChildren parent)
    (htarget : root.Has target) (rt : Runtime) (dict : Option AnalysisDict) :
    (root.rehydrateAnalysis rt target dict).1.HasChildren (replayParent rt root target dict) := by
  unfold replayParent rehydrateAnalysis
  cases dict with
  | none => exact hroot _
  | some dict =>
    dsimp only
    split
    · exact hroot _
    next =>
      obtain ⟨o, hadded⟩ := exists_getObservable_addAnalysis htarget rt dict
      intro uuid hmem
      simp only [Option.elim_some, childrenOf, hadded, Option.bind_some,
        lookup_setAnalysis] at hmem
      cases hmem

theorem RootAnalysis.WellFormed.hasChildren_rehydrated (hroot : root.WellFormed)
    (htarget : root.Has target) (rt : Runtime) (dict : Option AnalysisDict) :
    (root.rehydrateAnalysis rt target dict).1.HasChildren (replayParent rt root target dict) :=
  Analysis.hasChildren_rehydrated hroot.children htarget rt dict

theorem rehydrateAnalysis_draws (root : RootAnalysis) (rt : Runtime) (target : NodeUuid)
    (dict : Option AnalysisDict) : (root.rehydrateAnalysis rt target dict).1.draws = root.draws := by
  unfold rehydrateAnalysis
  cases dict with
  | none => rfl
  | some dict =>
    dsimp only
    split <;> rfl

theorem allFresh_placement (rt : Runtime) (hroot : root.Sound) (target : NodeUuid)
    (delta : ModuleExecutionDelta) :
    ((root.rehydrateAnalysis rt target delta.analysis).1.shelf rt
      (replayParent rt root target delta.analysis)).AllFresh
        (requests rt root.number root.draws (storedSpecs rt delta)) := by
  have hrehydrate := hroot.rehydrateAnalysis rt target delta.analysis
  have hall := hrehydrate.1.sound.allFresh rt (replayParent rt root target delta.analysis)
    (storedSpecs rt delta)
  rwa [rehydrateAnalysis_draws, hrehydrate.1.number] at hall

theorem tidy_placement (hroot : root.Sound)
    (hchildren : (root.rehydrateAnalysis rt target delta.analysis).1.HasChildren
      (replayParent rt root target delta.analysis)) :
    (placement rt root target delta).1.Tidy :=
  ((hroot.rehydrateAnalysis rt target delta.analysis).1.sound.tidy_shelf rt hchildren).askAll
    (room rt) (allFresh_placement rt hroot target delta)

theorem attemptDelta_of_staged (hstaged : Staged rt delta) :
    attemptDelta rt root target delta =
      (attemptObservableSpecs rt (replayParent rt root target delta.analysis)
        (root.rehydrateAnalysis rt target delta.analysis).1 [(delta.observableUuid, target)]
        delta.newObservables).bind fun result =>
          ((delta.newObservables.foldlM (attemptSpecEndpoints rt result.2) ⟨result.1, []⟩).bind
            (attemptObservableDiff rt target delta.observableUuid
              delta.targetObservableDiff)).map
                fun replay => { replay with root := replay.root.applyRootDiff rt delta.rootDiff } := by
  unfold attemptDelta
  rw [if_neg]
  · rfl
  · rintro (hwide | hblob)
    · exact hstaged.1 hwide
    · exact hblob hstaged.2

theorem attemptDelta_of_not_staged (hstaged : ¬ Staged rt delta) (root : RootAnalysis) :
    attemptDelta rt root target delta = .error root := by
  unfold attemptDelta
  rw [if_pos]
  simp only [Staged, not_and] at hstaged
  by_cases hwide : delta.wideDiff
  · exact .inl hwide
  · exact .inr (hstaged hwide)

theorem attemptRest_eq (rt : Runtime) (grown : RootAnalysis) (marks : List (NodeUuid × Change))
    (count : Nat) (uuidMap : UuidMap) (target : NodeUuid) (delta : ModuleExecutionDelta) :
    let plan := deltaPlan rt grown uuidMap target delta
    let left := (grown.change (grown.sameObservable rt) (marks ++ carried plan)).draw count
    (((delta.newObservables.foldlM (attemptSpecEndpoints rt uuidMap)
        ⟨(grown.change (grown.sameObservable rt) marks).draw count, []⟩).bind
      (attemptObservableDiff rt target delta.observableUuid delta.targetObservableDiff)).map
        fun replay => { replay with root := replay.root.applyRootDiff rt delta.rootDiff }).map
          (·.root) =
      if plan.all (·.valid) then .ok (left.applyRootDiff rt delta.rootDiff) else .error left := by
  intro plan left
  have hidentities : ((grown.change (grown.sameObservable rt) marks).draw count).identities =
      grown.identities := identities_change
  have hchanges := attemptChanges_eq rt uuidMap
    ⟨(grown.change (grown.sameObservable rt) marks).draw count, []⟩ target delta
  dsimp only at hchanges
  rw [sameObservable_eq hidentities, deltaPlan_congr hidentities, carryOut_eq] at hchanges
  have hleft : ((grown.change (grown.sameObservable rt) marks).draw count).change
      (grown.sameObservable rt) (carried plan) = left := by
    show _ = (grown.change (grown.sameObservable rt) (marks ++ carried plan)).draw count
    rw [change_append]
    rfl
  rw [hleft] at hchanges
  generalize (delta.newObservables.foldlM (attemptSpecEndpoints rt uuidMap)
    ⟨(grown.change (grown.sameObservable rt) marks).draw count, []⟩).bind
      (attemptObservableDiff rt target delta.observableUuid delta.targetObservableDiff) = result
    at hchanges ⊢
  by_cases hvalid : plan.all (·.valid)
  · rw [if_pos hvalid] at hchanges ⊢
    cases result with
    | error => cases hchanges
    | ok replay =>
      have hroot : replay.root = left := Except.ok.inj hchanges
      show Except.ok (replay.root.applyRootDiff rt delta.rootDiff) = _
      rw [hroot]
  · rw [if_neg hvalid] at hchanges ⊢
    cases result with
    | error root =>
      have hroot : root = left := Except.error.inj hchanges
      exact congrArg Except.error hroot
    | ok => cases hchanges

/-- A replay that is staged adds what its specs get, and then makes its changes, up to the first
step that raises. -/
theorem attemptDelta_eq (hroot : root.Sound) (htarget : root.Has target)
    (hchildren : (root.rehydrateAnalysis rt target delta.analysis).1.HasChildren
      (replayParent rt root target delta.analysis)) (hstaged : Staged rt delta) :
    ∃ news children count,
      RootAnalysis.Takes rt (root.rehydrateAnalysis rt target delta.analysis).1
        (replayParent rt root target delta.analysis) (placement rt root target delta).1 news
          children ∧
      let grown := (root.rehydrateAnalysis rt target delta.analysis).1.take
        (replayParent rt root target delta.analysis) news children
      let placed := (placement rt root target delta).2
      let left := (grown.change (grown.sameObservable rt)
        (outcomeChanges rt grown placed target delta)).draw count
      left.Sound ∧
      grown.Maps (enterAll [(delta.observableUuid, target)] (storedSpecs rt delta) placed) ∧
      (attemptDelta rt root target delta).map (·.root) =
        if AllStorable rt delta ∧ (outcomePlan rt grown placed target delta).all (·.valid) then
          .ok (left.applyRootDiff rt delta.rootDiff)
        else .error left := by
  have hrehydrate := hroot.rehydrateAnalysis rt target delta.analysis
  have hparent := hasParent_rehydrated htarget rt delta.analysis
  have hstored : ∀ spec ∈ storedSpecs rt delta, spec.Storable rt := by
    intro spec hspec
    exact of_decide_eq_true (all_eq_true.mp all_takeWhile spec hspec)
  obtain ⟨news, children, hloop, htakes⟩ :=
    hrehydrate.1.sound.applyObservableSpecs_eq hparent hchildren hstored (fun _ _ => false)
      [(delta.observableUuid, target)]
  rw [rehydrateAnalysis_draws, hrehydrate.1.number] at hloop htakes
  change RootAnalysis.Takes rt _ _ (placement rt root target delta).1 _ _ at htakes
  have hself : (root.rehydrateAnalysis rt target delta.analysis).1.Maps
      [(delta.observableUuid, target)] := by
    intro entry hentry
    obtain rfl := mem_singleton.mp hentry
    exact hrehydrate.1.has htarget
  have hadmitted := hrehydrate.1.sound.applyObservableSpecs hself hloop
  refine ⟨news, children, allDraws rt (storedSpecs rt delta), htakes, ?_⟩
  intro grown placed left
  have hidentities : left.identities = grown.identities := identities_change
  have hgrown : ((grown.change (fun _ _ => false)
      (allMarks rt (storedSpecs rt delta) placed)).draw
        (allDraws rt (storedSpecs rt delta))).identities = grown.identities :=
    identities_change
  have hloopSound : ((grown.change (fun _ _ => false)
      (allMarks rt (storedSpecs rt delta) placed)).draw
        (allDraws rt (storedSpecs rt delta))).Sound := hadmitted.grows.sound
  have hgrows : RootAnalysis.Grows _ left :=
    hloopSound.grows rfl (Nat.le_refl _) (hidentities.trans hgrown.symm)
  have hmaps : grown.Maps
      (enterAll [(delta.observableUuid, target)] (storedSpecs rt delta) placed) := by
    intro entry hentry
    obtain ⟨i, hi, huuid⟩ := hadmitted.maps entry hentry
    exact ⟨i, hgrown ▸ hi, huuid⟩
  refine ⟨hgrows.sound, hmaps, ?_⟩
  have hmarks : grown.change (fun _ _ => false) (allMarks rt (storedSpecs rt delta) placed) =
      grown.change (grown.sameObservable rt) (allMarks rt (storedSpecs rt delta) placed) :=
    change_congr fun c hc => (mem_allMarks hc).2
  have hspecs : attemptObservableSpecs rt (replayParent rt root target delta.analysis)
      (root.rehydrateAnalysis rt target delta.analysis).1 [(delta.observableUuid, target)]
        delta.newObservables =
      if AllStorable rt delta then
        .ok ((grown.change (fun _ _ => false) (allMarks rt (storedSpecs rt delta) placed)).draw
          (allDraws rt (storedSpecs rt delta)),
            enterAll [(delta.observableUuid, target)] (storedSpecs rt delta) placed)
      else
        .error ((grown.change (fun _ _ => false) (allMarks rt (storedSpecs rt delta) placed)).draw
          (allDraws rt (storedSpecs rt delta))) := attemptObservableSpecs_eq hloop
  rw [attemptDelta_of_staged hstaged, hspecs, hmarks]
  by_cases hall : AllStorable rt delta
  · have hplan : outcomePlan rt grown placed target delta = deltaPlan rt grown
      (enterAll [(delta.observableUuid, target)] (storedSpecs rt delta) placed) target delta :=
        if_pos hall
    have hrest := attemptRest_eq rt grown (allMarks rt (storedSpecs rt delta) placed)
      (allDraws rt (storedSpecs rt delta))
      (enterAll [(delta.observableUuid, target)] (storedSpecs rt delta) placed) target delta
    dsimp only at hrest
    rw [← hplan] at hrest
    simp only [hall, true_and]
    exact hrest
  · have hplan : outcomePlan rt grown placed target delta = [] := if_neg hall
    rw [if_neg hall, if_neg fun h => hall h.1]
    show Except.error _ = Except.error _
    simp only [left, outcomeChanges, hplan, carried, takeWhile_nil, map_nil,
      append_nil]

end Outcome

end Ace3.Analysis
