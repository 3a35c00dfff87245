import Ace3.Analysis.ReplayRegistry

/-!
# Reference Closure of Cache Replay

Relationships and redirections of a cached delta name observables by the uuids they had in the
source root. A replay closes them when every endpoint that it writes is an observable of the root,
and every one within the scope of the delta is written between the observables that stand for its
two ends.
-/

namespace Ace3.Analysis

open List

/-! ## §4 The second half -/

def relationshipWrites (rt : Runtime) (root : RootAnalysis) (uuidMap : UuidMap)
    (recorded source : NodeUuid) (rel : RelationshipDict) : List EndpointWrite :=
  ((rel.reference recorded).bind fun reference =>
    (root.resolveTarget rt uuidMap rel reference.target).map (EndpointWrite.mk reference source)).toList

def redirectionWrites (root : RootAnalysis) (uuidMap : UuidMap) (recorded source : NodeUuid)
    (redirection : Option NodeUuid) : List EndpointWrite :=
  (redirection.bind fun target =>
    ((uuidMap.lookup target).or ((root.getObservable target).map (·.uuid))).map
      (EndpointWrite.mk ⟨recorded, none, target⟩ source)).toList

def specWrites (rt : Runtime) (root : RootAnalysis) (uuidMap : UuidMap) (spec : ObservableSpec) :
    List EndpointWrite :=
  match uuidMap.lookup spec.uuid with
  | none => []
  | some source =>
    spec.initialRelationships.flatMap (relationshipWrites rt root uuidMap spec.uuid source) ++
      redirectionWrites root uuidMap spec.uuid source spec.initialRedirection

def diffWrites (rt : Runtime) (root : RootAnalysis) (target recorded : NodeUuid)
    (diff : ObservableDiff) : List EndpointWrite :=
  diff.addedRelationships.flatMap
      (relationshipWrites rt root [(recorded, target)] recorded target) ++
    ((diff.redirection.bind (·.2)).map fun uuid =>
      EndpointWrite.mk ⟨recorded, none, uuid⟩ target uuid).toList

/-- A step of the second half writes these endpoints and leaves the registry as it is. -/
structure Writes (replay replay' : Replay) (writes : List EndpointWrite) : Prop where
  identities : replay'.root.identities = replay.root.identities
  writes : replay'.writes = replay.writes ++ writes

namespace Writes

variable {replay replay' replay'' : Replay} {writes writes' : List EndpointWrite}

theorem refl : Writes replay replay [] := ⟨rfl, (append_nil _).symm⟩

theorem trans (h : Writes replay replay' writes) (h' : Writes replay' replay'' writes') :
    Writes replay replay'' (writes ++ writes') :=
  ⟨h'.identities.trans h.identities, by rw [h'.writes, h.writes, append_assoc]⟩

theorem modify (replay : Replay) (uuid : NodeUuid) {f : Observable → Observable}
    (hf : ∀ o, (f o).toObservableIdentity = o.toObservableIdentity) :
    Writes replay (replay.modify uuid f) [] :=
  ⟨RootAnalysis.identities_modify hf, (append_nil _).symm⟩

theorem setRedirection (recorded source : NodeUuid) (redirection : Option (NodeUuid × NodeUuid)) :
    Writes replay (replay.setRedirection recorded source redirection)
      (redirection.map fun (target, uuid) =>
        EndpointWrite.mk ⟨recorded, none, target⟩ source uuid).toList :=
  ⟨RootAnalysis.identities_modify fun _ => rfl, rfl⟩

end Writes

theorem addRelationship_identities {rt : Runtime} {root root' : RootAnalysis}
    {source target : NodeUuid} {rType : String}
    (h : root.addRelationship rt source rType target = some root') :
    root'.identities = root.identities := by
  unfold RootAnalysis.addRelationship at h
  split at h
  · obtain rfl := Option.some.inj h
    apply RootAnalysis.identities_modify
    intro o
    split <;> rfl
  · cases h

section Second

variable {rt : Runtime} {uuidMap : UuidMap} {recorded source : NodeUuid} {replay replay' : Replay}

theorem writes_applyRelationship {rel : RelationshipDict}
    (h : replay.applyRelationship rt uuidMap recorded source rel = some replay') :
    Writes replay replay' (relationshipWrites rt replay.root uuidMap recorded source rel) := by
  unfold Replay.applyRelationship at h
  unfold relationshipWrites
  cases hreference : rel.reference recorded with
  | none =>
    rw [hreference] at h
    obtain rfl := Option.some.inj h
    exact .refl
  | some reference =>
    simp only [hreference] at h
    cases hresolve : replay.root.resolveTarget rt uuidMap rel reference.target with
    | none =>
      simp only [hresolve, Option.some.injEq] at h
      subst h
      simpa [hresolve] using Writes.refl
    | some uuid =>
      simp only [hresolve, Option.map_eq_some_iff] at h
      obtain ⟨root, hadd, rfl⟩ := h
      exact ⟨addRelationship_identities hadd, by simp [hresolve]⟩

variable {root root' : RootAnalysis}

theorem relationshipWrites_congr (h : root.identities = root'.identities) :
    relationshipWrites rt root uuidMap recorded source =
      relationshipWrites rt root' uuidMap recorded source := by
  funext rel
  simp only [relationshipWrites, RootAnalysis.resolveTarget_congr h]

theorem redirectionWrites_congr (h : root.identities = root'.identities) :
    redirectionWrites root uuidMap recorded source =
      redirectionWrites root' uuidMap recorded source := by
  funext redirection
  simp only [redirectionWrites, RootAnalysis.getObservable_uuid_congr h]

theorem specWrites_congr (h : root.identities = root'.identities) :
    specWrites rt root uuidMap = specWrites rt root' uuidMap := by
  funext spec
  simp only [specWrites, relationshipWrites_congr h, redirectionWrites_congr h]

theorem writes_relationships {rels : List RelationshipDict}
    (h : rels.foldlM (Replay.applyRelationship rt uuidMap recorded source) replay = some replay') :
    Writes replay replay'
      (rels.flatMap (relationshipWrites rt replay.root uuidMap recorded source)) := by
  induction rels generalizing replay with
  | nil =>
    obtain rfl := Option.some.inj h
    exact .refl
  | cons rel rels ih =>
    rw [foldlM_cons] at h
    obtain ⟨replay₁, hrel, hrels⟩ := Option.bind_eq_some_iff.mp h
    have hfirst := writes_applyRelationship hrel
    have hrest := ih hrels
    rw [flatMap_cons]
    rw [relationshipWrites_congr hfirst.identities] at hrest
    exact hfirst.trans hrest

theorem writes_applySpecRedirection (uuidMap : UuidMap) (recorded source : NodeUuid)
    (redirection : Option NodeUuid) (replay : Replay) :
    Writes replay (replay.applySpecRedirection uuidMap recorded source redirection)
      (redirectionWrites replay.root uuidMap recorded source redirection) := by
  unfold Replay.applySpecRedirection redirectionWrites
  cases redirection with
  | none => exact .refl
  | some target =>
    cases hresolve : (uuidMap.lookup target).or
        ((replay.root.getObservable target).map (·.uuid)) with
    | none => simpa [hresolve] using Writes.refl
    | some uuid => simpa [hresolve] using Writes.setRedirection recorded source (some (target, uuid))

theorem writes_applySpecEndpoints {spec : ObservableSpec}
    (h : replay.applySpecEndpoints rt uuidMap spec = some replay') :
    Writes replay replay' (specWrites rt replay.root uuidMap spec) := by
  unfold Replay.applySpecEndpoints at h
  unfold specWrites
  cases hsource : uuidMap.lookup spec.uuid with
  | none =>
    simp only [hsource, Option.some.injEq] at h
    exact h ▸ .refl
  | some source =>
    simp only [hsource, Option.map_eq_some_iff] at h
    obtain ⟨replay₁, hrels, rfl⟩ := h
    have hfirst := writes_relationships hrels
    have hrest := writes_applySpecRedirection uuidMap spec.uuid source spec.initialRedirection
      replay₁
    rw [redirectionWrites_congr hfirst.identities] at hrest
    exact hfirst.trans hrest

theorem writes_specs {specs : List ObservableSpec}
    (h : specs.foldlM (Replay.applySpecEndpoints rt uuidMap) replay = some replay') :
    Writes replay replay' (specs.flatMap (specWrites rt replay.root uuidMap)) := by
  induction specs generalizing replay with
  | nil =>
    obtain rfl := Option.some.inj h
    exact .refl
  | cons spec specs ih =>
    rw [foldlM_cons] at h
    obtain ⟨replay₁, hspec, hspecs⟩ := Option.bind_eq_some_iff.mp h
    have hfirst := writes_applySpecEndpoints hspec
    have hrest := ih hspecs
    rw [specWrites_congr hfirst.identities] at hrest
    rw [flatMap_cons]
    exact hfirst.trans hrest

theorem applyMarks_identity (rt : Runtime) (diff : ObservableDiff) (o : Observable) :
    (o.applyMarks rt diff).toObservableIdentity = o.toObservableIdentity := by
  simp only [Observable.applyMarks, Observable.addDetectionDicts]
  rw [foldl_identity (f := Observable.addDirective) fun _ _ => rfl,
    foldl_identity (f := Observable.addDetectionPoint) fun _ _ => rfl,
    foldl_identity (f := Observable.addTag) fun _ _ => rfl]

theorem applyLimits_identity (diff : ObservableDiff) (o : Observable) :
    (o.applyLimits diff).toObservableIdentity = o.toObservableIdentity := by
  have hlimits := (foldl_identity (f := Observable.addLimitedAnalysis) (fun _ _ => rfl)
    diff.addedLimitedAnalysis (diff.addedExcludedAnalysis.foldl Observable.addExcludedAnalysis o))
  rw [foldl_identity (f := Observable.addExcludedAnalysis) fun _ _ => rfl] at hlimits
  unfold Observable.applyLimits
  split <;> exact hlimits

theorem applyIgnored_identity (diff : ObservableDiff) (o : Observable) :
    (o.applyIgnored diff).toObservableIdentity = o.toObservableIdentity := by
  unfold Observable.applyIgnored
  split <;> rfl

theorem writes_applyRedirection (recorded target : NodeUuid)
    (redirection : Option (Option NodeUuid × Option NodeUuid)) (replay : Replay) :
    Writes replay (replay.applyRedirection recorded target redirection)
      ((redirection.bind (·.2)).map fun uuid =>
        EndpointWrite.mk ⟨recorded, none, uuid⟩ target uuid).toList := by
  cases redirection with
  | none => exact .refl
  | some transition =>
    have hset : Writes replay _ _ :=
      .setRedirection recorded target (transition.2.map fun uuid => (uuid, uuid))
    rw [Option.map_map] at hset
    exact hset

theorem writes_applyObservableDiff {target : NodeUuid} {diff : ObservableDiff}
    (h : replay.applyObservableDiff rt target recorded diff = some replay') :
    Writes replay replay' (diffWrites rt replay.root target recorded diff) := by
  unfold Replay.applyObservableDiff at h
  obtain ⟨replay₁, hrels, rfl⟩ := Option.map_eq_some_iff.mp h
  have hmarks := Writes.modify replay target (applyMarks_identity rt diff)
  have hrels := writes_relationships hrels
  rw [relationshipWrites_congr hmarks.identities] at hrels
  have hlimits := Writes.modify replay₁ target (applyLimits_identity diff)
  have hredirection := writes_applyRedirection recorded target diff.redirection
    (replay₁.modify target (·.applyLimits diff))
  have hignored := Writes.modify ((replay₁.modify target (·.applyLimits diff)).applyRedirection
    recorded target diff.redirection) target (applyIgnored_identity diff)
  simpa [diffWrites] using hmarks.trans (hrels.trans (hlimits.trans (hredirection.trans hignored)))

end Second

def deltaWrites (rt : Runtime) (root : RootAnalysis) (uuidMap : UuidMap) (target : NodeUuid)
    (delta : ModuleExecutionDelta) : List EndpointWrite :=
  delta.newObservables.flatMap (specWrites rt root uuidMap) ++
    diffWrites rt root target delta.observableUuid delta.targetObservableDiff

theorem writes_replayChanges {rt : Runtime} {root : RootAnalysis} {uuidMap : UuidMap}
    {target : NodeUuid} {delta : ModuleExecutionDelta} {replay : Replay}
    (h : replayChanges rt root uuidMap target delta = some replay) :
    Writes ⟨root, []⟩ replay (deltaWrites rt root uuidMap target delta) := by
  unfold replayChanges at h
  obtain ⟨replay₂, hboth, rfl⟩ := Option.map_eq_some_iff.mp h
  obtain ⟨replay₁, hspecs, hdiff⟩ := Option.bind_eq_some_iff.mp hboth
  have hspecs := writes_specs hspecs
  have hdiff := writes_applyObservableDiff hdiff
  have hcongr : diffWrites rt replay₁.root target delta.observableUuid =
      diffWrites rt root target delta.observableUuid := by
    funext diff
    simp only [diffWrites, relationshipWrites_congr hspecs.identities]
  rw [hcongr] at hdiff
  have hboth := hspecs.trans hdiff
  exact ⟨hboth.identities, hboth.writes⟩

/-! ## §5 Closing references -/

/-- Every endpoint written is an observable of the root, and every relationship or redirection
within the scope of the delta is written, between observables that stand for its ends. -/
structure ClosesReferences (rt : Runtime) (delta : ModuleExecutionDelta) (uuidMap : UuidMap)
    (replay : Replay) : Prop where
  resolved : ∀ write ∈ replay.writes, replay.root.getObservable write.target ≠ none
  kept : ∀ reference ∈ delta.references, reference.target ∈ delta.scope →
    ∃ write ∈ replay.writes, write.reference = reference ∧
      uuidMap.lookup reference.source = some write.source ∧
        ∃ endpoint, uuidMap.lookup reference.target = some endpoint ∧
          replay.root.sameObservable rt write.target endpoint

/-- A delta that was recorded in another root: its relationships and redirections point to uuids
of that root, the analyzed observable and the new ones are told apart by theirs, and no
relationship is recorded twice. -/
structure RecordedElsewhere (root : RootAnalysis) (delta : ModuleExecutionDelta) : Prop where
  references : ∀ reference ∈ delta.references, reference.target.root ≠ root.number
  scope : delta.scope.Nodup
  distinct : ∀ rel ∈ delta.targetObservableDiff.addedRelationships,
    ∀ rel' ∈ delta.targetObservableDiff.addedRelationships, ∀ reference,
      rel.reference delta.observableUuid = some reference →
        rel'.reference delta.observableUuid = some reference → rel = rel'

/-- What is recorded under the key is no file, and is what the relationship dict says its target
is. -/
def RecordKey.IsTargetOf (rt : Runtime) (rel : RelationshipDict) (key : RecordKey) : Prop :=
  key.type ≠ fFile ∧ ∃ type value, rel.targetType = some type ∧ type ≠ "" ∧
    rel.targetValue = some value ∧
      ⟨type, parseTime rt rel.targetTime, rt.compareKey key.type value, none⟩ = key

/-- What the endpoints of a delta need of the root: the analyzed observable is not redirected; the
registry admits every new observable at an end of a relationship or redirection; and a new one to
which the analyzed observable has a relationship is no file and recorded as this says. -/
structure Replayable (rt : Runtime) (root : RootAnalysis) (delta : ModuleExecutionDelta) :
    Prop where
  notRedirected : delta.targetObservableDiff.redirection.bind (·.2) = none
  admitted : ∀ reference ∈ delta.references, ∀ uuid ∈ [reference.source, reference.target],
    uuid = delta.observableUuid ∨ uuid ∈ admitted rt (root.keys rt) delta.newObservables
  described : ∀ rel ∈ delta.targetObservableDiff.addedRelationships, ∀ reference,
    rel.reference delta.observableUuid = some reference → ∀ spec ∈ delta.newObservables,
      spec.uuid = reference.target → ∀ key, spec.key rt = some key → key.IsTargetOf rt rel

/-- The same of the root that holds the new observables already. -/
structure Resolvable (rt : Runtime) (delta : ModuleExecutionDelta) (root : RootAnalysis)
    (uuidMap : UuidMap) : Prop where
  notRedirected : delta.targetObservableDiff.redirection.bind (·.2) = none
  admitted : ∀ reference ∈ delta.references,
    (uuidMap.lookup reference.source).isSome ∧ (uuidMap.lookup reference.target).isSome
  described : ∀ rel ∈ delta.targetObservableDiff.addedRelationships, ∀ reference,
    rel.reference delta.observableUuid = some reference →
      reference.target ≠ delta.observableUuid → ∀ endpoint,
        uuidMap.lookup reference.target = some endpoint → ∀ i ∈ root.identities,
          i.uuid = endpoint → (i.key rt).IsTargetOf rt rel

section Closure

variable {rt : Runtime} {root root' : RootAnalysis} {uuidMap : UuidMap} {target : NodeUuid}
  {delta : ModuleExecutionDelta} {rel : RelationshipDict} {recorded source uuid : NodeUuid}
  {write : EndpointWrite} {reference : Reference}

theorem mem_relationshipWrites :
    write ∈ relationshipWrites rt root uuidMap recorded source rel ↔
      ∃ reference, rel.reference recorded = some reference ∧ ∃ uuid,
        root.resolveTarget rt uuidMap rel reference.target = some uuid ∧
          ⟨reference, source, uuid⟩ = write := by
  simp only [relationshipWrites, Option.mem_toList, Option.bind_eq_some_iff,
    Option.map_eq_some_iff]

theorem mem_redirectionWrites {redirection : Option NodeUuid} :
    write ∈ redirectionWrites root uuidMap recorded source redirection ↔
      ∃ target, redirection = some target ∧ ∃ uuid,
        (uuidMap.lookup target).or ((root.getObservable target).map (·.uuid)) = some uuid ∧
          ⟨⟨recorded, none, target⟩, source, uuid⟩ = write := by
  simp only [redirectionWrites, Option.mem_toList, Option.bind_eq_some_iff,
    Option.map_eq_some_iff]

theorem mem_specWrites {spec : ObservableSpec} :
    write ∈ specWrites rt root uuidMap spec ↔
      ∃ source, uuidMap.lookup spec.uuid = some source ∧
        ((∃ rel ∈ spec.initialRelationships,
            write ∈ relationshipWrites rt root uuidMap spec.uuid source rel) ∨
          write ∈ redirectionWrites root uuidMap spec.uuid source spec.initialRedirection) := by
  unfold specWrites
  cases uuidMap.lookup spec.uuid with
  | none => simp
  | some source => simp

theorem mem_diffWrites {diff : ObservableDiff} :
    write ∈ diffWrites rt root target recorded diff ↔
      (∃ rel ∈ diff.addedRelationships,
          write ∈ relationshipWrites rt root [(recorded, target)] recorded target rel) ∨
        ∃ uuid, diff.redirection.bind (·.2) = some uuid ∧
          ⟨⟨recorded, none, uuid⟩, target, uuid⟩ = write := by
  simp only [diffWrites, mem_append, mem_flatMap, Option.mem_toList,
    Option.map_eq_some_iff]

theorem RootAnalysis.Maps.has (hmaps : root.Maps uuidMap) (h : uuidMap.lookup uuid = some source) :
    root.Has source := by
  obtain ⟨before, after, rfl, -⟩ := lookup_eq_some_iff.mp h
  exact hmaps (uuid, source) (by simp)

theorem RootAnalysis.Maps.resolveTarget (hmaps : root.Maps uuidMap) {target : NodeUuid}
    (h : root.resolveTarget rt uuidMap rel target = some uuid) : root.Has uuid := by
  simp only [RootAnalysis.resolveTarget, Option.or_eq_some_iff, Option.map_eq_some_iff] at h
  obtain hlookup | ⟨-, ⟨o, ho, rfl⟩ | ⟨-, hspec⟩⟩ := h
  · exact hmaps.has hlookup
  · exact ⟨_, RootAnalysis.getObservable_mem ho, rfl⟩
  · unfold RootAnalysis.resolveBySpec at hspec
    split at hspec
    · cases hspec
    · split at hspec
      · cases hspec
      · obtain ⟨o, ho, rfl⟩ := Option.map_eq_some_iff.mp hspec
        obtain ⟨value, -, hfind⟩ := Option.bind_eq_some_iff.mp ho
        exact ⟨_, mem_map_of_mem (List.mem_of_find?_eq_some hfind), rfl⟩

theorem has_of_mem_deltaWrites (hmaps : root.Maps uuidMap) (htarget : root.Has target)
    (hredirection : delta.targetObservableDiff.redirection.bind (·.2) = none)
    (hwrite : write ∈ deltaWrites rt root uuidMap target delta) : root.Has write.target := by
  have hself : root.Maps [(delta.observableUuid, target)] := by
    intro entry hentry
    obtain rfl := mem_singleton.mp hentry
    exact htarget
  rcases mem_append.mp hwrite with hspecs | hdiff
  · obtain ⟨spec, -, hspec⟩ := mem_flatMap.mp hspecs
    obtain ⟨source, -, ⟨rel, -, hrel⟩ | hredirected⟩ := mem_specWrites.mp hspec
    · obtain ⟨reference, -, uuid, hresolve, rfl⟩ := mem_relationshipWrites.mp hrel
      exact hmaps.resolveTarget hresolve
    · obtain ⟨redirected, -, uuid, hresolve, rfl⟩ := mem_redirectionWrites.mp hredirected
      rcases Option.or_eq_some_iff.mp hresolve with hlookup | ⟨-, hget⟩
      · exact hmaps.has hlookup
      · obtain ⟨o, ho, rfl⟩ := Option.map_eq_some_iff.mp hget
        exact ⟨_, RootAnalysis.getObservable_mem ho, rfl⟩
  · rcases mem_diffWrites.mp hdiff with ⟨rel, -, hrel⟩ | ⟨uuid, hredirected, -⟩
    · obtain ⟨reference, -, uuid, hresolve, rfl⟩ := mem_relationshipWrites.mp hrel
      exact hself.resolveTarget hresolve
    · cases hredirection.symm.trans hredirected

theorem mem_references : reference ∈ delta.references ↔
    (∃ spec ∈ delta.newObservables,
        (∃ rel ∈ spec.initialRelationships, rel.reference spec.uuid = some reference) ∨
          ∃ uuid, spec.initialRedirection = some uuid ∧ ⟨spec.uuid, none, uuid⟩ = reference) ∨
      (∃ rel ∈ delta.targetObservableDiff.addedRelationships,
        rel.reference delta.observableUuid = some reference) ∨
      ∃ uuid, delta.targetObservableDiff.redirection.bind (·.2) = some uuid ∧
        ⟨delta.observableUuid, none, uuid⟩ = reference := by
  simp only [ModuleExecutionDelta.references, ObservableSpec.references, mem_append,
    mem_flatMap, mem_filterMap, Option.mem_toList, Option.map_eq_some_iff, or_assoc]

theorem reference_source (h : rel.reference recorded = some reference) :
    reference.source = recorded ∧ rel.target = some reference.target := by
  unfold RelationshipDict.reference at h
  split at h
  · split at h
    · cases h
    · obtain rfl := Option.some.inj h
      exact ⟨rfl, by assumption⟩
  · cases h

theorem mem_scope_of_accepted (hscope : delta.outOfScopeRelationshipTargets = [])
    (hredirection : delta.targetObservableDiff.redirection.bind (·.2) = none)
    (hreference : reference ∈ delta.references) : reference.target ∈ delta.scope := by
  obtain ⟨hdiff, hspecs⟩ := append_eq_nil_iff.mp hscope
  have hrel {rels : List RelationshipDict} {rel : RelationshipDict} {recorded : NodeUuid}
      (hrels : rels.filter delta.outOfScope = []) (hmem : rel ∈ rels)
      (hrel : rel.reference recorded = some reference) : reference.target ∈ delta.scope := by
    have hin := filter_eq_nil_iff.mp hrels rel hmem
    simpa [ModuleExecutionDelta.outOfScope, (reference_source hrel).2] using hin
  obtain ⟨spec, hspec, h⟩ | ⟨rel, hmem, href⟩ | ⟨uuid, hredirected, -⟩ :=
    mem_references.mp hreference
  · obtain ⟨hrels, hredirected⟩ :=
      append_eq_nil_iff.mp (flatMap_eq_nil_iff.mp hspecs spec hspec)
    obtain ⟨rel, hmem, href⟩ | ⟨uuid, huuid, rfl⟩ := h
    · exact hrel hrels hmem href
    · by_contra hout
      simp [huuid, hout] at hredirected
  · exact hrel hdiff hmem href
  · cases hredirection.symm.trans hredirected

variable {i : ObservableIdentity} {time : Option ObservableTime} {type : ObservableType}

theorem matchesSpec_iff {value : String} :
    i.matchesSpec rt type value time ↔
      type = i.type ∧ i.time = time ∧ rt.compareKey i.type i.value = rt.compareKey i.type value := by
  simp [ObservableIdentity.matchesSpec]

theorem isTargetOf_iff :
    (i.key rt).IsTargetOf rt rel ↔ i.type ≠ fFile ∧ ∃ type value, rel.targetType = some type ∧
      type ≠ "" ∧ rel.targetValue = some value ∧
        i.matchesSpec rt type value (parseTime rt rel.targetTime) := by
  unfold RecordKey.IsTargetOf
  rw [key_type]
  apply and_congr_right
  intro hfile
  simp only [matchesSpec_iff, ObservableIdentity.key, hfile, if_false, RecordKey.mk.injEq,
    and_true, @eq_comm _ i.time, @eq_comm _ (rt.compareKey i.type i.value)]

theorem exists_getObservableBySpec (hi : i ∈ root.identities) {value : String}
    (hfile : i.type ≠ fFile) (hmatches : i.matchesSpec rt type value time) :
    ∃ o, root.getObservableBySpec rt type (some value) time = some o ∧ o.eq rt i := by
  obtain ⟨o', ho', rfl⟩ := mem_map.mp hi
  have hfound : (root.getObservableBySpec rt type (some value) time).isSome := by
    apply List.find?_isSome.mpr
    exact ⟨o', ho', by simp [hfile, hmatches]⟩
  obtain ⟨o, ho⟩ := Option.isSome_iff_exists.mp hfound
  refine ⟨o, ho, ?_⟩
  have hfirst := List.find?_some ho
  simp only [ne_eq, decide_eq_true_eq] at hfirst
  obtain ⟨htype, htime, hkey⟩ := matchesSpec_iff.mp hfirst.2
  obtain ⟨rfl, rfl, hkey'⟩ := matchesSpec_iff.mp hmatches
  -- both are of the type, time and comparison key of the dict
  have hsame : o.matchesSpec rt o'.type o'.value o'.time := by
    rw [htype] at hkey'
    exact matchesSpec_iff.mpr ⟨htype, htime, hkey.trans hkey'.symm⟩
  simp [ObservableIdentity.eq, hfirst.1, hsame]

theorem matchesSpec_of_getObservableBySpec {o : Observable} {value : String}
    (hfind : root.getObservableBySpec rt type (some value) time = some o) (heq : o.eq rt i)
    (hself : o.uuid = i.uuid → o.toObservableIdentity = i) :
    i.type ≠ fFile ∧ i.matchesSpec rt type value time := by
  have hfirst := List.find?_some hfind
  simp only [ne_eq, decide_eq_true_eq] at hfirst
  simp only [ObservableIdentity.eq, hfirst.1, if_false, decide_eq_true_eq] at heq
  rcases heq with huuid | hmatches
  · rw [← hself huuid.symm]
    exact hfirst
  · obtain ⟨htype, htime, hkey⟩ := matchesSpec_iff.mp hfirst.2
    obtain ⟨htype', htime', hkey'⟩ := matchesSpec_iff.mp hmatches
    refine ⟨htype' ▸ hfirst.1, matchesSpec_iff.mpr ⟨htype.trans htype'.symm, ?_, ?_⟩⟩
    · exact htime' ▸ htime
    · rw [htype']
      exact hkey'.symm.trans hkey

theorem RootAnalysis.Has.sameObservable (h : root.Has uuid) (rt : Runtime) :
    root.sameObservable rt uuid uuid := by
  obtain ⟨o, ho⟩ := Option.ne_none_iff_exists'.mp (RootAnalysis.getObservable_ne_none_iff.mpr h)
  simp [RootAnalysis.sameObservable, ho, RootAnalysis.eq_refl]

theorem RootAnalysis.Sound.sameObservable_iff (hroot : root.Sound) {o : Observable}
    (ho : root.getObservable uuid = some o) (hi : i ∈ root.identities) :
    root.sameObservable rt uuid i.uuid ↔ o.eq rt i := by
  obtain ⟨o', ho', rfl⟩ := hroot.getObservable hi
  simp [RootAnalysis.sameObservable, ho, ho']

theorem RootAnalysis.Sound.resolveTarget_other (hroot : root.Sound) {target self : NodeUuid}
    (htarget : target.root ≠ root.number) (hself : target ≠ recorded) :
    root.resolveTarget rt [(recorded, self)] rel target = root.resolveBySpec rt rel := by
  simp only [RootAnalysis.resolveTarget, hroot.getObservable_foreign htarget,
    lookup_cons, lookup_nil, beq_false_of_ne hself, Option.none_or, Option.map_none]

theorem RootAnalysis.Sound.isTargetOf (hroot : root.Sound) (hi : i ∈ root.identities)
    (hresolve : root.resolveBySpec rt rel = some uuid) (hsame : root.sameObservable rt uuid i.uuid) :
    (i.key rt).IsTargetOf rt rel := by
  unfold RootAnalysis.resolveBySpec at hresolve
  split at hresolve
  · cases hresolve
  next type htype =>
    split at hresolve
    · cases hresolve
    next hempty =>
      obtain ⟨o, ho, rfl⟩ := Option.map_eq_some_iff.mp hresolve
      obtain ⟨value, hvalue, hfind⟩ := Option.bind_eq_some_iff.mp ho
      have hmem : o.toObservableIdentity ∈ root.identities :=
        mem_map_of_mem (List.mem_of_find?_eq_some hfind)
      obtain ⟨o', ho', hsame'⟩ := hroot.getObservable hmem
      have heq : o.eq rt i := hsame' ▸ (hroot.sameObservable_iff ho' hi).mp hsame
      have hself : o.uuid = i.uuid → o.toObservableIdentity = i :=
        inj_on_of_nodup_map hroot.distinct hmem hi
      rw [hvalue] at ho
      obtain ⟨hfile, hmatches⟩ := matchesSpec_of_getObservableBySpec ho heq hself
      exact isTargetOf_iff.mpr ⟨hfile, type, value, htype, hempty, hvalue, hmatches⟩

end Closure

section Main

variable {rt : Runtime} {root root' : RootAnalysis} {uuidMap : UuidMap} {target : NodeUuid}
  {delta : ModuleExecutionDelta} {replay : Replay}

/-- What both directions assume of the root that holds the new observables. -/
structure Prepared (root : RootAnalysis) (delta : ModuleExecutionDelta) (uuidMap : UuidMap)
    (target : NodeUuid) : Prop where
  sound : root.Sound
  maps : root.Maps uuidMap
  hasTarget : root.Has target
  self : uuidMap.lookup delta.observableUuid = some target
  recorded : RecordedElsewhere root delta
  scope : delta.outOfScopeRelationshipTargets = []

section Closes

variable (h : Resolvable rt delta root uuidMap) (hprepared : Prepared root delta uuidMap target)

include h hprepared

theorem Resolvable.exists_specWrite {spec : ObservableSpec} (hspec : spec ∈ delta.newObservables)
    {reference : Reference} (hreference : reference ∈ delta.references)
    (hsource : reference.source = spec.uuid)
    (hwritten : ∀ source endpoint, uuidMap.lookup reference.target = some endpoint →
      ⟨reference, source, endpoint⟩ ∈
          spec.initialRelationships.flatMap
            (relationshipWrites rt root uuidMap spec.uuid source) ∨
        ⟨reference, source, endpoint⟩ ∈
          redirectionWrites root uuidMap spec.uuid source spec.initialRedirection) :
    ∃ write ∈ deltaWrites rt root uuidMap target delta, write.reference = reference ∧
      uuidMap.lookup reference.source = some write.source ∧
        ∃ endpoint, uuidMap.lookup reference.target = some endpoint ∧
          root.sameObservable rt write.target endpoint := by
  obtain ⟨hhassource, hhastarget⟩ := h.admitted reference hreference
  obtain ⟨source, hsource'⟩ := Option.isSome_iff_exists.mp hhassource
  obtain ⟨endpoint, hendpoint⟩ := Option.isSome_iff_exists.mp hhastarget
  refine ⟨⟨reference, source, endpoint⟩, ?_, rfl, hsource', endpoint, hendpoint,
    (hprepared.maps.has hendpoint).sameObservable rt⟩
  apply mem_append_left
  apply mem_flatMap.mpr
  refine ⟨spec, hspec, mem_specWrites.mpr ⟨source, hsource ▸ hsource', ?_⟩⟩
  rcases hwritten source endpoint hendpoint with hrel | hredirected
  · exact .inl (mem_flatMap.mp hrel)
  · exact .inr hredirected

theorem Resolvable.exists_diffWrite {rel : RelationshipDict}
    (hrel : rel ∈ delta.targetObservableDiff.addedRelationships) {reference : Reference}
    (hreference : rel.reference delta.observableUuid = some reference) :
    ∃ write ∈ deltaWrites rt root uuidMap target delta, write.reference = reference ∧
      uuidMap.lookup reference.source = some write.source ∧
        ∃ endpoint, uuidMap.lookup reference.target = some endpoint ∧
          root.sameObservable rt write.target endpoint := by
  have hmem : reference ∈ delta.references :=
    mem_references.mpr (.inr (.inl ⟨rel, hrel, hreference⟩))
  have hsource : uuidMap.lookup reference.source = some target :=
    (reference_source hreference).1 ▸ hprepared.self
  have hwritten {uuid : NodeUuid} (hresolve : root.resolveTarget rt
      [(delta.observableUuid, target)] rel reference.target = some uuid) :
      ⟨reference, target, uuid⟩ ∈ deltaWrites rt root uuidMap target delta := by
    apply mem_append_right
    apply mem_diffWrites.mpr
    exact .inl ⟨rel, hrel, mem_relationshipWrites.mpr ⟨reference, hreference, uuid, hresolve, rfl⟩⟩
  by_cases hself : reference.target = delta.observableUuid
  · refine ⟨⟨reference, target, target⟩, hwritten ?_, rfl, hsource, target,
      hself ▸ hprepared.self, hprepared.hasTarget.sameObservable rt⟩
    simp [RootAnalysis.resolveTarget, hself]
  · obtain ⟨endpoint, hendpoint⟩ := Option.isSome_iff_exists.mp (h.admitted reference hmem).2
    obtain ⟨i, hi, rfl⟩ := hprepared.maps.has hendpoint
    obtain ⟨hfile, type, value, htype, hempty, hvalue, hmatches⟩ :=
      isTargetOf_iff.mp (h.described rel hrel reference hreference hself i.uuid hendpoint i hi rfl)
    obtain ⟨o, ho, heq⟩ := exists_getObservableBySpec hi hfile hmatches
    refine ⟨⟨reference, target, o.uuid⟩, hwritten ?_, rfl, hsource, i.uuid, hendpoint, ?_⟩
    · rw [hprepared.sound.resolveTarget_other
        (hprepared.recorded.references reference hmem) hself]
      simp only [RootAnalysis.resolveBySpec, htype, hempty, if_false, hvalue, ho, Option.map_some]
    · have hmem : o.toObservableIdentity ∈ root.identities :=
        mem_map_of_mem (List.mem_of_find?_eq_some ho)
      obtain ⟨o', ho', hsame⟩ := hprepared.sound.getObservable hmem
      exact (hprepared.sound.sameObservable_iff ho' hi).mpr (hsame ▸ heq)

theorem Resolvable.closes (hwrites : Writes ⟨root, []⟩ replay
    (deltaWrites rt root uuidMap target delta)) : ClosesReferences rt delta uuidMap replay where
  resolved := by
    intro write hwrite
    rw [hwrites.writes, nil_append] at hwrite
    apply RootAnalysis.getObservable_ne_none_iff.mpr
    obtain ⟨i, hi, huuid⟩ :=
      has_of_mem_deltaWrites hprepared.maps hprepared.hasTarget h.notRedirected hwrite
    exact ⟨i, hwrites.identities ▸ hi, huuid⟩
  kept := by
    intro reference hreference _
    have hwritten : ∃ write ∈ deltaWrites rt root uuidMap target delta,
        write.reference = reference ∧ uuidMap.lookup reference.source = some write.source ∧
          ∃ endpoint, uuidMap.lookup reference.target = some endpoint ∧
            root.sameObservable rt write.target endpoint := by
      obtain ⟨spec, hspec, ⟨rel, hrel, href⟩ | ⟨uuid, huuid, rfl⟩⟩ | ⟨rel, hrel, href⟩ |
        ⟨uuid, hredirected, -⟩ := mem_references.mp hreference
      · apply h.exists_specWrite hprepared hspec hreference (reference_source href).1
        intro source endpoint hendpoint
        refine .inl (mem_flatMap.mpr ⟨rel, hrel, mem_relationshipWrites.mpr
          ⟨reference, href, endpoint, ?_, rfl⟩⟩)
        simp [RootAnalysis.resolveTarget, hendpoint]
      · apply h.exists_specWrite hprepared hspec hreference rfl
        intro source endpoint hendpoint
        exact .inr (mem_redirectionWrites.mpr ⟨uuid, huuid, endpoint, by simp_all, rfl⟩)
      · exact h.exists_diffWrite hprepared hrel href
      · cases h.notRedirected.symm.trans hredirected
    simpa only [hwrites.writes, nil_append,
      RootAnalysis.sameObservable_congr hwrites.identities] using hwritten

end Closes

theorem ClosesReferences.resolvable (h : ClosesReferences rt delta uuidMap replay)
    (hprepared : Prepared root delta uuidMap target)
    (hwrites : Writes ⟨root, []⟩ replay (deltaWrites rt root uuidMap target delta)) :
    Resolvable rt delta root uuidMap := by
  have hmem {write : EndpointWrite} (hwrite : write ∈ deltaWrites rt root uuidMap target delta) :
      write ∈ replay.writes := by
    rw [hwrites.writes, nil_append]
    exact hwrite
  have hredirection : delta.targetObservableDiff.redirection.bind (·.2) = none := by
    by_contra hne
    obtain ⟨uuid, huuid⟩ := Option.ne_none_iff_exists'.mp hne
    have hwrite := h.resolved _ (hmem (mem_append_right _
      (mem_diffWrites.mpr (.inr ⟨uuid, huuid, rfl⟩))))
    obtain ⟨i, hi, rfl⟩ := RootAnalysis.getObservable_ne_none_iff.mp hwrite
    rw [hwrites.identities] at hi
    exact hprepared.recorded.references _ (mem_references.mpr (.inr (.inr ⟨_, huuid, rfl⟩)))
      (hprepared.sound.drawn i hi).1
  refine ⟨hredirection, fun reference hreference => ?_, ?_⟩
  · obtain ⟨write, -, -, hsource, endpoint, hendpoint, -⟩ :=
      h.kept reference hreference (mem_scope_of_accepted hprepared.scope hredirection hreference)
    exact ⟨hsource ▸ rfl, hendpoint ▸ rfl⟩
  · intro rel hrel reference href hother endpoint hendpoint i hi huuid
    have hreference : reference ∈ delta.references :=
      mem_references.mpr (.inr (.inl ⟨rel, hrel, href⟩))
    obtain ⟨write, hwrite, rfl, -, endpoint', hendpoint', hsame⟩ :=
      h.kept reference hreference (mem_scope_of_accepted hprepared.scope hredirection hreference)
    obtain rfl : endpoint = endpoint' := Option.some.inj (hendpoint.symm.trans hendpoint')
    subst huuid
    rw [RootAnalysis.sameObservable_congr hwrites.identities] at hsame
    have hsource := (reference_source href).1
    rw [hwrites.writes, nil_append] at hwrite
    rcases mem_append.mp hwrite with hspecs | hdiff
    · -- a new observable is not the analyzed one
      obtain ⟨spec, hspec, hwrite⟩ := mem_flatMap.mp hspecs
      refine absurd ?_ (nodup_cons.mp hprepared.recorded.scope).1
      rw [← hsource]
      apply mem_map.mpr
      refine ⟨spec, hspec, ?_⟩
      obtain ⟨source, -, ⟨rel', -, hrel'⟩ | hredirected⟩ := mem_specWrites.mp hwrite
      · obtain ⟨reference, href', uuid, -, rfl⟩ := mem_relationshipWrites.mp hrel'
        exact (reference_source href').1.symm
      · obtain ⟨redirected, -, uuid, -, rfl⟩ := mem_redirectionWrites.mp hredirected
        rfl
    · rcases mem_diffWrites.mp hdiff with ⟨rel', hrel', hwrite⟩ | ⟨uuid, hredirected, -⟩
      · obtain ⟨reference, href', uuid, hresolve, rfl⟩ := mem_relationshipWrites.mp hwrite
        obtain rfl := hprepared.recorded.distinct rel hrel rel' hrel' _ href href'
        rw [hprepared.sound.resolveTarget_other
          (hprepared.recorded.references _ hreference) hother] at hresolve
        exact hprepared.sound.isTargetOf hi hresolve hsame
      · cases hredirection.symm.trans hredirected

/-- Whether the root that holds the new observables resolves the endpoints is settled by the root
and the delta. -/
theorem resolvable_iff_replayable (hprepared : Prepared root' delta uuidMap target)
    (hmaps : root.MapsAdmitted rt [(delta.observableUuid, target)] delta.newObservables
      (root', uuidMap)) :
    Resolvable rt delta root' uuidMap ↔ Replayable rt root delta := by
  obtain ⟨hnotNew, hnodup⟩ := nodup_cons.mp hprepared.recorded.scope
  have hentry (uuid : NodeUuid) : (uuidMap.lookup uuid).isSome ↔
      uuid = delta.observableUuid ∨ uuid ∈ admitted rt (root.keys rt) delta.newObservables := by
    rw [hmaps.isSome uuid, or_comm]
    apply or_congr_left
    by_cases huuid : uuid = delta.observableUuid
    · simp [huuid]
    · simp [huuid, lookup_cons, beq_false_of_ne huuid]
  have hadmitted : (∀ reference ∈ delta.references,
      (uuidMap.lookup reference.source).isSome ∧ (uuidMap.lookup reference.target).isSome) ↔
        ∀ reference ∈ delta.references, ∀ uuid ∈ [reference.source, reference.target],
          uuid = delta.observableUuid ∨
            uuid ∈ admitted rt (root.keys rt) delta.newObservables := by
    simp [hentry]
  constructor
  · intro h
    refine ⟨h.notRedirected, hadmitted.mp h.admitted, ?_⟩
    intro rel hrel reference hreference spec hspec huuid key hkey
    have hother : spec.uuid ≠ delta.observableUuid := by
      intro heq
      exact hnotNew (heq ▸ mem_map_of_mem hspec)
    have hmem : reference ∈ delta.references :=
      mem_references.mpr (.inr (.inl ⟨rel, hrel, hreference⟩))
    obtain ⟨endpoint, hendpoint⟩ := Option.isSome_iff_exists.mp (h.admitted reference hmem).2
    rw [← huuid] at hendpoint
    have hnone : [(delta.observableUuid, target)].lookup spec.uuid = none := by
      simp [lookup_cons, beq_false_of_ne hother]
    obtain ⟨i, hi, rfl, hkey'⟩ := hmaps.keys hnodup spec hspec endpoint hnone hendpoint
    obtain rfl := Option.some.inj (hkey'.trans hkey)
    exact h.described rel hrel reference hreference (huuid ▸ hother) i.uuid (huuid ▸ hendpoint) i
      hi rfl
  · intro h
    refine ⟨h.notRedirected, hadmitted.mpr h.admitted, ?_⟩
    intro rel hrel reference hreference hother endpoint hendpoint i hi huuid
    -- the entry is that of a new observable
    have hnew : reference.target ∈ delta.newObservables.map (·.uuid) := by
      by_contra hnot
      rw [hmaps.other _ hnot] at hendpoint
      simp [lookup_cons, beq_false_of_ne hother] at hendpoint
    obtain ⟨spec, hspec, hspecUuid⟩ := mem_map.mp hnew
    have hnone : [(delta.observableUuid, target)].lookup spec.uuid = none := by
      simp [lookup_cons, beq_false_of_ne (hspecUuid ▸ hother)]
    obtain ⟨j, hj, huuid', hkey⟩ := hmaps.keys hnodup spec hspec endpoint hnone
      (hspecUuid ▸ hendpoint)
    obtain rfl : i = j :=
      inj_on_of_nodup_map hprepared.sound.distinct hi hj (huuid.trans huuid'.symm)
    exact h.described rel hrel reference hreference spec hspec hspecUuid _ hkey.symm

end Main

/-! ## §6 Two deltas -/

section Examples

/-- Types that take every value as it is, without limits. -/
def plainRuntime : Runtime where
  construct _ value := some value
  compareKey _ value := value
  parseEventTime s := some (.text s)
  observableLimits _ := none
  hasBlob _ := true
  storeFile sha256 path := some (sha256, path.getD "")
  canImport _ := true
  builtinSignatureVersion := "1"

def openCache : CacheWrite where
  cacheTtl := some 3600
  fileSize := none
  fileBlobMaxBytes := 0
  enabled := true
  cacheKey := some "key"
  storedSha _ := ""
  compressedSize := 1
  maxCompressedBytes := 1000

/-- A root with one url, to which a delta is replayed. -/
def urlRoot : RootAnalysis where
  number := 1
  draws := 1
  observables := [.new ⟨⟨1, 0⟩, "url", "http://a/", none, none⟩ false]
  children := [⟨1, 0⟩]
  tags := []
  detections := []

def foundUrl : ObservableSpec where
  uuid := ⟨0, 1⟩
  type := "url"
  value := "http://b/"
  time := none
  initialTags := []
  initialDirectives := []
  initialDetections := []
  initialExcludedAnalysis := []
  initialLimitedAnalysis := []
  filePath := none
  volatile := false
  initialRelationships := []
  initialRedirection := none

def foundUrlDelta (diff : ObservableDiff) : ModuleExecutionDelta where
  modulePath := "saq.modules.url:UrlAnalyzer"
  moduleInstance := none
  moduleVersion := 1
  observableUuid := ⟨0, 0⟩
  observableType := "url"
  observableValue := "http://a/"
  createdAt := ""
  executionTimeMs := 0
  rootUuid := ""
  analysis := none
  targetObservableDiff := diff
  newObservables := [foundUrl]
  rootDiff := .empty
  cacheKey := some "key"
  wideDiff := false
  otherObservableDiffs := []
  analysisChildrenDiffs := []
  fromCacheHit := false
  cachedAt := none

/-- It made `http://a/` a redirection to `http://b/`. -/
def redirectingDiff : ObservableDiff :=
  { ObservableDiff.empty with redirection := some (none, some ⟨0, 1⟩) }

def relatingDiff : ObservableDiff :=
  { ObservableDiff.empty with
    addedRelationships :=
      [⟨some "related_to", some ⟨0, 1⟩, some "url", some "http://b/", none⟩] }

/-- The root after a replay in which the module found `http://b/`. -/
def foundUrlRoot : RootAnalysis :=
  { urlRoot with
    draws := 2
    observables := urlRoot.observables ++ [.new ⟨⟨1, 1⟩, "url", "http://b/", none, none⟩ false]
    children := [⟨1, 0⟩, ⟨1, 1⟩] }

theorem urlRoot_sound : urlRoot.Sound := ⟨by decide, by decide, by decide⟩

theorem urlRoot_has : urlRoot.Has ⟨1, 0⟩ := ⟨_, mem_singleton_self _, rfl⟩

/-- `uuid_map` of both replays. -/
def foundUrlMap : UuidMap := [(⟨0, 1⟩, ⟨1, 1⟩), (⟨0, 0⟩, ⟨1, 0⟩)]

theorem replayObservables_foundUrl (diff : ObservableDiff) :
    replayObservables plainRuntime urlRoot ⟨1, 0⟩ (foundUrlDelta diff) =
      some (foundUrlRoot, foundUrlMap) := rfl

end Examples

end Ace3.Analysis
