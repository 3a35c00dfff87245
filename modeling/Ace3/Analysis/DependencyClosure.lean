import Ace3.Analysis.DependencyCycle
import Mathlib.Data.Set.Card

/-!
# Chains and the Transitive Closure

`failed`, `delayed` and `score` follow the single `next` link of each dependency. What they
stand for is a property of the whole tracked set: everything reachable from the target node.
-/

namespace Ace3.Analysis

open List
open Relation
open Lib.Digraph

/-! ## §1 The transitive definitions -/

/-- `dep'` is reachable from the target node of `dep`. -/
def Reaches (deps : List DependencyJson) (dep dep' : DependencyJson) : Prop :=
  dep' ∈ deps ∧ ReflTransGen (DependsOn deps) dep.target dep'.source

/-- This dependency, or one reachable from its target node, has failed. -/
def TransitivelyFailed (deps : List DependencyJson) (dep : DependencyJson) : Prop :=
  ∃ dep', (dep' = dep ∨ Reaches deps dep dep') ∧ dep'.status = .failed

def DependencyJson.isDelayed (registry : ObservableRegistry) (dep : DependencyJson) : Bool :=
  registry.isDelayed dep.sourceObservableId dep.sourceAnalysisType ||
    registry.isDelayed dep.targetObservableId dep.targetAnalysisType

/-- This dependency, or one reachable from its target node, waits on delayed analysis. -/
def TransitivelyDelayed (registry : ObservableRegistry) (deps : List DependencyJson)
    (dep : DependencyJson) : Prop :=
  ∃ dep', (dep' = dep ∨ Reaches deps dep dep') ∧ dep'.isDelayed registry

/-- The number of dependencies reachable from the target node of this one. -/
noncomputable def reachableCount (deps : List DependencyJson) (dep : DependencyJson) : Nat :=
  {dep' | Reaches deps dep dep'}.ncard

theorem reaches_congr {deps deps' : List DependencyJson} (h : ∀ dep, dep ∈ deps ↔ dep ∈ deps') :
    Reaches deps = Reaches deps' := by
  have hgraph : DependsOn deps = DependsOn deps' := by
    funext a b
    exact propext (exists_congr fun dep => and_congr_left fun _ => h dep)
  funext dep dep'
  simp only [Reaches, hgraph, h]

theorem reaches_iff_transGen {deps : List DependencyJson} {i : Nat} {dep dep' : DependencyJson}
    (hi : deps[i]? = some dep) :
    Reaches deps dep dep' ↔ ∃ j, deps[j]? = some dep' ∧ TransGen (Follows deps) i j := by
  constructor
  · rintro ⟨hmem, hpath⟩
    obtain ⟨j, hj⟩ := List.getElem?_of_mem hmem
    refine ⟨j, hj, ?_⟩
    -- the path is walked to its end node; any dependency starting there is reached
    generalize hnode : dep'.source = node at hpath
    clear hmem
    induction hpath generalizing j dep' with
    | refl => exact .single ⟨dep, dep', hi, hj, hnode.symm⟩
    | tail _ hedge ih =>
      obtain ⟨mid, hmid, hsource, htarget⟩ := hedge
      obtain ⟨k, hk⟩ := List.getElem?_of_mem hmid
      exact (ih k hk hsource).tail ⟨mid, dep', hk, hj, htarget.trans hnode.symm⟩
  · rintro ⟨j, hj, hpath⟩
    refine ⟨mem_of_getElem? hj, ?_⟩
    induction hpath generalizing dep' with
    | single hij =>
      obtain ⟨a, b, ha, hb, hab⟩ := hij
      obtain rfl := Option.some.inj (hi.symm.trans ha)
      obtain rfl := Option.some.inj (hj.symm.trans hb)
      exact hab ▸ .refl
    | tail _ hjk ih =>
      obtain ⟨a, b, ha, hb, hab⟩ := hjk
      obtain rfl := Option.some.inj (hj.symm.trans hb)
      exact (ih ha).tail ⟨a, mem_of_getElem? ha, rfl, hab⟩

theorem eq_or_reaches_iff {deps : List DependencyJson} {i : Nat} {dep dep' : DependencyJson}
    (hi : deps[i]? = some dep) :
    (dep' = dep ∨ Reaches deps dep dep') ↔
      ∃ j, deps[j]? = some dep' ∧ ReflTransGen (Follows deps) i j := by
  simp only [reaches_iff_transGen hi, reflTransGen_iff_eq_or_transGen]
  constructor
  · rintro (rfl | ⟨j, hj, hpath⟩)
    · exact ⟨i, hi, .inl rfl⟩
    · exact ⟨j, hj, .inr hpath⟩
  · rintro ⟨j, hj, rfl | hpath⟩
    · exact .inl (Option.some.inj (hj.symm.trans hi))
    · exact .inr ⟨j, hj, hpath⟩

/-- The source of a reachable dependency is the target of this one or of a reachable one, so
the source analyses that matter are this one's alone. -/
theorem transitivelyDelayed_iff {registry : ObservableRegistry} {deps : List DependencyJson}
    {dep : DependencyJson} :
    TransitivelyDelayed registry deps dep ↔
      registry.isDelayed dep.sourceObservableId dep.sourceAnalysisType ∨
        ∃ dep', (dep' = dep ∨ Reaches deps dep dep') ∧
          registry.isDelayed dep'.targetObservableId dep'.targetAnalysisType := by
  constructor
  · rintro ⟨dep', hdep', hdelayed⟩
    rcases Bool.or_eq_true _ _ ▸ hdelayed with hsource | htarget
    · rcases hdep' with rfl | ⟨hmem, hpath⟩
      · exact .inl hsource
      · have hnode (last : DependencyJson) (h : last.target = dep'.source) :
            registry.isDelayed last.targetObservableId last.targetAnalysisType := by
          obtain ⟨hid, htype⟩ := AnalysisNode.mk.inj h
          rwa [hid, htype]
        rcases ReflTransGen.cases_tail hpath with heq | ⟨mid, hmid, last, hlast, rfl, htarget⟩
        · exact .inr ⟨dep, .inl rfl, hnode dep heq.symm⟩
        · exact .inr ⟨last, .inr ⟨hlast, hmid⟩, hnode last htarget⟩
    · exact .inr ⟨dep', hdep', htarget⟩
  · rintro (hsource | ⟨dep', hdep', htarget⟩)
    · exact ⟨dep, .inl rfl, by simp [DependencyJson.isDelayed, hsource]⟩
    · exact ⟨dep', hdep', by simp [DependencyJson.isDelayed, htarget]⟩

namespace AnalysisDependencyManager

/-! ## §2 What a walk visits -/

section Walk

variable {manager : AnalysisDependencyManager}

/-- From the dependency at `i` on, every edge of the graph is a `next` link. -/
def LinksComplete (manager : AnalysisDependencyManager) (i : Nat) : Prop :=
  ∀ j t, ReflTransGen (Follows manager.serialize) i j → Follows manager.serialize j t →
    manager.next j = some t

theorem LinksComplete.reaches {i j : Nat} (h : manager.LinksComplete i)
    (hpath : ReflTransGen (Follows manager.serialize) i j) :
    ReflTransGen (fun a b => manager.next a = some b) i j := by
  induction hpath with
  | refl => exact .refl
  | tail hstart hjk ih => exact ih.tail (h _ _ hstart hjk)

theorem reaches_of_mem_walk (hlinks : LinksFollow manager.dependencyTracking) {fuel i j : Nat}
    {visited : List Nat} (hvisited : chain manager.next fuel (some i) = some visited)
    (hj : j ∈ visited) : ReflTransGen (Follows manager.serialize) i j :=
  ReflTransGen.mono hlinks i j (reaches_of_mem_chain hvisited hj)

theorem LinksComplete.mem_walk {i j fuel : Nat} (h : manager.LinksComplete i) {visited : List Nat}
    (hvisited : chain manager.next fuel (some i) = some visited)
    (hpath : ReflTransGen (Follows manager.serialize) i j) : j ∈ visited :=
  chain_reaches_mem hvisited (chain_start_mem hvisited) (h.reaches hpath)

theorem transGen_of_mem_score (hlinks : LinksFollow manager.dependencyTracking) {fuel i j : Nat}
    {visited : List Nat} (hvisited : chain manager.next fuel (manager.next i) = some visited)
    (hj : j ∈ visited) : TransGen (Follows manager.serialize) i j := by
  cases hnext : manager.next i with
  | none => simp [hnext] at hvisited; simp [hvisited] at hj
  | some t =>
    rw [hnext] at hvisited
    exact TransGen.head' (hlinks i t hnext) (reaches_of_mem_walk hlinks hvisited hj)

theorem LinksComplete.mem_score {i j fuel : Nat} (h : manager.LinksComplete i)
    {visited : List Nat} (hvisited : chain manager.next fuel (manager.next i) = some visited)
    (hpath : TransGen (Follows manager.serialize) i j) : j ∈ visited := by
  obtain ⟨t, hit, htj⟩ := TransGen.head'_iff.mp hpath
  have hnext : manager.next i = some t := h i t .refl hit
  have htail : manager.LinksComplete t := fun a b hta => h a b (.head hit hta)
  rw [hnext] at hvisited
  exact htail.mem_walk hvisited htj

private theorem nodup_filterMap_getElem? {deps : List DependencyJson} (hnodup : deps.Nodup)
    {positions : List Nat} (h : positions.Nodup) :
    (positions.filterMap (deps[·]?)).Nodup := by
  refine h.filterMap fun i j dep hi hj => ?_
  obtain ⟨hlt, -⟩ := List.getElem?_eq_some_iff.mp hi
  exact (List.getElem?_inj hlt hnodup).mp (hi.trans hj.symm)

theorem exists_of_any_walk (hlinks : LinksFollow manager.dependencyTracking) {fuel i : Nat}
    {dep : DependencyJson} (hi : manager.serialize[i]? = some dep) {visited : List Nat}
    (hvisited : chain manager.next fuel (some i) = some visited) {q : DependencyJson → Bool}
    (h : visited.any fun j => manager.serialize[j]?.any q) :
    ∃ dep', (dep' = dep ∨ Reaches manager.serialize dep dep') ∧ q dep' := by
  obtain ⟨j, hj, hq⟩ := any_eq_true.mp h
  obtain ⟨dep', hdep', hq⟩ := (Option.any_eq_true _ _).mp hq
  exact ⟨dep', (eq_or_reaches_iff hi).mpr ⟨j, hdep', reaches_of_mem_walk hlinks hvisited hj⟩, hq⟩

theorem LinksComplete.any_walk_iff (hlinks : LinksFollow manager.dependencyTracking)
    {fuel i : Nat} (hcomplete : manager.LinksComplete i) {dep : DependencyJson}
    (hi : manager.serialize[i]? = some dep) {visited : List Nat}
    (hvisited : chain manager.next fuel (some i) = some visited) {q : DependencyJson → Bool} :
    (visited.any fun j => manager.serialize[j]?.any q) ↔
      ∃ dep', (dep' = dep ∨ Reaches manager.serialize dep dep') ∧ q dep' := by
  refine ⟨exists_of_any_walk hlinks hi hvisited, ?_⟩
  rintro ⟨dep', hdep', hq⟩
  obtain ⟨j, hj, hpath⟩ := (eq_or_reaches_iff hi).mp hdep'
  exact any_eq_true.mpr
    ⟨j, hcomplete.mem_walk hvisited hpath, (Option.any_eq_true _ _).mpr ⟨dep', hj, hq⟩⟩

end Walk

/-! ## §3 The three properties against their closures -/

private theorem failed_eq_any {manager : AnalysisDependencyManager} {i : Nat} {visited : List Nat}
    (hvisited : chain manager.next manager.dependencyTracking.length (some i) = some visited) :
    manager.failed i =
      .ok (visited.any fun j => manager.serialize[j]?.any fun dep => dep.status = .failed) := by
  refine (scan_of_chain hvisited fun j _ => rfl).trans ?_
  simp only [serialize, List.getElem?_map, Option.any_map]
  rfl

section Closure

variable {registry : ObservableRegistry} {manager : AnalysisDependencyManager}
  (hsound : Sound registry manager) {i : Nat} {dep : DependencyJson}
  (hi : manager.serialize[i]? = some dep)

include hsound hi

private theorem exists_walk :
    ∃ visited, chain manager.next manager.dependencyTracking.length (some i) = some visited := by
  have hlt := (List.getElem?_eq_some_iff.mp hi).1
  exact Option.isSome_iff_exists.mp <|
    chain_next_isSome hsound.acyclic hsound.links (some i) (by simpa using hlt)

private theorem delayed_eq_any {visited : List Nat}
    (hvisited : chain manager.next manager.dependencyTracking.length (some i) = some visited) :
    manager.delayed registry i =
      .ok (registry.isDelayed dep.sourceObservableId dep.sourceAnalysisType ||
        visited.any fun j => manager.serialize[j]?.any fun dep =>
          registry.isDelayed dep.targetObservableId dep.targetAnalysisType) := by
  have hsource := (hsound.registered _ (mem_of_getElem? hi)).1
  obtain ⟨object, hobject, rfl⟩ : ∃ object, manager.dependencyTracking[i]? = some object ∧
      object.toDependencyJson = dep := by simpa [serialize] using hi
  simp only [delayed, hobject, Option.isNone_iff_eq_none, Option.isSome_iff_ne_none.mp hsource,
    if_false]
  rw [scan_of_chain hvisited fun j _ => targetDelayed_eq hsound.registered j]
  simp only [serialize, List.getElem?_map, Option.any_map]
  cases registry.isDelayed object.sourceObservableId object.sourceAnalysisType <;> rfl

theorem exists_failed_imp :
    ∃ b, manager.failed i = .ok b ∧ (b → TransitivelyFailed manager.serialize dep) := by
  obtain ⟨visited, hvisited⟩ := exists_walk hsound hi
  refine ⟨_, failed_eq_any hvisited, fun h => ?_⟩
  simpa [TransitivelyFailed] using exists_of_any_walk hsound.links hi hvisited h

theorem exists_delayed_imp :
    ∃ b, manager.delayed registry i = .ok b ∧
      (b → TransitivelyDelayed registry manager.serialize dep) := by
  obtain ⟨visited, hvisited⟩ := exists_walk hsound hi
  refine ⟨_, delayed_eq_any hsound hi hvisited, fun h => transitivelyDelayed_iff.mpr ?_⟩
  rcases Bool.or_eq_true _ _ ▸ h with hsource | htarget
  · exact .inl hsource
  · exact .inr (exists_of_any_walk hsound.links hi hvisited htarget)

open scoped Classical in
theorem failed_eq_of_linksComplete (hcomplete : manager.LinksComplete i) :
    manager.failed i = .ok (decide (TransitivelyFailed manager.serialize dep)) := by
  obtain ⟨visited, hvisited⟩ := exists_walk hsound hi
  rw [failed_eq_any hvisited, Except.ok.injEq, Bool.eq_iff_iff,
    hcomplete.any_walk_iff hsound.links hi hvisited]
  simp [TransitivelyFailed]

open scoped Classical in
theorem delayed_eq_of_linksComplete (hcomplete : manager.LinksComplete i) :
    manager.delayed registry i =
      .ok (decide (TransitivelyDelayed registry manager.serialize dep)) := by
  obtain ⟨visited, hvisited⟩ := exists_walk hsound hi
  rw [delayed_eq_any hsound hi hvisited, Except.ok.injEq, Bool.eq_iff_iff, Bool.or_eq_true,
    hcomplete.any_walk_iff hsound.links hi hvisited, decide_eq_true_eq, transitivelyDelayed_iff]

end Closure

section Score

variable {manager : AnalysisDependencyManager} (hacyclic : Acyclic (DependsOn manager.serialize))
  (hlinks : LinksFollow manager.dependencyTracking) (hnodup : manager.serialize.Nodup)
  {i : Nat} {dep : DependencyJson} (hi : manager.serialize[i]? = some dep)

include hacyclic hlinks hnodup hi

theorem exists_score_eq_ncard :
    ∃ counted : Finset DependencyJson, manager.score i = .ok counted.card ∧
      (∀ dep' ∈ counted, Reaches manager.serialize dep dep') ∧
      (manager.LinksComplete i → ∀ dep', Reaches manager.serialize dep dep' → dep' ∈ counted) := by
  obtain ⟨visited, hvisited⟩ := Option.isSome_iff_exists.mp <|
    chain_next_isSome hacyclic hlinks (manager.next i) fun _ h => lt_length_of_next hlinks h
  have hpositions : visited.Nodup :=
    (acyclic_follows hacyclic).nodup_of_isChain (isChain_of_chain hlinks hvisited)
  have htracked : ∀ j ∈ visited, (manager.serialize[j]?).isSome := by
    intro j hj
    obtain ⟨_, dep', _, hdep', _⟩ := transGen_source_of_follows
      (transGen_of_mem_score hlinks hvisited hj)
    exact Option.isSome_iff_exists.mpr ⟨dep', hdep'⟩
  refine ⟨(visited.filterMap (manager.serialize[·]?)).toFinset, ?_, ?_, ?_⟩
  · rw [toFinset_card_of_nodup (nodup_filterMap_getElem? hnodup hpositions),
      filterMap_length_eq_length.mpr htracked]
    simp only [score, hvisited]
  · intro dep' hdep'
    obtain ⟨j, hj, hdep'⟩ := mem_filterMap.mp (mem_toFinset.mp hdep')
    exact (reaches_iff_transGen hi).mpr ⟨j, hdep', transGen_of_mem_score hlinks hvisited hj⟩
  · intro hcomplete dep' hdep'
    obtain ⟨j, hj, hpath⟩ := (reaches_iff_transGen hi).mp hdep'
    exact mem_toFinset.mpr <|
      mem_filterMap.mpr ⟨j, hcomplete.mem_score hvisited hpath, hj⟩

theorem exists_score_le :
    ∃ n, manager.score i = .ok n ∧ n ≤ reachableCount manager.serialize dep := by
  obtain ⟨counted, hscore, hreach, -⟩ := exists_score_eq_ncard hacyclic hlinks hnodup hi
  refine ⟨_, hscore, ?_⟩
  rw [← Set.ncard_coe_finset]
  exact Set.ncard_le_ncard hreach (manager.serialize.finite_toSet.subset fun _ h => h.1)

theorem score_eq_of_linksComplete (hcomplete : manager.LinksComplete i) :
    manager.score i = .ok (reachableCount manager.serialize dep) := by
  obtain ⟨counted, hscore, hreach, hall⟩ := exists_score_eq_ncard hacyclic hlinks hnodup hi
  have hset : {dep' | Reaches manager.serialize dep dep'} = (counted : Set DependencyJson) :=
    Set.ext fun dep' => ⟨hall hcomplete dep', hreach dep'⟩
  rw [hscore, reachableCount, hset, Set.ncard_coe_finset]

end Score

/-! ## §4 Histories -/

variable {registry : ObservableRegistry}

/-- What happens to the dependencies of a root: a request is added, a status changes, or the
root is saved and loaded again. -/
inductive ManagerStep (registry : ObservableRegistry) where
  | add (request : DependencyRequest registry)
  | setStatus (i : Nat) (update : DependencyStatus → DependencyStatus)
  | setStatusFailed (i : Nat) (reason : Option String)
  | reload

/-- A manager with the number of its dependencies that were linked by the last `deserialize`. -/
structure ManagerHistory where
  manager : AnalysisDependencyManager
  loaded : Nat

namespace ManagerHistory

def start : ManagerHistory := ⟨empty, 0⟩

def step (history : ManagerHistory) : ManagerStep registry → ManagerHistory
  | .add request => { history with manager := history.manager.afterAdd request }
  | .setStatus i update => { history with manager := history.manager.setStatus i update }
  | .setStatusFailed i reason =>
    { history with manager := history.manager.setStatusFailed i reason }
  | .reload =>
    ⟨deserialize history.manager.serialize, history.manager.dependencyTracking.length⟩

/-- The dependency at `i`, and each reachable from it, is continued by at most one tracked
dependency, and that one was tracked later or loaded together with it. -/
def ContinuedInOrder (history : ManagerHistory) (i : Nat) : Prop :=
  ∀ j t, ReflTransGen (Follows history.manager.serialize) i j →
    Follows history.manager.serialize j t →
    (∀ t', Follows history.manager.serialize j t' → t' = t) ∧
      (j < t ∨ j < history.loaded ∧ t < history.loaded)

end ManagerHistory

/-- What every history keeps: the links stay inside the graph, no two dependencies have the
same ends, and a dependency that is continued in order has a link. -/
structure Traced (registry : ObservableRegistry) (history : ManagerHistory) : Prop where
  links : LinksFollow history.manager.dependencyTracking
  registered : Registered registry history.manager.serialize
  nodup : (ends history.manager.serialize).Nodup
  loaded_le : history.loaded ≤ history.manager.dependencyTracking.length
  linked : ∀ j t, Follows history.manager.serialize j t → j ≠ t →
    (j < t ∨ j < history.loaded ∧ t < history.loaded) → (history.manager.next j).isSome

theorem traced_start : Traced registry ManagerHistory.start where
  links := linksFollow_fromJson []
  registered := sound_empty.registered
  nodup := .nil
  loaded_le := Nat.le_refl 0
  linked := by rintro j t ⟨a, b, ha, -⟩; cases ha

theorem afterAdd_cases (manager : AnalysisDependencyManager) (request : DependencyRequest registry) :
    manager.afterAdd request = manager ∨
      manager.find request.source request.target = none ∧
        manager.afterAdd request = manager.track request.source request.target := by
  unfold afterAdd addDependency
  cases hfind : manager.find request.source request.target with
  | some i => exact .inl rfl
  | none =>
    cases hcheck : checkCircularDependency registry manager request.source request.target with
    | error e => exact .inl rfl
    | ok _ => exact .inr ⟨rfl, rfl⟩

theorem notMem_ends_of_find {manager : AnalysisDependencyManager} {source target : AnalysisNode}
    (h : manager.find source target = none) : (source, target) ∉ ends manager.serialize := by
  intro hmem
  obtain ⟨json, hjson, heq⟩ := mem_map.mp hmem
  obtain ⟨dep, hdep, rfl⟩ := mem_map.mp hjson
  have hfree := List.findIdx?_eq_none_iff.mp h dep hdep
  simp [Prod.mk.injEq] at heq hfree
  exact hfree heq.1 heq.2

theorem Traced.track {history : ManagerHistory} (h : Traced registry history)
    {request : DependencyRequest registry}
    (hfind : history.manager.find request.source request.target = none) :
    Traced registry
      { history with manager := history.manager.track request.source request.target } := by
  have hends : ends (history.manager.track request.source request.target).serialize =
      ends history.manager.serialize ++ [(request.source, request.target)] := by simp [ends]
  have hlen : (history.manager.track request.source request.target).dependencyTracking.length =
      history.manager.dependencyTracking.length + 1 := by simp [AnalysisDependencyManager.track]
  refine ⟨linksFollow_track h.links _ _, h.registered.track request, ?_, ?_, ?_⟩
  · rw [hends, nodup_append]
    refine ⟨h.nodup, nodup_singleton _, fun a ha b hb => ?_⟩
    rw [mem_singleton.mp hb]
    exact ne_of_mem_of_not_mem ha (notMem_ends_of_find hfind)
  · have := h.loaded_le
    simp only [hlen]
    omega
  · intro j t hfollows hne horder
    have ht : t < history.manager.dependencyTracking.length + 1 := by
      obtain ⟨_, b, _, hb, _⟩ := hfollows
      have := (List.getElem?_eq_some_iff.mp hb).1
      rwa [length_serialize, hlen] at this
    rcases Nat.lt_succ_iff_lt_or_eq.mp ht with ht | rfl
    · -- both are older than the new dependency
      have hj : j < history.manager.dependencyTracking.length := by
        have := h.loaded_le
        simp only at horder
        omega
      refine linkDependencies_next_isSome _ ?_
      rw [List.getElem?_append_left hj]
      refine h.linked j t ?_ hne horder
      rw [serialize_track] at hfollows
      obtain ⟨a, b, ha, hb, hab⟩ := hfollows
      rw [List.getElem?_append_left (by rwa [length_serialize])] at ha hb
      exact ⟨a, b, ha, hb, hab⟩
    · rw [serialize_track] at hfollows
      refine Option.isSome_iff_exists.mpr ⟨_, linkDependencies_next_of_follows ?_ hne⟩
      simpa [serialize] using hfollows

private theorem Traced.modify {history : ManagerHistory} (h : Traced registry history)
    {update : AnalysisDependency → AnalysisDependency} (hupdate : KeepsEnds update) (i : Nat) :
    Traced registry
      { history with manager := ⟨history.manager.dependencyTracking.modify i update⟩ } := by
  have hends := ends_modify history.manager hupdate i
  have hnext := next_modify history.manager hupdate i
  refine ⟨linksFollow_modify h.links hupdate i, ?_, hends ▸ h.nodup, by simpa using h.loaded_le, ?_⟩
  · exact registered_iff_ends.mpr (hends ▸ registered_iff_ends.mp h.registered)
  · intro j t hfollows hne horder
    rw [hnext]
    exact h.linked j t ((follows_congr hends).mp hfollows) hne horder

private theorem Traced.reload {history : ManagerHistory} (h : Traced registry history) :
    Traced registry
      ⟨deserialize history.manager.serialize, history.manager.dependencyTracking.length⟩ := by
  have hserialize := serialize_deserialize history.manager.serialize
  have hlen : (deserialize history.manager.serialize).dependencyTracking.length =
      history.manager.dependencyTracking.length := by
    rw [← length_serialize, hserialize, length_serialize]
  obtain ⟨hjson, hfollow, hnext⟩ := foldl_linkDependencies
    (linksFollow_fromJson history.manager.serialize)
    (List.range history.manager.serialize.length)
  refine ⟨hfollow, ?_, ?_, hlen.ge, fun j t hfollows hne _ => ?_⟩
  · simpa only [hserialize] using h.registered
  · simpa only [hserialize] using h.nodup
  · simp only [hserialize] at hfollows
    have ht : t < history.manager.serialize.length := by
      obtain ⟨_, b, _, hb, _⟩ := hfollows
      exact (List.getElem?_eq_some_iff.mp hb).1
    exact hnext j (.inr ⟨t, mem_range.mpr ht, by simpa [Function.comp_def] using hfollows, hne⟩)

theorem Traced.step {history : ManagerHistory} (h : Traced registry history)
    (input : ManagerStep registry) : Traced registry (history.step input) := by
  cases input with
  | add request =>
    rcases afterAdd_cases history.manager request with heq | ⟨hfind, heq⟩
    · simpa only [ManagerHistory.step, heq]
    · simpa only [ManagerHistory.step, heq] using h.track hfind
  | setStatus i update =>
    refine h.modify ?_ i
    exact ⟨fun _ => ⟨rfl, rfl⟩, fun _ => rfl⟩
  | setStatusFailed i reason =>
    refine h.modify ?_ i
    exact ⟨fun _ => ⟨rfl, rfl⟩, fun _ => rfl⟩
  | reload => exact h.reload

def history (steps : List (ManagerStep registry)) : ManagerHistory :=
  steps.foldl ManagerHistory.step ManagerHistory.start

theorem traced_history (steps : List (ManagerStep registry)) : Traced registry (history steps) :=
  List.foldlRecOn steps ManagerHistory.step traced_start fun _ h input _ => h.step input

theorem Traced.linksComplete {history : ManagerHistory} (h : Traced registry history)
    (hacyclic : Acyclic (DependsOn history.manager.serialize)) {i : Nat}
    (horder : history.ContinuedInOrder i) : history.manager.LinksComplete i := by
  intro j t hpath hfollows
  obtain ⟨honly, hplaced⟩ := horder j t hpath hfollows
  have hne : j ≠ t := by
    rintro rfl
    exact acyclic_follows hacyclic j (.single hfollows)
  obtain ⟨t', hnext⟩ := Option.isSome_iff_exists.mp (h.linked j t hfollows hne hplaced)
  rw [hnext, honly t' (h.links j t' hnext)]

/-! ## §5 Chains compute the closure where they are continued in order -/

theorem Traced.sound {history : ManagerHistory} (h : Traced registry history)
    (hacyclic : Acyclic (DependsOn history.manager.serialize)) :
    Sound registry history.manager :=
  ⟨hacyclic, h.links, h.registered⟩

/-- The three properties return, and none exceeds its transitive definition. -/
def WithinClosure (registry : ObservableRegistry) (manager : AnalysisDependencyManager) (i : Nat)
    (dep : DependencyJson) : Prop :=
  (∃ b, manager.failed i = .ok b ∧ (b → TransitivelyFailed manager.serialize dep)) ∧
    (∃ b, manager.delayed registry i = .ok b ∧
      (b → TransitivelyDelayed registry manager.serialize dep)) ∧
    ∃ n, manager.score i = .ok n ∧ n ≤ reachableCount manager.serialize dep

open scoped Classical in
/-- The three properties are their transitive definitions. -/
def ComputesClosure (registry : ObservableRegistry) (manager : AnalysisDependencyManager) (i : Nat)
    (dep : DependencyJson) : Prop :=
  manager.failed i = .ok (decide (TransitivelyFailed manager.serialize dep)) ∧
    manager.delayed registry i =
      .ok (decide (TransitivelyDelayed registry manager.serialize dep)) ∧
    manager.score i = .ok (reachableCount manager.serialize dep)

def SameSet (manager manager' : AnalysisDependencyManager) : Prop :=
  ∀ dep, dep ∈ manager.serialize ↔ dep ∈ manager'.serialize

/-- The three properties return the same in two managers. -/
def Agree (registry : ObservableRegistry) (manager : AnalysisDependencyManager) (i : Nat)
    (manager' : AnalysisDependencyManager) (i' : Nat) : Prop :=
  manager.failed i = manager'.failed i' ∧
    manager.delayed registry i = manager'.delayed registry i' ∧
    manager.score i = manager'.score i'

theorem ComputesClosure.agree {manager manager' : AnalysisDependencyManager} {i i' : Nat}
    {dep : DependencyJson} (h : ComputesClosure registry manager i dep)
    (h' : ComputesClosure registry manager' i' dep) (hset : SameSet manager manager') :
    Agree registry manager i manager' i' := by
  have hreaches := reaches_congr hset
  have hfailed : TransitivelyFailed manager.serialize = TransitivelyFailed manager'.serialize := by
    funext dep
    simp only [TransitivelyFailed, hreaches]
  have hdelayed : TransitivelyDelayed registry manager.serialize =
      TransitivelyDelayed registry manager'.serialize := by
    funext dep
    simp only [TransitivelyDelayed, hreaches]
  have hcount : reachableCount manager.serialize = reachableCount manager'.serialize := by
    funext dep
    simp only [reachableCount, hreaches]
  rw [ComputesClosure, hfailed, hdelayed, hcount] at h
  exact ⟨h.1.trans h'.1.symm, h.2.1.trans h'.2.1.symm, h.2.2.trans h'.2.2.symm⟩

theorem Traced.withinClosure {history : ManagerHistory} (h : Traced registry history)
    (hacyclic : Acyclic (DependsOn history.manager.serialize)) {i : Nat} {dep : DependencyJson}
    (hi : history.manager.serialize[i]? = some dep) :
    WithinClosure registry history.manager i dep :=
  ⟨exists_failed_imp (h.sound hacyclic) hi, exists_delayed_imp (h.sound hacyclic) hi,
    exists_score_le hacyclic h.links h.nodup.of_map hi⟩

theorem Traced.computesClosure {history : ManagerHistory} (h : Traced registry history)
    (hacyclic : Acyclic (DependsOn history.manager.serialize)) {i : Nat} {dep : DependencyJson}
    (hi : history.manager.serialize[i]? = some dep) (horder : history.ContinuedInOrder i) :
    ComputesClosure registry history.manager i dep :=
  have hcomplete := h.linksComplete hacyclic horder
  ⟨failed_eq_of_linksComplete (h.sound hacyclic) hi hcomplete,
    delayed_eq_of_linksComplete (h.sound hacyclic) hi hcomplete,
    score_eq_of_linksComplete hacyclic h.links h.nodup.of_map hi hcomplete⟩

/-- In every history that leads to an acyclic set, the chain of a dependency stays within the
transitive closure of the set. Where its dependencies are continued in order it is the closure,
and then every other history that leads to the same set and continues them in order agrees. -/
theorem chains_against_closure (steps : List (ManagerStep registry))
    (hacyclic : Acyclic (DependsOn (history steps).manager.serialize)) {i : Nat}
    {dep : DependencyJson} (hi : (history steps).manager.serialize[i]? = some dep) :
    WithinClosure registry (history steps).manager i dep ∧
      ((history steps).ContinuedInOrder i →
        ComputesClosure registry (history steps).manager i dep ∧
          ∀ (steps' : List (ManagerStep registry)) (i' : Nat),
            SameSet (history steps).manager (history steps').manager →
            (history steps').manager.serialize[i']? = some dep →
            (history steps').ContinuedInOrder i' →
            Agree registry (history steps).manager i (history steps').manager i') := by
  have htraced := traced_history steps
  refine ⟨htraced.withinClosure hacyclic hi, fun horder => ?_⟩
  have hcloses := htraced.computesClosure hacyclic hi horder
  refine ⟨hcloses, fun steps' i' hset hi' horder' => ?_⟩
  have hacyclic' : Acyclic (DependsOn (history steps').manager.serialize) :=
    hacyclic.mono fun _ _ ⟨edge, hedge, hends⟩ => ⟨edge, (hset edge).mpr hedge, hends⟩
  exact hcloses.agree ((traced_history steps').computesClosure hacyclic' hi' horder') hset

/-- `(o1, A) → (o2, B)` is continued by the failed `(o2, B) → (o4, D)` and by
`(o2, B) → (o3, C)`, which was tracked last. -/
def fanOut : ManagerHistory :=
  history [.add (request ⟨"o1", "A"⟩ ⟨"o2", "B"⟩), .add (request ⟨"o2", "B"⟩ ⟨"o4", "D"⟩),
    .setStatusFailed 1 none, .add (request ⟨"o2", "B"⟩ ⟨"o3", "C"⟩)]

/-- The failed `(o2, B) → (o4, D)` is tracked before `(o1, A) → (o2, B)`. -/
def reversed : List (ManagerStep ⟨fun _ => some fun _ => none⟩) :=
  [.add (request ⟨"o2", "B"⟩ ⟨"o4", "D"⟩), .setStatusFailed 0 none,
    .add (request ⟨"o1", "A"⟩ ⟨"o2", "B"⟩)]

private def rank (node : AnalysisNode) : Nat :=
  if node.observableId = "o1" then 0 else if node.observableId = "o2" then 1 else 2

/-- A chain loses part of the closure where a dependency is continued by two others, or was tracked
after the one that continues it. Nor does `score` count the dependency itself. -/
theorem chain_loses_closure :
    (∃ dep, fanOut.manager.serialize[0]? = some dep ∧
      Acyclic (DependsOn fanOut.manager.serialize) ∧
      TransitivelyFailed fanOut.manager.serialize dep ∧ fanOut.manager.failed 0 = .ok false) ∧
    (∃ dep, (history reversed).manager.serialize[1]? = some dep ∧
      Acyclic (DependsOn (history reversed).manager.serialize) ∧
      TransitivelyFailed (history reversed).manager.serialize dep ∧
      (history reversed).manager.failed 1 = .ok false ∧
      (history (reversed ++ [.reload])).manager.failed 1 = .ok true) ∧
    ((history (reversed.take 1)).manager.serialize.length = 1 ∧
      (history (reversed.take 1)).manager.score 0 = .ok 0) := by
  refine ⟨⟨.new ⟨"o1", "A"⟩ ⟨"o2", "B"⟩, by decide, ?_, ?_, by decide⟩,
    ⟨.new ⟨"o1", "A"⟩ ⟨"o2", "B"⟩, by decide, ?_, ?_, by decide, by decide⟩, by decide, by decide⟩
  · refine acyclic_of_rank rank ?_
    rintro _ _ ⟨dep, hdep, rfl, rfl⟩
    revert dep
    decide
  · exact ⟨_, .inr ⟨mem_of_getElem? (i := 1) rfl, .refl⟩, rfl⟩
  · refine acyclic_of_rank rank ?_
    rintro _ _ ⟨dep, hdep, rfl, rfl⟩
    revert dep
    decide
  · exact ⟨_, .inr ⟨mem_of_getElem? (i := 0) rfl, .refl⟩, rfl⟩

/-- After the reload, the chain of the second example is the closure. -/
theorem reloaded_chain_against_closure :
    WithinClosure ⟨fun _ => some fun _ => none⟩ (history (reversed ++ [.reload])).manager 1
        (.new ⟨"o1", "A"⟩ ⟨"o2", "B"⟩) ∧
      ComputesClosure ⟨fun _ => some fun _ => none⟩ (history (reversed ++ [.reload])).manager 1
        (.new ⟨"o1", "A"⟩ ⟨"o2", "B"⟩) := by
  have hacyclic : Acyclic (DependsOn (history (reversed ++ [.reload])).manager.serialize) := by
    refine acyclic_of_rank rank ?_
    rintro _ _ ⟨dep, hdep, rfl, rfl⟩
    revert dep
    decide
  have horder : (history (reversed ++ [.reload])).ContinuedInOrder 1 := by
    have hfollows : ∀ j < 2, ∀ t < 2, ∀ a ∈ (history (reversed ++ [.reload])).manager.serialize[j]?,
        ∀ b ∈ (history (reversed ++ [.reload])).manager.serialize[t]?, a.target = b.source →
          j = 1 ∧ t = 0 := by decide
    have hpair {j t : Nat} (h : Follows (history (reversed ++ [.reload])).manager.serialize j t) :
        j = 1 ∧ t = 0 := by
      obtain ⟨a, b, ha, hb, hab⟩ := h
      exact hfollows j (List.getElem?_eq_some_iff.mp ha).1 t (List.getElem?_eq_some_iff.mp hb).1
        a ha b hb hab
    intro j t _ h
    obtain ⟨rfl, rfl⟩ := hpair h
    exact ⟨fun t' h' => (hpair h').2, .inr ⟨by decide, by decide⟩⟩
  have h := chains_against_closure (reversed ++ [.reload]) hacyclic (i := 1) rfl
  exact ⟨h.1, (h.2 horder).1⟩

end AnalysisDependencyManager

end Ace3.Analysis
