import Ace3.Analysis.DependencyManager

/-!
# The Graph of the Tracked Dependencies

The tracked dependencies form a graph on pairs of an observable and an analysis type. The
`next` links of the dependency objects are a partial successor function inside that graph.
-/

namespace Ace3.Analysis

open List
open Relation
open Lib.Digraph

/-! ## §1 The dependency graph -/

/-- The graph of a set of dependencies: an edge from the node that waits to the awaited one. -/
def DependsOn (deps : List DependencyJson) (a b : AnalysisNode) : Prop :=
  ∃ dep ∈ deps, dep.source = a ∧ dep.target = b

theorem dependsOn_append_new (deps : List DependencyJson) (source target : AnalysisNode) :
    DependsOn (deps ++ [.new source target]) = InsertEdge (DependsOn deps) source target := by
  funext a b
  simp only [DependsOn, InsertEdge, mem_append, mem_singleton, or_and_right, exists_or,
    exists_eq_left, DependencyJson.source_new, DependencyJson.target_new]
  exact propext (or_congr_right ⟨fun h => ⟨h.1.symm, h.2.symm⟩, fun h => ⟨h.1.symm, h.2.symm⟩⟩)

/-! ## §2 What linking changes -/

section Link

variable {tracking : List AnalysisDependency} {t : Nat}

@[simp] theorem linkDependencies_map_toDependencyJson :
    (AnalysisDependencyManager.linkDependencies tracking t).map (·.toDependencyJson) =
      tracking.map (·.toDependencyJson) := by
  unfold AnalysisDependencyManager.linkDependencies
  split
  · rfl
  · refine ext_getElem? fun i => ?_
    simp only [List.getElem?_map, List.getElem?_mapIdx, Option.map_map]
    congr 1
    funext dep
    simp only [Function.comp_apply]
    split_ifs <;> rfl

@[simp] theorem linkDependencies_length :
    (AnalysisDependencyManager.linkDependencies tracking t).length = tracking.length := by
  have h := congrArg List.length (@linkDependencies_map_toDependencyJson tracking t)
  simpa only [length_map] using h

theorem linkDependencies_next {targetDep : AnalysisDependency} (ht : tracking[t]? = some targetDep)
    (i : Nat) :
    (AnalysisDependencyManager.linkDependencies tracking t)[i]?.bind (·.next) =
      if i ≠ t ∧ tracking[i]?.any (·.target = targetDep.source) then some t
      else tracking[i]?.bind (·.next) := by
  simp only [AnalysisDependencyManager.linkDependencies, ht, List.getElem?_mapIdx]
  cases hi : tracking[i]? with
  | none => simp
  | some dep =>
    obtain ⟨hlt, rfl⟩ := List.getElem?_eq_some_iff.mp hi
    by_cases hit : i = t
    · simp [hit]
    · by_cases hmatch : tracking[i].target = targetDep.source <;> simp [hit, hlt, hmatch]

end Link

/-! ## §3 The links stay inside the graph -/

/-- The dependency at `j` starts where the dependency at `i` ends. -/
def Follows (deps : List DependencyJson) (i j : Nat) : Prop :=
  ∃ a b, deps[i]? = some a ∧ deps[j]? = some b ∧ a.target = b.source

/-- Every `next` link follows an edge of the graph. -/
def LinksFollow (tracking : List AnalysisDependency) : Prop :=
  ∀ i j, tracking[i]?.bind (·.next) = some j → Follows (tracking.map (·.toDependencyJson)) i j

variable {deps : List DependencyJson}

theorem transGen_source_of_follows {i j : Nat} (h : TransGen (Follows deps) i j) :
    ∃ a b, deps[i]? = some a ∧ deps[j]? = some b ∧ TransGen (DependsOn deps) a.source b.source := by
  induction h with
  | single hij =>
    obtain ⟨a, b, ha, hb, hab⟩ := hij
    exact ⟨a, b, ha, hb, .single ⟨a, mem_of_getElem? ha, rfl, hab⟩⟩
  | tail _ hjk ih =>
    obtain ⟨a, b, ha, hb, hpath⟩ := ih
    obtain ⟨b', c, hb', hc, hbc⟩ := hjk
    obtain rfl : b = b' := Option.some.inj (hb.symm.trans hb')
    exact ⟨a, c, ha, hc, hpath.tail ⟨b, mem_of_getElem? hb, rfl, hbc⟩⟩

theorem acyclic_follows (h : Acyclic (DependsOn deps)) :
    Acyclic (Follows deps) := by
  intro i hcycle
  obtain ⟨a, b, ha, hb, hpath⟩ := transGen_source_of_follows hcycle
  obtain rfl : a = b := Option.some.inj (ha.symm.trans hb)
  exact h a.source hpath

theorem Follows.append {i j : Nat} (h : Follows deps i j) (more : List DependencyJson) :
    Follows (deps ++ more) i j := by
  obtain ⟨a, b, ha, hb, hab⟩ := h
  have hi := (List.getElem?_eq_some_iff.mp ha).1
  have hj := (List.getElem?_eq_some_iff.mp hb).1
  exact ⟨a, b, by rwa [List.getElem?_append_left hi], by rwa [List.getElem?_append_left hj], hab⟩

theorem linksFollow_fromJson (data : List DependencyJson) :
    LinksFollow (data.map AnalysisDependency.fromJson) := by
  intro i j h
  cases hi : data[i]? <;> simp [hi] at h

variable {tracking : List AnalysisDependency}

theorem LinksFollow.append (h : LinksFollow tracking) (json : DependencyJson) :
    LinksFollow (tracking ++ [AnalysisDependency.fromJson json]) := by
  intro i j hij
  rw [map_append]
  rcases Nat.lt_or_ge i tracking.length with hi | hi
  · rw [List.getElem?_append_left hi] at hij
    exact (h i j hij).append _
  · rw [List.getElem?_append_right hi] at hij
    cases hk : i - tracking.length <;> simp [hk] at hij

theorem LinksFollow.link (h : LinksFollow tracking) (t : Nat) :
    LinksFollow (AnalysisDependencyManager.linkDependencies tracking t) := by
  cases ht : tracking[t]? with
  | none => simpa only [AnalysisDependencyManager.linkDependencies, ht] using h
  | some targetDep =>
    intro i j hij
    rw [linkDependencies_next ht] at hij
    rw [linkDependencies_map_toDependencyJson]
    split at hij
    next hmatch =>
      obtain ⟨dep, hdep, htarget⟩ := (Option.any_eq_true _ _).mp hmatch.2
      cases hij
      exact ⟨dep.toDependencyJson, targetDep.toDependencyJson, by simp [hdep], by simp [ht],
        by simpa using htarget⟩
    next => exact h i j hij

theorem linkDependencies_next_of_follows {i t : Nat}
    (h : Follows (tracking.map (·.toDependencyJson)) i t) (hit : i ≠ t) :
    (AnalysisDependencyManager.linkDependencies tracking t)[i]?.bind (·.next) = some t := by
  obtain ⟨_, _, ha, hb, hab⟩ := h
  simp only [List.getElem?_map, Option.map_eq_some_iff] at ha hb
  obtain ⟨dep, hdep, rfl⟩ := ha
  obtain ⟨targetDep, ht, rfl⟩ := hb
  rw [linkDependencies_next ht, if_pos ⟨hit, by simpa [hdep] using hab⟩]

theorem linkDependencies_next_isSome {i : Nat} (t : Nat) (h : (tracking[i]?.bind (·.next)).isSome) :
    ((AnalysisDependencyManager.linkDependencies tracking t)[i]?.bind (·.next)).isSome := by
  cases ht : tracking[t]? with
  | none => simpa only [AnalysisDependencyManager.linkDependencies, ht] using h
  | some targetDep =>
    rw [linkDependencies_next ht]
    split
    · rfl
    · exact h

theorem foldl_linkDependencies (hlinks : LinksFollow tracking) (ts : List Nat) :
    (ts.foldl AnalysisDependencyManager.linkDependencies tracking).map (·.toDependencyJson) =
        tracking.map (·.toDependencyJson) ∧
      LinksFollow (ts.foldl AnalysisDependencyManager.linkDependencies tracking) ∧
      ∀ i, ((tracking[i]?.bind (·.next)).isSome ∨
          ∃ t ∈ ts, Follows (tracking.map (·.toDependencyJson)) i t ∧ i ≠ t) →
        ((ts.foldl AnalysisDependencyManager.linkDependencies tracking)[i]?.bind
          (·.next)).isSome := by
  induction ts generalizing tracking with
  | nil => simpa using hlinks
  | cons t ts ih =>
    obtain ⟨hjson, hfollow, hnext⟩ := ih (hlinks.link t)
    rw [linkDependencies_map_toDependencyJson] at hjson hnext
    refine ⟨hjson, hfollow, fun i hi => hnext i ?_⟩
    rcases hi with hi | ⟨u, hu, hfollows, hne⟩
    · exact .inl (linkDependencies_next_isSome t hi)
    · rcases mem_cons.mp hu with rfl | hu
      · exact .inl (by rw [linkDependencies_next_of_follows hfollows hne]; rfl)
      · exact .inr ⟨u, hu, hfollows, hne⟩

namespace AnalysisDependencyManager

theorem linksFollow_track {manager : AnalysisDependencyManager}
    (h : LinksFollow manager.dependencyTracking) (source target : AnalysisNode) :
    LinksFollow (manager.track source target).dependencyTracking :=
  (h.append _).link _

@[simp] theorem serialize_track (manager : AnalysisDependencyManager) (source target : AnalysisNode) :
    (manager.track source target).serialize = manager.serialize ++ [.new source target] := by
  simp [serialize, track]

@[simp] theorem serialize_deserialize (data : List DependencyJson) :
    (deserialize data).serialize = data := by
  have h := (foldl_linkDependencies (linksFollow_fromJson data) (List.range data.length)).1
  simpa [serialize, deserialize, Function.comp_def] using h

/-! ## §4 Walks over the links end -/

section Walk

variable {manager : AnalysisDependencyManager}

@[simp] theorem length_serialize : manager.serialize.length = manager.dependencyTracking.length := by
  simp [serialize]

/-- Every tracked dependency has its two observables in the registry. -/
def Registered (registry : ObservableRegistry) (deps : List DependencyJson) : Prop :=
  ∀ dep ∈ deps, (registry.getById dep.sourceObservableId).isSome ∧
    (registry.getById dep.targetObservableId).isSome

theorem lt_length_of_next (hlinks : LinksFollow manager.dependencyTracking) {i j : Nat}
    (h : manager.next i = some j) : j < manager.dependencyTracking.length := by
  obtain ⟨_, b, _, hb, _⟩ := hlinks i j h
  simpa using (List.getElem?_eq_some_iff.mp hb).1

theorem chain_next_isSome (hacyclic : Acyclic (DependsOn manager.serialize))
    (hlinks : LinksFollow manager.dependencyTracking) (start : Option Nat)
    (hstart : ∀ i ∈ start, i < manager.dependencyTracking.length) :
    (chain manager.next manager.dependencyTracking.length start).isSome :=
  (acyclic_follows hacyclic).chain_isSome hlinks (List.range manager.dependencyTracking.length)
    (fun _ _ h => mem_range.mpr (lt_length_of_next hlinks h))
    (fun i hi => mem_range.mpr (hstart i hi)) (by simp)

theorem exists_score (hacyclic : Acyclic (DependsOn manager.serialize))
    (hlinks : LinksFollow manager.dependencyTracking) (i : Nat) :
    ∃ n, manager.score i = .ok n := by
  obtain ⟨visited, hvisited⟩ := Option.isSome_iff_exists.mp <|
    chain_next_isSome hacyclic hlinks (manager.next i)
      fun _ h => lt_length_of_next hlinks h
  exact ⟨visited.length, by simp only [score, hvisited]⟩

theorem exists_failed (hacyclic : Acyclic (DependsOn manager.serialize))
    (hlinks : LinksFollow manager.dependencyTracking) {i : Nat}
    (hi : i < manager.dependencyTracking.length) : ∃ b, manager.failed i = .ok b := by
  obtain ⟨visited, hvisited⟩ := Option.isSome_iff_exists.mp <|
    chain_next_isSome hacyclic hlinks (some i) (by simpa using hi)
  exact ⟨_, scan_of_chain hvisited fun _ _ => rfl⟩

theorem targetDelayed_eq {registry : ObservableRegistry}
    (hregistered : Registered registry manager.serialize) (i : Nat) :
    targetDelayed registry manager i = .ok (manager.dependencyTracking[i]?.any fun dep =>
      registry.isDelayed dep.targetObservableId dep.targetAnalysisType) := by
  unfold targetDelayed
  cases hi : manager.dependencyTracking[i]? with
  | none => rfl
  | some dep =>
    have hmem := mem_map_of_mem (f := (·.toDependencyJson)) (mem_of_getElem? hi)
    have htarget := (hregistered _ hmem).2
    simp [Option.isSome_iff_ne_none.mp htarget]

theorem exists_delayed {registry : ObservableRegistry}
    (hregistered : Registered registry manager.serialize)
    (hacyclic : Acyclic (DependsOn manager.serialize))
    (hlinks : LinksFollow manager.dependencyTracking) {i : Nat}
    (hi : i < manager.dependencyTracking.length) : ∃ b, manager.delayed registry i = .ok b := by
  obtain ⟨visited, hvisited⟩ := Option.isSome_iff_exists.mp <|
    chain_next_isSome hacyclic hlinks (some i) (by simpa using hi)
  have hmem := mem_map_of_mem (f := (·.toDependencyJson)) (getElem_mem hi)
  have hsource := (hregistered _ hmem).1
  simp only [delayed, List.getElem?_eq_getElem hi, Option.isNone_iff_eq_none,
    Option.isSome_iff_ne_none.mp hsource, if_false]
  split
  · exact ⟨true, rfl⟩
  · exact ⟨_, scan_of_chain hvisited fun j _ => targetDelayed_eq hregistered j⟩

end Walk

/-! ## §5 Changes that keep the graph -/

/-- The two ends of each tracked dependency: all that linking looks at. -/
def ends (deps : List DependencyJson) : List (AnalysisNode × AnalysisNode) :=
  deps.map fun dep => (dep.source, dep.target)

theorem follows_iff_ends {deps : List DependencyJson} {i j : Nat} :
    Follows deps i j ↔ ∃ a b, (ends deps)[i]? = some a ∧ (ends deps)[j]? = some b ∧ a.2 = b.1 := by
  simp only [Follows, ends, List.getElem?_map, Option.map_eq_some_iff]
  constructor
  · rintro ⟨a, b, ha, hb, hab⟩
    exact ⟨_, _, ⟨a, ha, rfl⟩, ⟨b, hb, rfl⟩, hab⟩
  · rintro ⟨_, _, ⟨a, ha, rfl⟩, ⟨b, hb, rfl⟩, hab⟩
    exact ⟨a, b, ha, hb, hab⟩

theorem follows_congr {deps deps' : List DependencyJson} (h : ends deps = ends deps') {i j : Nat} :
    Follows deps i j ↔ Follows deps' i j := by
  rw [follows_iff_ends, follows_iff_ends, h]

theorem registered_iff_ends {registry : ObservableRegistry} {deps : List DependencyJson} :
    Registered registry deps ↔ ∀ pair ∈ ends deps,
      (registry.getById pair.1.observableId).isSome ∧
        (registry.getById pair.2.observableId).isSome := by
  simp [Registered, ends, DependencyJson.source, DependencyJson.target]

/-- A change to one dependency object that leaves its ends and its link as they are. -/
structure KeepsEnds (update : AnalysisDependency → AnalysisDependency) : Prop where
  ends (dep : AnalysisDependency) : (update dep).source = dep.source ∧
    (update dep).target = dep.target
  next (dep : AnalysisDependency) : (update dep).next = dep.next

section Modify

variable {update : AnalysisDependency → AnalysisDependency}

private theorem getElem?_modify (manager : AnalysisDependencyManager) (hupdate : KeepsEnds update)
    (i k : Nat) :
    ∃ f : AnalysisDependency → AnalysisDependency, KeepsEnds f ∧
      (manager.dependencyTracking.modify i update)[k]? =
        manager.dependencyTracking[k]?.map f := by
  rw [List.getElem?_modify]
  by_cases hik : i = k
  · exact ⟨update, hupdate, by simp [hik]⟩
  · exact ⟨id, ⟨fun _ => ⟨rfl, rfl⟩, fun _ => rfl⟩, by simp [hik]⟩

theorem ends_modify (manager : AnalysisDependencyManager) (hupdate : KeepsEnds update) (i : Nat) :
    ends (serialize ⟨manager.dependencyTracking.modify i update⟩) = ends manager.serialize := by
  refine ext_getElem? fun k => ?_
  obtain ⟨f, hf, hk⟩ := getElem?_modify manager hupdate i k
  simp only [ends, serialize, List.getElem?_map, hk, Option.map_map]
  congr 1
  funext dep
  simp [hf.ends dep]

theorem next_modify (manager : AnalysisDependencyManager) (hupdate : KeepsEnds update) (i k : Nat) :
    next ⟨manager.dependencyTracking.modify i update⟩ k = manager.next k := by
  obtain ⟨f, hf, hk⟩ := getElem?_modify manager hupdate i k
  cases hdep : manager.dependencyTracking[k]? <;> simp [next, hk, hdep, hf.next]

theorem linksFollow_modify {manager : AnalysisDependencyManager}
    (h : LinksFollow manager.dependencyTracking) (hupdate : KeepsEnds update) (i : Nat) :
    LinksFollow (manager.dependencyTracking.modify i update) := by
  intro j k hjk
  apply (follows_congr (ends_modify manager hupdate i)).mpr
  exact h j k ((next_modify manager hupdate i j).symm.trans hjk)

end Modify

end AnalysisDependencyManager

end Ace3.Analysis
