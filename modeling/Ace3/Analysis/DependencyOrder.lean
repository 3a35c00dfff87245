import Ace3.Analysis.DependencyClosure
import Ace3.Lib.FallibleMap
import Ace3.Lib.StableSort

/-!
# The Order of the Active Dependencies

The executor takes the first of the active dependencies, "returned in the correct order". They are
sorted by score, the number of links that can be followed. A dependency has one link, however many
continue it, and a link is set when the later of its two ends is tracked only where that end is the
continuation.
-/

namespace Ace3.Analysis

open Lib.Digraph
open Lib.StableSort

namespace AnalysisDependencyManager

variable {registry : ObservableRegistry} {manager : AnalysisDependencyManager} {i j : Nat}

/-! ## §1 The list -/

section

open List
open Lib.FallibleMap

/-- The dependency at a position is tracked, and neither failed, delayed nor resolved. -/
structure IsActive (registry : ObservableRegistry) (manager : AnalysisDependencyManager)
    (i : Nat) : Prop where
  tracked : i < manager.dependencyTracking.length
  failed : manager.failed i = .ok false
  delayed : manager.delayed registry i = .ok false
  resolved : manager.resolved i = false

/-- The number of links that can be followed from a dependency, where that ends. -/
def linkCount (manager : AnalysisDependencyManager) (i : Nat) : Nat :=
  (manager.score i).toOption.getD 0

open scoped Classical in
theorem Sound.activeDependencies_eq (h : Sound registry manager) :
    manager.activeDependencies registry =
      .ok (sortBy manager.linkCount ((List.range manager.dependencyTracking.length).filter
        (decide <| IsActive registry manager ·))) := by
  have hfilter : ∀ i ∈ List.range manager.dependencyTracking.length,
      (do
        if ← manager.failed i then return false
        if ← manager.delayed registry i then return false
        return !manager.resolved i : Except DependencyError Bool) =
        .ok (decide (IsActive registry manager i)) := by
    intro i hi
    have hi := mem_range.mp hi
    obtain ⟨-, ⟨failed, hfailed⟩, delayed, hdelayed⟩ := h.recursionsEnd i hi
    simp only [hfailed, hdelayed, bind, Except.bind, pure, Except.pure]
    have hactive : IsActive registry manager i ↔
        failed = false ∧ delayed = false ∧ manager.resolved i = false := by
      constructor
      · intro hactive
        exact ⟨Except.ok.inj (hfailed.symm.trans hactive.failed),
          Except.ok.inj (hdelayed.symm.trans hactive.delayed), hactive.resolved⟩
      · rintro ⟨rfl, rfl, hresolved⟩
        exact ⟨hi, hfailed, hdelayed, hresolved⟩
    cases failed <;> cases delayed <;> cases hresolved : manager.resolved i <;>
      simp [hactive, hresolved]
  have hbuffer := filterM_eq_ok hfilter
  have hscores : ∀ i ∈ (List.range manager.dependencyTracking.length).filter
      (decide <| IsActive registry manager ·),
      (do return (← manager.score i, i) : Except DependencyError (Nat × Nat)) =
        .ok (manager.linkCount i, i) := by
    intro i hi
    obtain ⟨n, hn⟩ := (h.recursionsEnd i (mem_range.mp (mem_filter.mp hi).1)).1
    simp [linkCount, hn, bind, Except.bind, pure, Except.pure, Except.toOption]
  have hquery : manager.activeDependencies registry =
      .ok ((sortBy Prod.fst (((List.range manager.dependencyTracking.length).filter
        (decide <| IsActive registry manager ·)).map fun i => (manager.linkCount i, i))).map
          (·.2)) := by
    unfold activeDependencies
    rw [hbuffer]
    exact congrArg (· >>= fun scored => .ok ((scored.mergeSort fun a b => a.1 ≤ b.1).map (·.2)))
      (mapM_eq_ok hscores)
  -- the scores that the sort carries along are dropped again
  rw [hquery, sortBy_map, map_map]
  exact congrArg Except.ok (map_id _)

theorem Sound.exists_activeDependencies (h : Sound registry manager) :
    ∃ active, manager.activeDependencies registry = .ok active ∧
      ∀ i, i ∈ active ↔ IsActive registry manager i := by
  classical
  refine ⟨_, h.activeDependencies_eq, fun i => ?_⟩
  simp only [mem_sortBy, mem_filter, mem_range, decide_eq_true_eq]
  exact ⟨And.right, fun hactive => ⟨hactive.tracked, hactive⟩⟩

end

/-! ## §2 Which comes first -/

open Relation

theorem Sound.walks_iff (h : Sound registry manager) (i n : Nat) :
    Walks manager.next n i ↔ n ≤ manager.linkCount i := by
  obtain ⟨visited, hvisited⟩ := Option.isSome_iff_exists.mp <|
    chain_next_isSome h.acyclic h.links (manager.next i) fun _ hj => lt_length_of_next h.links hj
  have hcount : manager.linkCount i = visited.length := by
    simp only [linkCount, score, hvisited]
    rfl
  rw [hcount]
  exact walks_iff_of_chain hvisited n

/-- The links lead further from `i` than from `j`, or as far where `j` was tracked first. -/
def LeadsFurther (manager : AnalysisDependencyManager) (i j : Nat) : Prop :=
  (∀ n, Walks manager.next n j → Walks manager.next (n + 1) i) ∨
    j < i ∧ ∀ n, Walks manager.next n j → Walks manager.next n i

theorem Sound.leadsFurther_iff (h : Sound registry manager) :
    manager.LeadsFurther i j ↔ manager.linkCount j < manager.linkCount i ∨
      manager.linkCount j = manager.linkCount i ∧ j < i := by
  have hfurther (k : Nat) : (∀ n, Walks manager.next n j → Walks manager.next (n + k) i) ↔
      manager.linkCount j + k ≤ manager.linkCount i := by
    simp only [h.walks_iff]
    constructor
    · intro hall
      exact hall _ le_rfl
    · intro hle n hn
      omega
  rw [LeadsFurther, hfurther 1]
  have hequal := hfurther 0
  simp only [Nat.add_zero] at hequal
  rw [hequal]
  omega

theorem leadsFurther_of_next (h : manager.next i = some j) : manager.LeadsFurther i j :=
  .inl fun _ hwalk => ⟨j, h, hwalk⟩

theorem pair_sublist_filter_range {p : Nat → Bool} {n : Nat}
    (hi : i ∈ (List.range n).filter p) (hj : j ∈ (List.range n).filter p) (hne : j ≠ i) :
    [j, i].Sublist ((List.range n).filter p) ↔ j < i := by
  have hascends {a b : Nat} (h : [a, b].Sublist ((List.range n).filter p)) : a < b := by
    have hpair := (List.pairwise_lt_range.sublist List.filter_sublist).sublist h
    simpa using hpair
  constructor
  · exact hascends
  · intro hlt
    refine (pair_sublist_total hj hi hne).resolve_right fun hswap => ?_
    exact absurd (hascends hswap) (Nat.lt_asymm hlt)

theorem Sound.pair_sublist_iff (h : Sound registry manager) {active : List Nat}
    (hactive : manager.activeDependencies registry = .ok active)
    (hi : IsActive registry manager i) (hj : IsActive registry manager j) (hne : j ≠ i) :
    [j, i].Sublist active ↔ manager.LeadsFurther i j := by
  classical
  rw [h.activeDependencies_eq, Except.ok.injEq] at hactive
  subst hactive
  have hmem {k : Nat} (hk : IsActive registry manager k) :
      k ∈ (List.range manager.dependencyTracking.length).filter
        (decide <| IsActive registry manager ·) := by
    simpa using ⟨hk.tracked, hk⟩
  rw [pair_sublist_sortBy_iff (List.nodup_range.filter _) (hmem hj) (hmem hi) hne,
    pair_sublist_filter_range (hmem hi) (hmem hj) hne, h.leadsFurther_iff]

/-! ## §3 Topological orders -/

/-- What the target analysis of a listed dependency waits for stands in front of it. -/
def TopologicalOrder (manager : AnalysisDependencyManager) (order : List Nat) : Prop :=
  ∀ i ∈ order, ∀ j ∈ order, Follows manager.serialize i j → [j, i].Sublist order

/-- The query returns a topological order exactly when, of two active dependencies that follow
each other, the links lead further from the first. -/
theorem Sound.topologicalOrder_iff (h : Sound registry manager) :
    (∃ active, manager.activeDependencies registry = .ok active ∧
        manager.TopologicalOrder active) ↔
      ∀ i j, IsActive registry manager i → IsActive registry manager j →
        Follows manager.serialize i j → manager.LeadsFurther i j := by
  obtain ⟨active, hactive, hmem⟩ := h.exists_activeDependencies
  have hpair {i j : Nat} (hi : IsActive registry manager i) (hj : IsActive registry manager j)
      (hfollows : Follows manager.serialize i j) :
      [j, i].Sublist active ↔ manager.LeadsFurther i j := by
    apply h.pair_sublist_iff hactive hi hj
    rintro rfl
    exact acyclic_follows h.acyclic _ (.single hfollows)
  constructor
  · rintro ⟨active', hactive', htopological⟩ i j hi hj hfollows
    obtain rfl : active = active' := Except.ok.inj (hactive.symm.trans hactive')
    apply (hpair hi hj hfollows).mp
    exact htopological i ((hmem i).mpr hi) j ((hmem j).mpr hj) hfollows
  · intro hfurther
    refine ⟨active, hactive, fun i hi j hj hfollows => ?_⟩
    have hi := (hmem i).mp hi
    have hj := (hmem j).mp hj
    exact (hpair hi hj hfollows).mpr (hfurther i j hi hj hfollows)

/-- An active dependency is linked to the active one that continues it, or the links lead further
from it than from that one. -/
def LinkedInOrder (registry : ObservableRegistry) (manager : AnalysisDependencyManager) : Prop :=
  ∀ i j, IsActive registry manager i → IsActive registry manager j →
    Follows manager.serialize i j → manager.next i = some j ∨ manager.LeadsFurther i j

/-- `(o1, A) → (o2, B)` is continued by `(o2, B) → (o3, C)`, which goes on to `(o4, D)`, and by
`(o2, B) → (o5, E)`, which was tracked last and has the link. -/
def unevenBranches : List (ManagerStep ⟨fun _ => some fun _ => none⟩) :=
  [.add (request ⟨"o1", "A"⟩ ⟨"o2", "B"⟩), .add (request ⟨"o2", "B"⟩ ⟨"o3", "C"⟩),
    .add (request ⟨"o3", "C"⟩ ⟨"o4", "D"⟩), .add (request ⟨"o2", "B"⟩ ⟨"o5", "E"⟩)]

/-- `(o1, A) → (o2, B)` is tracked after `(o2, B) → (o3, C)` and `(o3, C) → (o4, D)`. -/
def trackedBackwards : List (ManagerStep ⟨fun _ => some fun _ => none⟩) :=
  [.add (request ⟨"o2", "B"⟩ ⟨"o3", "C"⟩), .add (request ⟨"o3", "C"⟩ ⟨"o4", "D"⟩),
    .add (request ⟨"o1", "A"⟩ ⟨"o2", "B"⟩)]

private def depth (node : AnalysisNode) : Nat :=
  if node.observableId = "o1" then 0 else if node.observableId = "o2" then 1
  else if node.observableId = "o3" then 2 else 3

end AnalysisDependencyManager

end Ace3.Analysis
