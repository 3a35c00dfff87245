import Ace3.Analysis.DependencyGraph
import Ace3.Lib.Runs

/-!
# The Cycle Check of the Dependency Manager

`add_dependency` means to refuse a dependency that would close a cycle. The check walks back
from the source node over all chains that lead to it, but knows the target node by its analysis
type alone, and looks at tracked dependencies only.
-/

namespace Ace3.Analysis

open List
open Relation
open Lib.Digraph
open Lib.Runs

/-! ## §1 Walking back from a node -/

/-- The dependencies met when walking back from `node` over the chains that lead to it. -/
def WalkedBack (deps : List DependencyJson) (node : AnalysisNode) (dep : DependencyJson) : Prop :=
  dep ∈ deps ∧ ReflTransGen (DependsOn deps) dep.target node

variable {deps : List DependencyJson}

theorem exists_walkedBack_iff {node : AnalysisNode} (p : DependencyJson → Prop) :
    (∃ dep, WalkedBack deps node dep ∧ p dep) ↔
      ∃ dep ∈ deps, dep.target = node ∧
        (p dep ∨ ∃ dep', WalkedBack deps dep.source dep' ∧ p dep') := by
  constructor
  · rintro ⟨dep, ⟨hdep, hreach⟩, hp⟩
    rcases ReflTransGen.cases_tail hreach with heq | ⟨mid, hmid, last, hlast, rfl, rfl⟩
    · exact ⟨dep, hdep, heq.symm, .inl hp⟩
    · exact ⟨last, hlast, rfl, .inr ⟨dep, ⟨hdep, hmid⟩, hp⟩⟩
  · rintro ⟨dep, hdep, rfl, hp | ⟨dep', ⟨hdep', hreach⟩, hp⟩⟩
    · exact ⟨dep, ⟨hdep, .refl⟩, hp⟩
    · exact ⟨dep', ⟨hdep', hreach.tail ⟨dep, hdep, rfl, rfl⟩⟩, hp⟩

theorem exists_walkedBack_source_iff {source target : AnalysisNode} :
    (∃ dep, WalkedBack deps source dep ∧ dep.source = target) ↔
      TransGen (DependsOn deps) target source := by
  rw [TransGen.head'_iff]
  constructor
  · rintro ⟨dep, ⟨hdep, hreach⟩, rfl⟩
    exact ⟨dep.target, ⟨dep, hdep, rfl, rfl⟩, hreach⟩
  · rintro ⟨_, ⟨dep, hdep, rfl, rfl⟩, hreach⟩
    exact ⟨dep, ⟨hdep, hreach⟩, rfl⟩

def MeetsType (deps : List DependencyJson) (node : AnalysisNode) (type : ModulePath) : Prop :=
  ∃ dep, WalkedBack deps node dep ∧ type = dep.sourceAnalysisType

theorem meetsType_iff {node : AnalysisNode} {type : ModulePath} :
    MeetsType deps node type ↔ ∃ dep ∈ deps, dep.target = node ∧
      (type = dep.sourceAnalysisType ∨ MeetsType deps dep.source type) :=
  exists_walkedBack_iff _

/-- The edge from `source` to `target` closes a cycle: `target` already leads to `source`. -/
def ClosesCycle (deps : List DependencyJson) (source target : AnalysisNode) : Prop :=
  ReflTransGen (DependsOn deps) target source

theorem closesCycle_iff {source target : AnalysisNode} :
    ClosesCycle deps source target ↔
      source = target ∨ ∃ dep, WalkedBack deps source dep ∧ dep.source = target := by
  rw [ClosesCycle, reflTransGen_iff_eq_or_transGen, exists_walkedBack_source_iff]

namespace AnalysisDependencyManager

/-! ## §2 What the check computes -/

private theorem forM_eq_ite {α ε : Type*} {e : ε} {f : α → Except ε Unit} {p : α → Prop}
    [DecidablePred p] {l : List α} (h : ∀ a ∈ l, f a = if p a then .error e else .ok ()) :
    l.forM f = if ∃ a ∈ l, p a then .error e else .ok () := by
  induction l with
  | nil => simp [pure, Except.pure]
  | cons a l ih =>
    have ha := h a mem_cons_self
    have hl := ih fun b hb => h b (mem_cons_of_mem _ hb)
    change (f a >>= fun _ => l.forM f) = _
    rw [ha]
    by_cases hp : p a
    · simp [hp, bind, Except.bind]
    · simpa [hp, bind, Except.bind] using hl

variable {manager : AnalysisDependencyManager}

theorem exists_dependenciesOn_iff {node : AnalysisNode} {p : DependencyJson → Prop} :
    (∃ dep ∈ manager.dependenciesOn node, p dep.toDependencyJson) ↔
      ∃ dep ∈ manager.serialize, dep.target = node ∧ p dep := by
  cases node with
  | mk observableId analysisType =>
    simp only [dependenciesOn, getDependenciesForObservable, serialize, mem_filter,
      decide_eq_true_eq, mem_map, DependencyJson.target, AnalysisNode.mk.injEq]
    constructor
    · rintro ⟨dep, ⟨⟨hdep, hid⟩, htype⟩, hp⟩
      exact ⟨_, ⟨dep, hdep, rfl⟩, ⟨hid, htype⟩, hp⟩
    · rintro ⟨_, ⟨dep, hdep, rfl⟩, ⟨hid, htype⟩, hp⟩
      exact ⟨dep, ⟨⟨hdep, hid⟩, htype⟩, hp⟩

section Check

variable {registry : ObservableRegistry} {manager : AnalysisDependencyManager}
  (hacyclic : Acyclic (DependsOn manager.serialize))
  (hregistered : Registered registry manager.serialize)

include hacyclic hregistered

open scoped Classical in
/-- The recursion ends, and raises when it meets the type. `path` holds the nodes it came
through: an acyclic graph lets it grow no longer than the nodes there are. -/
private theorem resolveNode_eq {targetType : ModulePath} (start : AnalysisNode) (fuel : Nat)
    (path : List AnalysisNode) (node : AnalysisNode)
    (hpath : (node :: path).IsChain (DependsOn manager.serialize))
    (hsub : node :: path ⊆ start :: manager.serialize.map (·.source))
    (hfuel : manager.dependencyTracking.length + 1 ≤ path.length + fuel) :
    resolveNode registry manager targetType fuel node =
      if MeetsType manager.serialize node targetType then .error .circularDependency else .ok () := by
  induction fuel generalizing path node with
  | zero =>
    have := hacyclic.length_le_of_isChain hpath hsub
    simp at this
    omega
  | succ fuel ih =>
    rw [resolveNode, forM_eq_ite (e := .circularDependency) (p := fun dep =>
      targetType = dep.sourceAnalysisType ∨ MeetsType manager.serialize dep.source targetType)]
    · refine if_congr ?_ rfl rfl
      rw [meetsType_iff, ← exists_dependenciesOn_iff]
    · intro dep hdep
      have hmem : dep.toDependencyJson ∈ manager.serialize ∧ dep.target = node := by
        obtain ⟨json, hjson, htarget, heq⟩ := exists_dependenciesOn_iff
          (p := fun json => json = dep.toDependencyJson) |>.mp ⟨dep, hdep, rfl⟩
        exact ⟨heq ▸ hjson, heq ▸ htarget⟩
      by_cases htype : targetType = dep.sourceAnalysisType
      · simp [htype, bind, Except.bind, throw, throwThe, MonadExceptOf.throw]
      · have hsource := (hregistered _ hmem.1).1
        have hrec := ih (node :: path) dep.source
          (.cons_cons ⟨_, hmem.1, rfl, hmem.2⟩ hpath)
          (cons_subset.mpr ⟨mem_cons_of_mem _ (mem_map_of_mem hmem.1), hsub⟩)
          (by simp only [length_cons]; omega)
        simp only [htype, if_false, Option.isNone_iff_eq_none, Option.isSome_iff_ne_none.mp hsource,
          hrec, false_or, bind, Except.bind]

open scoped Classical in
theorem checkCircularDependency_eq (source target : AnalysisNode) :
    checkCircularDependency registry manager source target =
      if MeetsType manager.serialize source target.analysisType then .error .circularDependency
      else .ok () :=
  resolveNode_eq hacyclic hregistered source _ [] source (.singleton _) (by simp) (by simp)

end Check

/-! ## §3 Runs of `add_dependency` -/

variable {registry : ObservableRegistry}

/-- The manager after a call, which leaves it unchanged when it raises. -/
def afterAdd (manager : AnalysisDependencyManager) (request : DependencyRequest registry) :
    AnalysisDependencyManager :=
  match manager.addDependency request with
  | .ok (manager', _) => manager'
  | .error _ => manager

def Raises (manager : AnalysisDependencyManager) (request : DependencyRequest registry) : Prop :=
  manager.addDependency request = .error .circularDependency

instance (manager : AnalysisDependencyManager) (request : DependencyRequest registry) :
    Decidable (Raises manager request) :=
  inferInstanceAs (Decidable (_ = _))

/-- Every recursion over the links of a tracked dependency returns. -/
def RecursionsEnd (registry : ObservableRegistry) (manager : AnalysisDependencyManager) : Prop :=
  ∀ i < manager.dependencyTracking.length,
    (∃ n, manager.score i = .ok n) ∧ (∃ b, manager.failed i = .ok b) ∧
      ∃ b, manager.delayed registry i = .ok b

/-- What a call promises: it raises if and only if the edge would close a cycle, its own
recursion ends, and afterwards the graph is acyclic and the recursions over it end. -/
def KeepsPromise (manager : AnalysisDependencyManager) (request : DependencyRequest registry) :
    Prop :=
  (Raises manager request ↔ ClosesCycle manager.serialize request.source request.target) ∧
    manager.addDependency request ≠ .error .diverges ∧
    Acyclic (DependsOn (manager.afterAdd request).serialize) ∧
    RecursionsEnd registry (manager.afterAdd request)

/-- The requests on which the check decides rightly: the dependency is tracked already; or it is
a self-edge and some analysis of its type waits for its node; or, if some analysis of the
target's type waits for the source, the target itself does. -/
def CheckDecides (manager : AnalysisDependencyManager) (request : DependencyRequest registry) :
    Prop :=
  manager.find request.source request.target ≠ none ∨
    if request.source = request.target then
      MeetsType manager.serialize request.source request.target.analysisType
    else
      MeetsType manager.serialize request.source request.target.analysisType →
        ∃ dep, WalkedBack manager.serialize request.source dep ∧ dep.source = request.target

/-- What every call keeps as long as the graph stays acyclic. -/
structure Sound (registry : ObservableRegistry) (manager : AnalysisDependencyManager) : Prop where
  acyclic : Acyclic (DependsOn manager.serialize)
  links : LinksFollow manager.dependencyTracking
  registered : Registered registry manager.serialize

theorem sound_empty : Sound registry empty where
  acyclic := acyclic_of_no_edge fun _ _ ⟨_, hdep, _⟩ => absurd hdep not_mem_nil
  links := linksFollow_fromJson []
  registered := fun _ hdep => absurd hdep not_mem_nil

theorem Sound.recursionsEnd (h : Sound registry manager) :
    RecursionsEnd registry manager :=
  fun i hi => ⟨exists_score h.acyclic h.links i, exists_failed h.acyclic h.links hi,
    exists_delayed h.registered h.acyclic h.links hi⟩

theorem Registered.track (h : Registered registry manager.serialize)
    (request : DependencyRequest registry) :
    Registered registry (manager.track request.source request.target).serialize := by
  rw [serialize_track]
  intro dep hdep
  rcases mem_append.mp hdep with hdep | hdep
  · exact h dep hdep
  · obtain rfl := mem_singleton.mp hdep
    exact ⟨request.source_registered, request.target_registered⟩

theorem dependsOn_of_find {source target : AnalysisNode} (h : manager.find source target ≠ none) :
    DependsOn manager.serialize source target := by
  obtain ⟨i, hi⟩ := Option.ne_none_iff_exists'.mp h
  obtain ⟨hlt, hp, -⟩ := List.findIdx?_eq_some_iff_getElem.mp hi
  simp only [decide_eq_true_eq] at hp
  exact ⟨_, mem_map_of_mem (getElem_mem hlt), hp⟩

theorem addDependency_of_find {request : DependencyRequest registry} {i : Nat}
    (h : manager.find request.source request.target = some i) :
    manager.addDependency request = .ok (manager, i) := by
  simp only [addDependency, h]

section Step

variable {manager : AnalysisDependencyManager} {request : DependencyRequest registry}

theorem addDependency_of_meetsType (hsound : Sound registry manager)
    (hfind : manager.find request.source request.target = none)
    (hmeets : MeetsType manager.serialize request.source request.target.analysisType) :
    manager.addDependency request = .error .circularDependency := by
  simp only [addDependency, hfind,
    checkCircularDependency_eq hsound.acyclic hsound.registered, if_pos hmeets]
  rfl

theorem addDependency_of_not_meetsType (hsound : Sound registry manager)
    (hfind : manager.find request.source request.target = none)
    (hmeets : ¬ MeetsType manager.serialize request.source request.target.analysisType) :
    manager.addDependency request =
      .ok (manager.track request.source request.target, manager.dependencyTracking.length) := by
  simp only [addDependency, hfind,
    checkCircularDependency_eq hsound.acyclic hsound.registered, if_neg hmeets]
  rfl

theorem Sound.afterAdd (hsound : Sound registry manager)
    (hacyclic : Acyclic (DependsOn (manager.afterAdd request).serialize)) :
    Sound registry (manager.afterAdd request) := by
  cases hfind : manager.find request.source request.target with
  | some i => simpa only [AnalysisDependencyManager.afterAdd, addDependency_of_find hfind]
  | none =>
    by_cases hmeets : MeetsType manager.serialize request.source request.target.analysisType
    · simpa only [AnalysisDependencyManager.afterAdd,
        addDependency_of_meetsType hsound hfind hmeets]
    · simp only [AnalysisDependencyManager.afterAdd,
        addDependency_of_not_meetsType hsound hfind hmeets] at hacyclic ⊢
      exact ⟨hacyclic, linksFollow_track hsound.links _ _, hsound.registered.track request⟩

theorem keepsPromise_iff_checkDecides (hsound : Sound registry manager) :
    KeepsPromise manager request ↔ CheckDecides manager request := by
  cases hfind : manager.find request.source request.target with
  | some i =>
    have hadd := addDependency_of_find hfind
    have hedge := dependsOn_of_find (by rw [hfind]; exact Option.some_ne_none i)
    have hopen : ¬ ClosesCycle manager.serialize request.source request.target :=
      fun hclose => hsound.acyclic _ (TransGen.head' hedge hclose)
    simp [KeepsPromise, CheckDecides, Raises, AnalysisDependencyManager.afterAdd, hadd, hfind,
      hopen, hsound.acyclic, hsound.recursionsEnd]
  | none =>
    by_cases hmeets : MeetsType manager.serialize request.source request.target.analysisType
    · have hadd := addDependency_of_meetsType hsound hfind hmeets
      simp only [KeepsPromise, Raises, AnalysisDependencyManager.afterAdd, hadd, closesCycle_iff,
        hsound.acyclic, hsound.recursionsEnd, CheckDecides, hfind, hmeets]
      by_cases hself : request.source = request.target <;> simp [hself]
    · have hadd := addDependency_of_not_meetsType hsound hfind hmeets
      have hexact : ¬ ∃ dep, WalkedBack manager.serialize request.source dep ∧
          dep.source = request.target := by
        rintro ⟨dep, hdep, hsource⟩
        exact hmeets ⟨dep, hdep, congrArg AnalysisNode.analysisType hsource.symm⟩
      by_cases hself : request.source = request.target
      · -- the self-edge is tracked: the call does not raise although it closes a cycle
        have hbroken : ¬ KeepsPromise manager request := by
          rintro ⟨hraises, -⟩
          have := hraises.mpr (closesCycle_iff.mpr (.inl hself))
          simp [Raises, hadd] at this
        have hundecided : ¬ CheckDecides manager request := by
          simp [CheckDecides, hfind, hmeets, if_pos hself]
        exact iff_of_false hbroken hundecided
      · have hopen : ¬ ClosesCycle manager.serialize request.source request.target := by
          rw [closesCycle_iff]
          exact not_or.mpr ⟨hself, hexact⟩
        have hacyclic : Acyclic (DependsOn (manager.afterAdd request).serialize) := by
          simp only [AnalysisDependencyManager.afterAdd, hadd, serialize_track,
            dependsOn_append_new]
          exact acyclic_insertEdge_iff.mpr ⟨hsound.acyclic, hopen⟩
        have hend := (hsound.afterAdd hacyclic).recursionsEnd
        simp [KeepsPromise, Raises, hadd, hopen, CheckDecides, hfind, hself, hmeets, hacyclic, hend]

end Step

/-! ## §4 The exact condition -/

/-- A run of calls from the empty manager keeps every promise (it raises exactly on edges that
close a cycle, the graph stays acyclic and every recursion ends) if and only if at each call
the check decides rightly. -/
theorem run_keepsPromise_iff (requests : List (DependencyRequest registry)) :
    Along afterAdd KeepsPromise empty requests ↔ Along afterAdd CheckDecides empty requests :=
  along_iff_of_invariant (Sound registry) (fun _ _ hsound hkeeps => hsound.afterAdd hkeeps.2.2.1)
    (fun _ _ hsound => keepsPromise_iff_checkDecides hsound) sound_empty requests

/-- A request between two observables of a tree that holds every observable. -/
def request (source target : AnalysisNode) :
    DependencyRequest ⟨fun _ => some fun _ => none⟩ :=
  ⟨source, target, rfl, rfl⟩

/-- `(o1, T) → (o2, S)` followed by `(o2, S) → (o3, T)` is refused although no cycle closes, and
the self-edge `(o1, T) → (o1, T)` is accepted. -/
theorem run_breaks_promise :
    ¬ Along afterAdd KeepsPromise empty
        [request ⟨"o1", "T"⟩ ⟨"o2", "S"⟩, request ⟨"o2", "S"⟩ ⟨"o3", "T"⟩] ∧
      ¬ Along afterAdd KeepsPromise empty [request ⟨"o1", "T"⟩ ⟨"o1", "T"⟩] := by
  constructor
  · rintro ⟨-, ⟨hraises, -⟩, -⟩
    have hclose := hraises.mp (by decide)
    rcases ReflTransGen.cases_head hclose with heq | ⟨_, ⟨dep, hdep, hsource, -⟩, -⟩
    · exact absurd heq (by decide)
    · -- `(o3, T)` waits for nothing
      exact absurd hsource (by revert dep; decide)
  · rintro ⟨⟨hraises, -⟩, -⟩
    exact absurd (hraises.mpr .refl) (by decide)

end AnalysisDependencyManager

end Ace3.Analysis
