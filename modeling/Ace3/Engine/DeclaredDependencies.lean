import Ace3.Lib.DepthFirst
import Ace3.Lib.OrderedDict

/-!
# Declared Dependencies of Analysis Modules

The configuration manager resolves the dependencies that the modules declare, and does not start
with a circle of them (`saq/engine/configuration_manager.py`).
-/

namespace Ace3.Engine

open List
open Relation Lib Lib.DepthFirst

/-! ## §1 The configuration manager -/

/-- An analysis module, by its `config`. -/
structure AnalysisModule where
  name : String
  dependencies : List String
  deriving DecidableEq

/-- What the manager keeps of the modules that are loaded. -/
structure ConfigurationManager where
  analysisModules : List AnalysisModule
  analysisModuleNameMapping : OrderedDict String AnalysisModule
  declaredDependencyMapping : OrderedDict String (List AnalysisModule)

/-- Why the graph is not built: the `RuntimeError` of a circle. The other error stands for a search
that does not end. -/
inductive BuildError where
  | circularDependency (message : String)
  | endless

namespace ConfigurationManager

/-- `_initialize_mappings`. -/
def initial : ConfigurationManager := ⟨[], .empty, .empty⟩

def addAnalysisModule (m : ConfigurationManager) (module_ : AnalysisModule) :
    ConfigurationManager :=
  { m with
    analysisModules := m.analysisModules ++ [module_]
    analysisModuleNameMapping := m.analysisModuleNameMapping.set module_.name module_ }

def getDeclaredDependencies (m : ConfigurationManager) (name : String) : List AnalysisModule :=
  (m.declaredDependencyMapping.get? name).getD []

/-- The names of the dependencies that are not loaded are skipped. -/
def resolve (m : ConfigurationManager) (module_ : AnalysisModule) : List AnalysisModule :=
  module_.dependencies.filterMap m.analysisModuleNameMapping.get?

def targets (m : ConfigurationManager) (name : String) : List String :=
  (m.getDeclaredDependencies name).map (·.name)

/-- `_check_declared_dependency_cycles`. The recursion goes at most as deep as there are modules. -/
def checkDeclaredDependencyCycles (m : ConfigurationManager) : Except BuildError Unit :=
  match search m.targets m.analysisModules.length m.declaredDependencyMapping.keys with
  | .ok _ => .ok ()
  | .error (.cycle cycle) => .error (.circularDependency
      ("CIRCULAR DEPENDENCY ERROR in declared analysis module dependencies: " ++
        " -> ".intercalate cycle))
  | .error .outOfFuel => .error .endless

def buildAndValidateDependencyGraph (m : ConfigurationManager) :
    Except BuildError ConfigurationManager := do
  let m := { m with
    declaredDependencyMapping := .fill (·.name) m.resolve .empty m.analysisModules }
  m.checkDeclaredDependencyCycles
  return m

def loadModules (modules : List AnalysisModule) : Except BuildError ConfigurationManager :=
  (modules.foldl addAnalysisModule initial).buildAndValidateDependencyGraph

end ConfigurationManager

/-! ## §2 The graph of the declarations -/

def loadedAs (modules : List AnalysisModule) (name : String) : Option AnalysisModule :=
  modules.reverse.find? (·.name = name)

/-- The module with the first name declares a dependency on the module with the second, and both
are loaded. -/
def Declares (modules : List AnalysisModule) (name target : String) : Prop :=
  ∃ module_, loadedAs modules name = some module_ ∧ target ∈ module_.dependencies ∧
    (loadedAs modules target).isSome

namespace ConfigurationManager

variable {modules : List AnalysisModule} {name target : String}

theorem mem_of_loadedAs {module_ : AnalysisModule} (h : loadedAs modules name = some module_) :
    module_ ∈ modules ∧ module_.name = name :=
  ⟨mem_reverse.mp (List.mem_of_find?_eq_some h), by simpa using List.find?_some h⟩

theorem foldl_addAnalysisModule (modules : List AnalysisModule) (m : ConfigurationManager) :
    modules.foldl addAnalysisModule m =
      ⟨m.analysisModules ++ modules, .fill (·.name) id m.analysisModuleNameMapping modules,
        m.declaredDependencyMapping⟩ := by
  induction modules generalizing m with
  | nil => simp [OrderedDict.fill]
  | cons module_ modules ih =>
    rw [foldl_cons, ih]
    simp [addAnalysisModule, OrderedDict.fill]

def withGraph (modules : List AnalysisModule) : ConfigurationManager where
  analysisModules := modules
  analysisModuleNameMapping := .fill (·.name) id .empty modules
  declaredDependencyMapping := .fill (·.name)
    (fun module_ => module_.dependencies.filterMap
      (OrderedDict.fill (·.name) id .empty modules).get?) .empty modules

theorem loadModules_eq (modules : List AnalysisModule) :
    loadModules modules = (withGraph modules).checkDeclaredDependencyCycles.map
      fun _ => withGraph modules := by
  rw [loadModules, foldl_addAnalysisModule]
  show ((withGraph modules).checkDeclaredDependencyCycles >>= fun _ => .ok (withGraph modules)) = _
  cases (withGraph modules).checkDeclaredDependencyCycles <;> rfl

theorem get?_nameMapping (modules : List AnalysisModule) (name : String) :
    (withGraph modules).analysisModuleNameMapping.get? name = loadedAs modules name := by
  rw [withGraph, OrderedDict.get?_fill, Option.map_id]
  rfl

theorem getDeclaredDependencies_withGraph (modules : List AnalysisModule) (name : String) :
    (withGraph modules).getDeclaredDependencies name =
      ((loadedAs modules name).map fun module_ =>
        module_.dependencies.filterMap (loadedAs modules)).getD [] := by
  have hmapping : (OrderedDict.fill (·.name) id .empty modules).get? = loadedAs modules :=
    funext (get?_nameMapping modules)
  rw [getDeclaredDependencies, withGraph, OrderedDict.get?_fill, hmapping]
  rfl

theorem mem_targets_iff : target ∈ (withGraph modules).targets name ↔
    Declares modules name target := by
  rw [targets, getDeclaredDependencies_withGraph, Declares]
  cases hname : loadedAs modules name with
  | none => simp
  | some module_ =>
    simp only [Option.map_some, Option.getD_some, mem_map, mem_filterMap,
      Option.some.injEq, exists_eq_left', Option.isSome_iff_exists]
    constructor
    · rintro ⟨found, ⟨dependency, hmem, hfound⟩, rfl⟩
      obtain rfl := (mem_of_loadedAs hfound).2
      exact ⟨hmem, found, hfound⟩
    · rintro ⟨hmem, found, hfound⟩
      exact ⟨found, ⟨target, hmem, hfound⟩, (mem_of_loadedAs hfound).2⟩

theorem mem_keys_withGraph : name ∈ (withGraph modules).declaredDependencyMapping.keys ↔
    (loadedAs modules name).isSome := by
  rw [OrderedDict.mem_keys_iff, withGraph, OrderedDict.get?_fill, Option.isSome_map]
  rfl

/-! ## §3 Circles -/

/-- The modules are loaded, or a circle is reported; nothing else happens. A circle is reported if
and only if the graph of the declarations has one, and the executor gets that graph. -/
theorem circular_dependency_iff (modules : List AnalysisModule) :
    loadModules modules ≠ .error .endless ∧
      ((∃ message, loadModules modules = .error (.circularDependency message)) ↔
        ∃ name, TransGen (Declares modules) name name) ∧
      match loadModules modules with
      | .ok m => ∀ name target, target ∈ (m.getDeclaredDependencies name).map (·.name) ↔
          Declares modules name target
      | .error _ => True := by
  have hedge : Edge (withGraph modules).targets = Declares modules :=
    funext fun _ => funext fun _ => propext mem_targets_iff
  have hname : ∀ name, (loadedAs modules name).isSome → name ∈ modules.map (·.name) := by
    intro name h
    obtain ⟨module_, hmodule⟩ := Option.isSome_iff_exists.mp h
    obtain ⟨hmem, rfl⟩ := mem_of_loadedAs hmodule
    exact mem_map_of_mem hmem
  have hsupport : ∀ name target, Edge (withGraph modules).targets name target →
      target ∈ modules.map (·.name) := by
    intro name target h
    rw [hedge] at h
    exact hname target h.choose_spec.2.2
  have hstarts : (withGraph modules).declaredDependencyMapping.keys ⊆ modules.map (·.name) :=
    fun name h => hname name (mem_keys_withGraph.mp h)
  have hfrom : ∀ name target, Edge (withGraph modules).targets name target →
      name ∈ (withGraph modules).declaredDependencyMapping.keys := by
    intro name target h
    rw [hedge] at h
    obtain ⟨module_, hmodule, -⟩ := h
    exact mem_keys_withGraph.mpr (Option.isSome_iff_exists.mpr ⟨module_, hmodule⟩)
  have hfuel : (modules.map (·.name)).length ≤ (withGraph modules).analysisModules.length := by
    rw [length_map]
    exact le_rfl
  have hends := search_ne_outOfFuel hsupport hstarts hfuel
  have hcycle := search_cycle_iff hsupport hstarts hfrom hfuel
  rw [hedge] at hcycle
  rw [← hcycle, loadModules_eq, checkDeclaredDependencyCycles]
  cases hsearch : search (withGraph modules).targets (withGraph modules).analysisModules.length
      (withGraph modules).declaredDependencyMapping.keys with
  | ok mark =>
    refine ⟨nofun, ?_, fun name target => mem_targets_iff⟩
    constructor <;> exact nofun
  | error stop =>
    cases stop with
    | outOfFuel => exact absurd hsearch hends
    | cycle nodes => exact ⟨nofun, ⟨fun _ => ⟨nodes, rfl⟩, fun _ => ⟨_, rfl⟩⟩, trivial⟩

end ConfigurationManager

end Ace3.Engine
