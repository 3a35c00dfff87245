import Ace3.Lib.Separators
import Mathlib.Data.List.Induction

/-!
# Excluded Analysis

The exclusions of an observable (`saq/analysis/observable.py`) and those that the rules of
`saq/modules/util/observable_modifier.py` append. An exclusion is kept as text: the calls spell the
class as `str` does, the rules by its plain name, and either puts the instance right behind it.
-/

namespace Ace3.Analysis

open List Lib

/-! ## §1 The names of a module -/

/-- A class of analysis modules, `scope` being what stands before its `__name__` in its
`__qualname__`, with the `instance` of a module of it. -/
structure ModuleInstance where
  module : List Char
  scope : List Char
  className : List Char
  instanceName : Option (List Char)
  /-- Python's names have no such letters. -/
  colon_notMem : ':' ∉ module
  quote_notMem : '\'' ∉ module ++ scope ++ className
  className_start : ∃ first rest, className = first :: rest ∧ first ≠ '<'
  deriving DecidableEq

namespace ModuleInstance

variable (m r : ModuleInstance)

/-- `'{}:{}'.format(__module__, str(type))`, and the instance. -/
def name : List Char :=
  m.module ++ ':' :: ("<class ".toList ++ '\'' ::
    (m.module ++ '.' :: (m.scope ++ m.className) ++ '\'' :: '>' :: m.instanceName.getD []))

/-- `'{}:{}'.format(__module__, __name__)`, and the instance. -/
def cleanName : List Char :=
  m.module ++ ':' :: (m.className ++ m.instanceName.getD [])

/-- Same class, and instances that read alike: none reads as the empty one. -/
def ReadsLike : Prop :=
  m.module = r.module ∧ m.scope ++ m.className = r.scope ++ r.className ∧
    m.instanceName.getD [] = r.instanceName.getD []
  deriving Decidable

variable {m r}

theorem name_ne_cleanName : r.name ≠ m.cleanName := by
  intro h
  obtain ⟨-, htext⟩ := (append_cons_inj r.colon_notMem m.colon_notMem).mp h
  obtain ⟨first, rest, hname, hfirst⟩ := m.className_start
  rw [hname] at htext
  exact hfirst (cons.inj htext).1.symm

theorem name_inj : r.name = m.name ↔ r.ReadsLike m := by
  constructor
  · intro h
    obtain ⟨hmodule, htext⟩ := (append_cons_inj r.colon_notMem m.colon_notMem).mp h
    have hquoted := (cons.inj (append_cancel_left htext)).2
    have hquote (k : ModuleInstance) : '\'' ∉ k.module ++ '.' :: (k.scope ++ k.className) := by
      simpa using k.quote_notMem
    obtain ⟨hclass, hinstance⟩ := (append_cons_inj (hquote r) (hquote m)).mp hquoted
    rw [hmodule] at hclass
    exact ⟨hmodule, (cons.inj (append_cancel_left hclass)).2, (cons.inj hinstance).2⟩
  · rintro ⟨hmodule, hclass, hinstance⟩
    simp only [name, hmodule, hclass, hinstance]

end ModuleInstance

/-! ## §2 The list -/

/-- `while name in excluded: excluded.remove(name)`. -/
def removeEach (name : List Char) (excluded : List (List Char)) : List (List Char) :=
  if _ : name ∈ excluded then removeEach name (excluded.erase name) else excluded
termination_by excluded.length
decreasing_by
  have hpos : 0 < excluded.length := length_pos_of_mem ‹_›
  rw [length_erase_of_mem ‹_›]
  omega

theorem mem_removeEach {other name : List Char} {excluded : List (List Char)} :
    other ∈ removeEach name excluded ↔ other ∈ excluded ∧ other ≠ name := by
  fun_induction removeEach name excluded with
  | case1 excluded hmem ih =>
    rw [ih]
    exact and_congr_left fun hne => mem_erase_of_ne hne
  | case2 excluded hmem => exact ⟨fun h => ⟨h, fun heq => hmem (heq ▸ h)⟩, (·.1)⟩

inductive ExclusionOperation where
  | excludeAnalysis (m : ModuleInstance)
  /-- A rule that names the module. -/
  | applyRule (m : ModuleInstance)
  | removeAnalysisExclusion (m : ModuleInstance)
  deriving DecidableEq

open ExclusionOperation

namespace ExclusionOperation

def subject : ExclusionOperation → ModuleInstance
  | excludeAnalysis m | applyRule m | removeAnalysisExclusion m => m

def IsExclusion : ExclusionOperation → Prop
  | excludeAnalysis _ | applyRule _ => True
  | removeAnalysisExclusion _ => False

def IsRule : ExclusionOperation → Prop
  | applyRule _ => True
  | excludeAnalysis _ | removeAnalysisExclusion _ => False

instance : DecidablePred IsExclusion
  | excludeAnalysis _ | applyRule _ => isTrue trivial
  | removeAnalysisExclusion _ => isFalse id

instance : DecidablePred IsRule
  | applyRule _ => isTrue trivial
  | excludeAnalysis _ | removeAnalysisExclusion _ => isFalse id

def run (excluded : List (List Char)) : ExclusionOperation → List (List Char)
  | excludeAnalysis m => if m.name ∈ excluded then excluded else excluded ++ [m.name]
  | applyRule m => excluded ++ [m.cleanName]
  | removeAnalysisExclusion m => removeEach m.name excluded

end ExclusionOperation

def isExcluded (excluded : List (List Char)) (m : ModuleInstance) : Bool :=
  m.name ∈ excluded || m.cleanName ∈ excluded

/-- The list after the operations on a new observable. -/
def exclusions (operations : List ExclusionOperation) : List (List Char) :=
  operations.foldl run []

/-! ## §3 The last word on a module -/

variable {m : ModuleInstance} {operations : List ExclusionOperation}

/-- The last of the operations that are so is an exclusion. -/
def LastExcludes (p : ExclusionOperation → Prop) [DecidablePred p]
    (operations : List ExclusionOperation) : Prop :=
  ∃ operation ∈ operations.reverse.find? p, operation.IsExclusion

theorem lastExcludes_append_singleton {p : ExclusionOperation → Prop} [DecidablePred p]
    {operation : ExclusionOperation} : LastExcludes p (operations ++ [operation]) ↔
      if p operation then operation.IsExclusion else LastExcludes p operations := by
  unfold LastExcludes
  by_cases h : p operation <;> simp [h]

/-- An operation that names the module. -/
abbrev Names (m : ModuleInstance) (operation : ExclusionOperation) : Prop := operation.subject = m

/-- A call on a module that reads like this one. -/
abbrev Calls (m : ModuleInstance) (operation : ExclusionOperation) : Prop :=
  ¬ operation.IsRule ∧ operation.subject.ReadsLike m

/-- A rule that spells the module, or another one, as this one. -/
abbrev Spells (m : ModuleInstance) (operation : ExclusionOperation) : Prop :=
  operation.IsRule ∧ operation.subject.cleanName = m.cleanName

theorem name_mem_exclusions_iff : m.name ∈ exclusions operations ↔
    LastExcludes (Calls m) operations := by
  induction operations using reverseRecOn with
  | nil => simp [exclusions, LastExcludes]
  | append_singleton operations operation ih =>
    rw [lastExcludes_append_singleton, ← ih, exclusions, foldl_append]
    change m.name ∈ run (exclusions operations) operation ↔ _
    cases operation with
    | excludeAnalysis r =>
      have hcalls : Calls m (excludeAnalysis r) ↔ r.name = m.name := by
        simp [Calls, IsRule, subject, ModuleInstance.name_inj]
      simp only [run, IsExclusion, hcalls]
      grind
    | applyRule r =>
      have hclean := ModuleInstance.name_ne_cleanName (m := r) (r := m)
      simp [run, IsRule, hclean]
    | removeAnalysisExclusion r =>
      have hcalls : Calls m (removeAnalysisExclusion r) ↔ r.name = m.name := by
        simp [Calls, IsRule, subject, ModuleInstance.name_inj]
      simp only [run, IsExclusion, hcalls, mem_removeEach]
      grind

theorem cleanName_mem_exclusions_iff : m.cleanName ∈ exclusions operations ↔
    ∃ operation ∈ operations, Spells m operation := by
  induction operations using reverseRecOn with
  | nil => simp [exclusions]
  | append_singleton operations operation ih =>
    have hclean (r : ModuleInstance) : m.cleanName ≠ r.name :=
      (ModuleInstance.name_ne_cleanName (m := m) (r := r)).symm
    rw [show (∃ other ∈ operations ++ [operation], Spells m other) ↔
      (∃ other ∈ operations, Spells m other) ∨ Spells m operation by simp [or_and_right, exists_or],
      ← ih, exclusions, foldl_append]
    change m.cleanName ∈ run (exclusions operations) operation ↔ _
    cases operation with
    | excludeAnalysis r =>
      have hspells : ¬ Spells m (excludeAnalysis r) := (·.1)
      simp only [run, hspells, or_false]
      grind
    | applyRule r => simp [run, Spells, IsRule, subject, eq_comm]
    | removeAnalysisExclusion r =>
      have hspells : ¬ Spells m (removeAnalysisExclusion r) := (·.1)
      simp [run, hspells, mem_removeEach, hclean r]

/-- What the list answers is what the last operation on the module says, unless a rule has spelt
the module's name, which no call takes back, or the last call was on another instance that reads
alike. -/
theorem isExcluded_iff_lastExcludes_iff (operations : List ExclusionOperation)
    (m : ModuleInstance) :
    (isExcluded (exclusions operations) m = true ↔ LastExcludes (Names m) operations) ↔
      if ∃ operation ∈ operations, Spells m operation then LastExcludes (Names m) operations
      else (LastExcludes (Calls m) operations ↔ LastExcludes (Names m) operations) := by
  have hexcluded : isExcluded (exclusions operations) m = true ↔
      LastExcludes (Calls m) operations ∨ ∃ operation ∈ operations, Spells m operation := by
    rw [← name_mem_exclusions_iff, ← cleanName_mem_exclusions_iff]
    simp [isExcluded]
  rw [hexcluded]
  split
  next h => simp [h]
  next h => simp [h]

def sandboxAnalyzer : ModuleInstance where
  module := "saq.modules.sandbox".toList
  scope := []
  className := "SandboxAnalyzer".toList
  instanceName := none
  colon_notMem := by decide
  quote_notMem := by decide
  className_start := ⟨'S', "andboxAnalyzer".toList, rfl, by decide⟩

/-- The analyst removes an exclusion, and it stays. -/
theorem rule_outlives_removal :
    ¬ (isExcluded (exclusions [applyRule sandboxAnalyzer,
        removeAnalysisExclusion sandboxAnalyzer]) sandboxAnalyzer = true ↔
      LastExcludes (Names sandboxAnalyzer) [applyRule sandboxAnalyzer,
        removeAnalysisExclusion sandboxAnalyzer]) := by
  have hkept : sandboxAnalyzer.cleanName ∈ exclusions [applyRule sandboxAnalyzer,
      removeAnalysisExclusion sandboxAnalyzer] :=
    cleanName_mem_exclusions_iff.mpr ⟨_, mem_cons_self, trivial, rfl⟩
  intro h
  obtain ⟨operation, hlast, hexclusion⟩ := h.mp (by simp [isExcluded, hkept])
  cases hlast
  exact hexclusion

end Ace3.Analysis
