import Ace3.Lib.Ancestry
import Ace3.Lib.OrderedDict
import Mathlib.Order.Defs.Unbundled

/-!
# The Hierarchy of Observable Types

The process-wide registry of observable types, which is loaded from a file and loaded again when
the file changes (`saq/observables/type_hierarchy.py`).
-/

namespace Ace3.Observables

open Relation Lib Lib.Digraph Lib.Ancestry

/-! ## §1 The registry -/

structure ObservableTypeEntry where
  extends_ : Option String
  defaultDisplayType : Option String
  description : Option String
  deprecated : Bool
  deriving DecidableEq

structure ObservableTypesFile where
  types : OrderedDict String ObservableTypeEntry

/-- Why a file is not read: it is not there, or an exception that `load_yaml_config` catches, or
another one. -/
inductive ReadError where
  | notFound | notParsed | uncaught
  deriving DecidableEq

structure TypeHierarchy where
  parent : OrderedDict String String
  defaultDisplayTypes : OrderedDict String String
  descriptions : OrderedDict String String
  deprecatedTypes : List String
  yamlDeclaredTypes : List String
  ancestorsCache : OrderedDict String (List String)
  configPath : Option String
  lastMtime : Option Int
  nextReloadCheck : Option Int
  reloadCheckInterval : Int

inductive LoadOutcome where
  | notFound | notParsed | raised | unchanged | cycle | loaded
  deriving DecidableEq

namespace ObservableTypesFile

/-- `new_parent`. -/
def parentMap (config : ObservableTypesFile) : OrderedDict String String :=
  config.types.filterMap (·.extends_)

/-- `new_deprecated_types`. -/
def deprecatedTypes (config : ObservableTypesFile) : List String :=
  (config.types.items.filter (·.2.deprecated)).map (·.1)

end ObservableTypesFile

namespace TypeHierarchy

def new : TypeHierarchy := ⟨.empty, .empty, .empty, [], [], .empty, none, none, none, 60⟩

/-! ## §2 Loading -/

/-- `_check_for_cycles`: from one of the types on, a type comes up again. -/
def checkForCycles (parent : OrderedDict String String) : Bool :=
  parent.keys.any fun start =>
    (climb parent.get? parent.keys.length [start] (parent.get? start)).2

/-- What the file would change is what there is already. -/
def Unchanged (h : TypeHierarchy) (config : ObservableTypesFile) : Prop :=
  config.parentMap.Same h.parent ∧
    (config.types.filterMap (·.defaultDisplayType)).Same h.defaultDisplayTypes ∧
    (config.types.filterMap (·.description)).Same h.descriptions ∧
    (config.deprecatedTypes ⊆ h.deprecatedTypes ∧ h.deprecatedTypes ⊆ config.deprecatedTypes) ∧
    (config.types.keys ⊆ h.yamlDeclaredTypes ∧ h.yamlDeclaredTypes ⊆ config.types.keys)

instance (h : TypeHierarchy) (config : ObservableTypesFile) : Decidable (h.Unchanged config) :=
  inferInstanceAs (Decidable (_ ∧ _ ∧ _ ∧ (_ ∧ _) ∧ (_ ∧ _)))

def loadYamlConfig (h : TypeHierarchy) (path : String)
    (reading : Except ReadError (Int × ObservableTypesFile)) : TypeHierarchy × LoadOutcome :=
  match reading with
  | .error .notFound => (h, .notFound)
  | .error .notParsed => (h, .notParsed)
  | .error .uncaught => (h, .raised)
  | .ok (mtime, config) =>
    if h.Unchanged config then
      ({ h with configPath := some path, lastMtime := some mtime }, .unchanged)
    else if checkForCycles config.parentMap then (h, .cycle)
    else
      ({ h with
          parent := config.parentMap
          defaultDisplayTypes := config.types.filterMap (·.defaultDisplayType)
          descriptions := config.types.filterMap (·.description)
          deprecatedTypes := config.deprecatedTypes
          yamlDeclaredTypes := config.types.keys
          ancestorsCache := .empty
          configPath := some path
          lastMtime := some mtime }, .loaded)

/-- `_maybe_reload` at a time, with what `os.stat` says of the file: its time, or whether it is
gone, which is caught. An exception of the load leaves the check as it was. -/
def maybeReload (h : TypeHierarchy) (now : Int) (stat : Except ReadError Int)
    (reading : Except ReadError (Int × ObservableTypesFile)) : TypeHierarchy :=
  match h.configPath with
  | none => h
  | some path =>
    if h.reloadCheckInterval ≤ 0 ∨ h.nextReloadCheck.any (now < ·) then h
    else
      match stat with
      | .error .notFound => { h with nextReloadCheck := some (now + h.reloadCheckInterval) }
      | .error _ => h
      | .ok mtime =>
        if h.lastMtime.all (· < mtime) then
          let (h, outcome) := h.loadYamlConfig path reading
          if outcome = .raised then h
          else { h with nextReloadCheck := some (now + h.reloadCheckInterval) }
        else { h with nextReloadCheck := some (now + h.reloadCheckInterval) }

def reset (h : TypeHierarchy) : TypeHierarchy :=
  { new with reloadCheckInterval := h.reloadCheckInterval }

/-! ## §3 Supertypes -/

/-- `ancestors`, which remembers its result. -/
def ancestors (h : TypeHierarchy) (t : String) : List String × TypeHierarchy :=
  match h.ancestorsCache.get? t with
  | some cached => (cached, h)
  | none =>
    let result := (climb h.parent.get? h.parent.keys.length [t] (h.parent.get? t)).1
    (result, { h with ancestorsCache := h.ancestorsCache.set t result })

def isSubtype (h : TypeHierarchy) (t parent : String) : Bool × TypeHierarchy :=
  if t = parent then (true, h) else ((h.ancestors t).1.contains parent, (h.ancestors t).2)

/-- What is done to the registry. `bootstrap_type_hierarchy` sets the interval and loads. -/
inductive Operation where
  | setInterval (seconds : Int)
  | load (path : String) (reading : Except ReadError (Int × ObservableTypesFile))
  | maybeReload (now : Int) (stat : Except ReadError Int)
      (reading : Except ReadError (Int × ObservableTypesFile))
  | ancestors (t : String)
  | isSubtype (t parent : String)
  | reset

def step (h : TypeHierarchy) : Operation → TypeHierarchy
  | .setInterval seconds => { h with reloadCheckInterval := seconds }
  | .load path reading => (h.loadYamlConfig path reading).1
  | .maybeReload now stat reading => h.maybeReload now stat reading
  | .ancestors t => (h.ancestors t).2
  | .isSubtype t parent => (h.isSubtype t parent).2
  | .reset => h.reset

/-! ## §4 The invariant -/

/-- The parent map has no cycles, and what is remembered is right for it. -/
structure Sound (h : TypeHierarchy) : Prop where
  acyclic : Acyclic (Extends h.parent.get?)
  cached : ∀ t list, h.ancestorsCache.get? t = some list → Lists h.parent.get? t list

variable {h h' : TypeHierarchy}

theorem sound_new : new.Sound where
  acyclic := acyclic_of_no_edge fun _ _ h => by cases h
  cached _ _ h := by cases h

theorem Sound.congr (hs : h.Sound) (hparent : h'.parent = h.parent)
    (hcache : h'.ancestorsCache = h.ancestorsCache) : h'.Sound := by
  refine ⟨?_, ?_⟩
  · rw [hparent]
    exact hs.acyclic
  · rw [hparent, hcache]
    exact hs.cached

theorem mem_keys_iff_extends (parent : OrderedDict String String) (a : String) :
    a ∈ parent.keys ↔ ∃ b, Extends parent.get? a b := by
  rw [OrderedDict.mem_keys_iff, Option.isSome_iff_exists]
  rfl

theorem checkForCycles_iff (parent : OrderedDict String String) :
    checkForCycles parent = true ↔ ¬ Acyclic (Extends parent.get?) := by
  rw [checkForCycles, List.any_eq_true]
  exact exists_climb_iff (mem_keys_iff_extends parent) le_rfl

theorem loadYamlConfig_spec (hs : h.Sound) (path : String)
    (reading : Except ReadError (Int × ObservableTypesFile)) :
    match reading with
    | .error _ => (h.loadYamlConfig path reading).1 = h
    | .ok (_, config) =>
      (¬ Acyclic (Extends config.parentMap.get?) ∧ (h.loadYamlConfig path reading).1 = h) ∨
        (Acyclic (Extends config.parentMap.get?) ∧
          (h.loadYamlConfig path reading).1.parent.get? = config.parentMap.get?) := by
  cases reading with
  | error error => cases error <;> rfl
  | ok file =>
    obtain ⟨mtime, config⟩ := file
    simp only [loadYamlConfig]
    by_cases hunchanged : h.Unchanged config
    · rw [if_pos hunchanged]
      have hget : config.parentMap.get? = h.parent.get? := funext hunchanged.1.get?_eq
      rw [hget]
      exact .inr ⟨hs.acyclic, rfl⟩
    · rw [if_neg hunchanged]
      by_cases hcycles : checkForCycles config.parentMap = true
      · rw [if_pos hcycles]
        exact .inl ⟨(checkForCycles_iff _).mp hcycles, rfl⟩
      · rw [if_neg hcycles]
        rw [checkForCycles_iff, not_not] at hcycles
        exact .inr ⟨hcycles, rfl⟩

theorem Sound.loadYamlConfig (hs : h.Sound) (path : String)
    (reading : Except ReadError (Int × ObservableTypesFile)) :
    (h.loadYamlConfig path reading).1.Sound := by
  cases reading with
  | error error => cases error <;> exact hs
  | ok file =>
    obtain ⟨mtime, config⟩ := file
    simp only [TypeHierarchy.loadYamlConfig]
    split
    · exact hs.congr rfl rfl
    · split
      · exact hs
      · rename_i hcycles
        rw [checkForCycles_iff, not_not] at hcycles
        -- the cache is cleared together with the map it was right for
        exact ⟨hcycles, fun _ _ h => by cases h⟩

theorem Sound.maybeReload (hs : h.Sound) (now : Int) (stat : Except ReadError Int)
    (reading : Except ReadError (Int × ObservableTypesFile)) :
    (h.maybeReload now stat reading).Sound := by
  rw [TypeHierarchy.maybeReload]
  cases h.configPath with
  | none => exact hs
  | some path =>
    have hload := hs.loadYamlConfig path reading
    simp only
    split
    · exact hs
    · split
      · exact hs.congr rfl rfl
      · exact hs
      · split
        · split
          · exact hload
          · exact hload.congr rfl rfl
        · exact hs.congr rfl rfl

theorem Sound.lists (hs : h.Sound) (t : String) : Lists h.parent.get? t (h.ancestors t).1 := by
  rw [ancestors]
  cases hcached : h.ancestorsCache.get? t with
  | some cached => exact hs.cached t cached hcached
  | none =>
    exact lists_climb (fun a b hab => (mem_keys_iff_extends h.parent a).mpr ⟨b, hab⟩) le_rfl
      hs.acyclic t

theorem Sound.ancestors (hs : h.Sound) (t : String) : (h.ancestors t).2.Sound := by
  have hlists := hs.lists t
  rw [TypeHierarchy.ancestors] at hlists ⊢
  cases hcached : h.ancestorsCache.get? t with
  | some cached => exact hs
  | none =>
    rw [hcached] at hlists
    refine ⟨hs.acyclic, fun t' list hlist => ?_⟩
    rw [OrderedDict.get?_set] at hlist
    by_cases ht : t' = t
    · subst ht
      rw [if_pos rfl] at hlist
      cases hlist
      exact hlists
    · rw [if_neg ht] at hlist
      exact hs.cached t' list hlist

theorem Sound.isSubtype (hs : h.Sound) (t parent : String) : (h.isSubtype t parent).2.Sound := by
  rw [TypeHierarchy.isSubtype]
  split
  · exact hs
  · exact hs.ancestors t

theorem Sound.step (hs : h.Sound) (operation : Operation) : (h.step operation).Sound := by
  cases operation with
  | setInterval seconds => exact hs.congr rfl rfl
  | load path reading => exact hs.loadYamlConfig path reading
  | maybeReload now stat reading => exact hs.maybeReload now stat reading
  | ancestors t => exact hs.ancestors t
  | isSubtype t parent => exact hs.isSubtype t parent
  | reset => exact sound_new.congr rfl rfl

theorem Sound.run (hs : h.Sound) (operations : List Operation) :
    (operations.foldl TypeHierarchy.step h).Sound := by
  induction operations generalizing h with
  | nil => exact hs
  | cons operation operations ih => exact ih (hs.step operation)

/-! ## §5 The order of the types -/

theorem Sound.isSubtype_iff (hs : h.Sound) (a b : String) :
    (h.isSubtype a b).1 = true ↔ ReflTransGen (Extends h.parent.get?) a b := by
  rw [TypeHierarchy.isSubtype]
  by_cases hab : a = b
  · subst hab
    simp [ReflTransGen.refl]
  · rw [if_neg hab, List.contains_iff_mem, (hs.lists a).mem_iff, reflTransGen_iff_eq_or_transGen]
    simp [Ne.symm hab]

theorem Sound.isPartialOrder (hs : h.Sound) :
    IsPartialOrder String (fun a b => (h.isSubtype a b).1 = true) where
  refl a := (hs.isSubtype_iff a a).mpr .refl
  trans a b c hab hbc := by
    rw [hs.isSubtype_iff] at hab hbc ⊢
    exact hab.trans hbc
  antisymm a b hab hba := by
    rw [hs.isSubtype_iff] at hab hba
    by_contra hne
    rcases reflTransGen_iff_eq_or_transGen.mp hab with rfl | hab
    · exact hne rfl
    · exact hs.acyclic a (TransGen.trans_left hab hba)

/-- After any operations, the parent map has no cycles, subtypes are what it makes them and are
partially ordered, and the ancestors are the proper supertypes, nearest first. A load leaves
everything as it was, unless its file can be read and has no cycles. -/
theorem hierarchy_in_force (operations : List Operation) :
    let h := operations.foldl step new
    Acyclic (Extends h.parent.get?) ∧
      (∀ a b, (h.isSubtype a b).1 = true ↔ ReflTransGen (Extends h.parent.get?) a b) ∧
      IsPartialOrder String (fun a b => (h.isSubtype a b).1 = true) ∧
      (∀ a, Lists h.parent.get? a (h.ancestors a).1) ∧
      ∀ path (reading : Except ReadError (Int × ObservableTypesFile)), match reading with
        | .error _ => (h.loadYamlConfig path reading).1 = h
        | .ok (_, config) =>
          (¬ Acyclic (Extends config.parentMap.get?) ∧ (h.loadYamlConfig path reading).1 = h) ∨
            (Acyclic (Extends config.parentMap.get?) ∧
              (h.loadYamlConfig path reading).1.parent.get? = config.parentMap.get?) := by
  intro h
  have hs : h.Sound := sound_new.run operations
  exact ⟨hs.acyclic, hs.isSubtype_iff, hs.isPartialOrder, hs.lists,
    fun path reading => loadYamlConfig_spec hs path reading⟩

end TypeHierarchy

end Ace3.Observables
