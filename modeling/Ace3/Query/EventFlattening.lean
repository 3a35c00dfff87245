import Ace3.Lib.Nested
import Ace3.ObservableModifier.NestedValue
import Mathlib.Data.List.Induction
import Mathlib.Data.Rat.Defs

/-!
# Flattening an Event

Templates go to the parts of an event by dots, so the event is rewritten before a template is
rendered: a key with dots in it becomes a path through nested dictionaries. The keys are merged
into the result one after the other.
-/

namespace Ace3.Query

open List
open Lib Lib.Nested
open ObservableModifier (splitDots)

/-! ## §1 Events -/

inductive Key where
  | str (s : String)
  | int (i : ℤ)
  deriving DecidableEq, Inhabited

/-- A value that is neither a list nor a dictionary. -/
inductive Scalar where
  | null
  | bool (b : Bool)
  | int (i : ℤ)
  /-- A float, by its value; no comparison sees the sign of zero. -/
  | float (value : ℚ)
  | str (s : String)
  | bytes (raw : List UInt8)
  deriving DecidableEq, Inhabited

abbrev Val := Nested Key Scalar

abbrev Items := List (Key × Val)

/-- An event: a dictionary whose keys may have dots in them. -/
abbrev Event := OrderedDict Key Val

theorem lookup_map_snd {β γ : Type*} (f : β → γ) (entries : List (Key × β)) (key : Key) :
    (entries.map fun entry => (entry.1, f entry.2)).lookup key = (entries.lookup key).map f := by
  induction entries with
  | nil => rfl
  | cons entry entries ih =>
    rw [map_cons, OrderedDict.lookup_cons_ite, OrderedDict.lookup_cons_ite, ih]
    split <;> rfl

def removeMarker (part : String) : String :=
  match part.toList.reverse with
  | '}' :: '{' :: rest => String.ofList rest.reverse
  | _ => part

def partsOf (rawKey : String) : List Key :=
  ((splitDots rawKey).filter (· ≠ "")).map fun part => .str (removeMarker part)

/-- The path under which the value of a key is found; a key that is no string is kept as it is. -/
def pathOf : Key → List Key
  | .int i => [.int i]
  | .str rawKey => partsOf rawKey

/-- The dictionary under a part. A new one takes the place of what is absent or no dictionary. -/
def nestedUnder (part : Key) (cursor : Items) : Items :=
  match cursor.lookup part with
  | some (.dict existing) => existing
  | _ => []

/-- The walk of a key through the nested dictionaries, with its value at the end. -/
def place (value : Val) : List Key → Items → Items
  | [], cursor => cursor
  | [part], cursor =>
    -- the nested form is there already; it is preserved
    if (cursor.lookup part).any isDict && !value.isDict then cursor
    else OrderedDict.setItems part value cursor
  | part :: rest, cursor =>
    OrderedDict.setItems part (.dict (place value rest (nestedUnder part cursor))) cursor

def mergeKey (result : Items) : Key × Val → Items
  | (.int i, value) => OrderedDict.setItems (.int i) value result
  | (.str rawKey, value) => place value (partsOf rawKey) result

def expandDottedKeys (items : Items) : Items := items.foldl mergeKey []

/-! ## §2 One key -/

variable {value : Val} {path place' : List Key} {items : Items}

theorem any_isDict_iff (part : Key) (items : Items) :
    (items.lookup part).any isDict = true ↔ (dict items).shape [part] = some .branch := by
  rw [shape_dict]
  cases items.lookup part with
  | none => simp
  | some v => simp [top_eq_branch_iff]

theorem shape_setItems (part : Key) (v : Val) (items : Items) :
    (dict (OrderedDict.setItems part v items)).shape = overlay [part] v.shape (dict items).shape := by
  funext spot
  cases spot with
  | nil =>
    rw [overlay_cons_nil]
    rfl
  | cons key spot =>
    rw [shape_dict, OrderedDict.lookup_setItems, overlay_cons_cons]
    by_cases hkey : key = part
    · rw [if_pos hkey, if_pos hkey, Option.bind_some]
      exact (overlay_below [] spot).symm
    · rw [if_neg hkey, if_neg hkey, shape_dict]

theorem shape_nestedUnder (part : Key) (items : Items) {spot : List Key} (hspot : spot ≠ []) :
    (dict items).shape (part :: spot) = (dict (nestedUnder part items)).shape spot := by
  obtain ⟨key, spot, rfl⟩ := exists_cons_of_ne_nil hspot
  rw [shape_dict, nestedUnder]
  cases items.lookup part with
  | none => rfl
  | some v =>
    cases v with
    | dict existing => rfl
    | atom a => exact shape_of_not_isDict hspot rfl
    | list l => exact shape_of_not_isDict hspot rfl

theorem shape_setItems_nestedUnder {part : Key} {inner : Items}
    (hinner : (dict inner).shape =
      overlay path value.shape (dict (nestedUnder part items)).shape) (hpath : path ≠ []) :
    (dict (OrderedDict.setItems part (.dict inner) items)).shape =
      overlay (part :: path) value.shape (dict items).shape := by
  rw [shape_setItems, hinner]
  funext spot
  cases spot with
  | nil => rw [overlay_cons_nil, overlay_cons_nil]
  | cons key spot =>
    rw [overlay_cons_cons, overlay_cons_cons]
    split
    · rw [overlay_congr hpath fun spot hspot => shape_nestedUnder part items hspot]
      exact overlay_below [] spot
    · rfl

theorem shape_place (hpath : path ≠ []) :
    (dict (place value path items)).shape =
      if (dict items).shape path = some .branch ∧ value.isDict = false then (dict items).shape
      else overlay path value.shape (dict items).shape := by
  induction path, items using place.induct value with
  | case1 => exact absurd rfl hpath
  | case2 items part hkept =>
    rw [place, if_pos hkept, if_pos]
    simpa [any_isDict_iff] using hkept
  | case3 items part hkept =>
    rw [place, if_neg hkept, if_neg, shape_setItems]
    simpa [any_isDict_iff] using hkept
  | case4 part rest items hrest ih =>
    replace ih := ih hrest
    rw [place.eq_3 value items part rest hrest, shape_nestedUnder part items hrest]
    split
    · -- nothing changes within the part, so nothing changes
      rename_i hkept
      rw [if_pos hkept] at ih
      have hpart : (dict items).shape [part] = some .branch := by
        refine shape_eq_branch hrest ?_
        rw [singleton_append, shape_nestedUnder part items hrest, hkept.1]
        exact Option.some_ne_none _
      rw [shape_setItems, ih]
      funext spot
      cases spot with
      | nil => rfl
      | cons key spot =>
        rw [overlay_cons_cons]
        split
        · rename_i hkey
          subst hkey
          refine (overlay_below [] spot).trans ?_
          by_cases hspot : spot = []
          · rw [hspot, hpart]
            rfl
          · exact (shape_nestedUnder key items hspot).symm
        · rfl
    · rename_i hkept
      rw [if_neg hkept] at ih
      exact shape_setItems_nestedUnder ih hrest

/-! ## §3 Runs of keys -/

theorem expandDottedKeys_concat (l : Items) (entry : Key × Val) :
    expandDottedKeys (l ++ [entry]) = mergeKey (expandDottedKeys l) entry := by
  rw [expandDottedKeys, foldl_append]
  rfl

variable {entry : Key × Val}

theorem mergeKey_of_nil (hpath : pathOf entry.1 = []) (result : Items) :
    mergeKey result entry = result := by
  obtain ⟨key | i, value⟩ := entry
  · rw [mergeKey, show partsOf key = [] from hpath, place]
  · cases hpath

theorem int_notMem_partsOf (i : ℤ) (rawKey : String) : Key.int i ∉ partsOf rawKey := by
  simp [partsOf]

variable {l : Items}

theorem shape_int_eq_none {i : ℤ} (hkey : .int i ∉ l.map (·.1)) (rest : List Key) :
    (dict (expandDottedKeys l)).shape (.int i :: rest) = none := by
  induction l using List.reverseRecOn with
  | nil => rfl
  | append_singleton l entry ih =>
    rw [map_append, mem_append, not_or] at hkey
    obtain ⟨key, value⟩ := entry
    rw [expandDottedKeys_concat]
    cases key with
    | int j =>
      have hne : Key.int i ≠ .int j := by simpa using hkey.2
      rw [mergeKey, shape_setItems, overlay_cons_cons, if_neg hne, ih hkey.1]
    | str rawKey =>
      cases hparts : partsOf rawKey with
      | nil => rw [mergeKey, hparts, place, ih hkey.1]
      | cons part parts =>
        have hne : Key.int i ≠ part := fun h =>
          int_notMem_partsOf i rawKey (by rw [hparts, h]; exact mem_cons_self)
        rw [mergeKey, hparts, shape_place (cons_ne_nil part parts)]
        split
        · exact ih hkey.1
        · rw [overlay_cons_cons, if_neg hne, ih hkey.1]

theorem notMem_of_nodup_concat (hnodup : ((l ++ [entry]).map (·.1)).Nodup) :
    entry.1 ∉ l.map (·.1) := by
  rw [map_append, map_singleton, nodup_append] at hnodup
  exact fun hmem => hnodup.2.2 _ hmem _ (mem_singleton_self _) rfl

theorem shape_concat (hkey : entry.1 ∉ l.map (·.1)) (hpath : pathOf entry.1 ≠ []) :
    (dict (expandDottedKeys (l ++ [entry]))).shape =
      if (dict (expandDottedKeys l)).shape (pathOf entry.1) = some .branch ∧
          entry.2.isDict = false
      then (dict (expandDottedKeys l)).shape
      else overlay (pathOf entry.1) entry.2.shape (dict (expandDottedKeys l)).shape := by
  rw [expandDottedKeys_concat]
  obtain ⟨key, value⟩ := entry
  cases key with
  | int i =>
    rw [pathOf, shape_int_eq_none hkey, if_neg (by simp), mergeKey, shape_setItems]
  | str rawKey => exact shape_place hpath

/-- An entry gives a place its shape: the place lies at or below its path, or above it. -/
def Gives (entry : Key × Val) (spot : List Key) (s : Shape Val) : Prop :=
  pathOf entry.1 ≠ [] ∧
    ((∃ rest, spot = pathOf entry.1 ++ rest ∧ entry.2.shape rest = some s) ∨
      ∃ rest, rest ≠ [] ∧ pathOf entry.1 = spot ++ rest ∧ s = .branch)

theorem exists_gives (hnodup : (l.map (·.1)).Nodup) {spot : List Key} (hspot : spot ≠ [])
    {s : Shape Val} (h : (dict (expandDottedKeys l)).shape spot = some s) :
    ∃ entry ∈ l, Gives entry spot s := by
  induction l using List.reverseRecOn with
  | nil =>
    obtain ⟨key, spot, rfl⟩ := exists_cons_of_ne_nil hspot
    cases h
  | append_singleton l entry ih =>
    have hkey := notMem_of_nodup_concat hnodup
    rw [map_append, nodup_append] at hnodup
    have hbefore (h : (dict (expandDottedKeys l)).shape spot = some s) :
        ∃ entry' ∈ l ++ [entry], Gives entry' spot s := by
      obtain ⟨entry', hmem, hgives⟩ := ih hnodup.1 h
      exact ⟨entry', mem_append_left _ hmem, hgives⟩
    by_cases hpath : pathOf entry.1 = []
    · rw [expandDottedKeys_concat, mergeKey_of_nil hpath] at h
      exact hbefore h
    · rw [shape_concat hkey hpath] at h
      split at h
      · exact hbefore h
      · have hlast : entry ∈ l ++ [entry] := mem_append_right _ (mem_singleton_self _)
        obtain ⟨rest, hrest, heq⟩ | ⟨rest, hne, hrest, heq⟩ | heq :=
          overlay_cases entry.2.shape (dict (expandDottedKeys l)).shape (pathOf entry.1) spot
        · exact ⟨entry, hlast, hpath, .inl ⟨rest, hrest, heq ▸ h⟩⟩
        · rw [heq, Option.some.injEq] at h
          exact ⟨entry, hlast, hpath, .inr ⟨rest, hne, hrest, h.symm⟩⟩
        · exact hbefore (heq ▸ h)

end Ace3.Query
