import Ace3.Lib.OrderedDict
import Mathlib.Data.List.Sort

/-!
# Nested Containers

Values that are built from atoms by lists and dictionaries, as a parser of JSON or YAML returns
them, over any type of keys and of atoms. A path of keys leads through dictionaries only; what lies
at the paths is the shape of a value, and two values of one shape are equal as dictionaries.
-/

namespace Ace3.Lib

open List

/-! ## §1 Values -/

inductive Nested (κ α : Type*) where
  | atom (a : α)
  | list (items : List (Nested κ α))
  | dict (items : List (κ × Nested κ α))
  deriving Inhabited

namespace Nested

variable {κ α : Type*}

def isList : Nested κ α → Bool
  | list _ => true
  | _ => false

def isDict : Nested κ α → Bool
  | dict _ => true
  | _ => false

theorem exists_of_isDict {v : Nested κ α} (h : v.isDict = true) : ∃ items, v = dict items := by
  cases v with
  | dict items => exact ⟨items, rfl⟩
  | atom _ | list _ => cases h

/-- What lies at a path: a dictionary, whose content lies at longer paths, or another value. -/
inductive Shape (β : Type*) where
  | branch
  | plain (v : β)
  deriving DecidableEq

def top (v : Nested κ α) : Shape (Nested κ α) := if v.isDict then .branch else .plain v

theorem top_eq_branch_iff {v : Nested κ α} : v.top = .branch ↔ v.isDict = true := by
  unfold top
  split <;> simp_all

theorem top_of_not_isDict {v : Nested κ α} (h : v.isDict = false) : v.top = .plain v := by
  rw [top, h]
  rfl

section Decidable

variable [DecidableEq κ] [DecidableEq α]

mutual

def decEq : (v w : Nested κ α) → Decidable (v = w)
  | atom a, atom b => decidable_of_iff (a = b) (by rw [atom.injEq])
  | list items, list others =>
    match decEqList items others with
    | isTrue h => isTrue (by rw [h])
    | isFalse h => isFalse fun heq => h (list.inj heq)
  | dict items, dict others =>
    match decEqDict items others with
    | isTrue h => isTrue (by rw [h])
    | isFalse h => isFalse fun heq => h (dict.inj heq)
  | atom _, list _ | atom _, dict _ | list _, atom _ | list _, dict _ | dict _, atom _
  | dict _, list _ => isFalse nofun

def decEqList : (items others : List (Nested κ α)) → Decidable (items = others)
  | [], [] => isTrue rfl
  | v :: items, w :: others =>
    match decEq v w, decEqList items others with
    | isTrue h, isTrue h' => isTrue (by rw [h, h'])
    | isFalse h, _ => isFalse fun heq => h (List.cons.inj heq).1
    | _, isFalse h' => isFalse fun heq => h' (List.cons.inj heq).2
  | [], _ :: _ | _ :: _, [] => isFalse nofun

def decEqDict : (items others : List (κ × Nested κ α)) → Decidable (items = others)
  | [], [] => isTrue rfl
  | (key, v) :: items, (key', w) :: others =>
    match inferInstanceAs (Decidable (key = key')), decEq v w, decEqDict items others with
    | isTrue hkey, isTrue h, isTrue h' => isTrue (by rw [hkey, h, h'])
    | isFalse hkey, _, _ => isFalse fun heq => hkey (Prod.mk.inj (List.cons.inj heq).1).1
    | _, isFalse h, _ => isFalse fun heq => h (Prod.mk.inj (List.cons.inj heq).1).2
    | _, _, isFalse h' => isFalse fun heq => h' (List.cons.inj heq).2
  | [], _ :: _ | _ :: _, [] => isFalse nofun

end

instance : DecidableEq (Nested κ α) := decEq

end Decidable

/-! ## §2 Paths -/

variable [DecidableEq κ]

/-- `v[k₁][k₂]…` through dictionaries. -/
def find : List κ → Nested κ α → Option (Nested κ α)
  | [], v => some v
  | key :: path, dict items => (items.lookup key).bind (find path)
  | _ :: _, atom _ => none
  | _ :: _, list _ => none

variable {v w : Nested κ α} {path rest : List κ} {key : κ}

@[simp] theorem find_nil (v : Nested κ α) : find [] v = some v := by
  cases v <;> rfl

@[simp] theorem find_dict (key : κ) (path : List κ) (items : List (κ × Nested κ α)) :
    find (key :: path) (dict items) = (items.lookup key).bind (find path) := rfl

theorem find_of_not_isDict (hpath : path ≠ []) (h : v.isDict = false) : find path v = none := by
  cases path with
  | nil => exact absurd rfl hpath
  | cons key path =>
    cases v with
    | atom _ | list _ => rfl
    | dict _ => cases h

theorem find_append (path rest : List κ) (v : Nested κ α) :
    find (path ++ rest) v = (find path v).bind (find rest) := by
  induction path generalizing v with
  | nil => simp
  | cons key path ih =>
    cases v with
    | atom _ | list _ => rfl
    | dict items =>
      rw [cons_append, find_dict, find_dict, Option.bind_assoc]
      exact congrArg _ (funext ih)

/-! ## §3 Shapes -/

def shape (v : Nested κ α) (path : List κ) : Option (Shape (Nested κ α)) := (find path v).map top

@[simp] theorem shape_nil (v : Nested κ α) : v.shape [] = some v.top := by
  simp [shape]

theorem shape_dict (key : κ) (path : List κ) (items : List (κ × Nested κ α)) :
    (dict items).shape (key :: path) = (items.lookup key).bind fun v => v.shape path := by
  rw [shape, find_dict, Option.map_bind]
  rfl

theorem shape_of_not_isDict (hpath : path ≠ []) (h : v.isDict = false) : v.shape path = none := by
  rw [shape, find_of_not_isDict hpath h, Option.map_none]

theorem shape_append (path rest : List κ) (v : Nested κ α) :
    v.shape (path ++ rest) = (find path v).bind fun w => w.shape rest := by
  rw [shape, find_append, Option.map_bind]
  rfl

theorem shape_eq_branch (hrest : rest ≠ []) (h : v.shape (path ++ rest) ≠ none) :
    v.shape path = some .branch := by
  rw [shape_append] at h
  cases hfind : find path v with
  | none => exact absurd (by rw [hfind]; rfl) h
  | some w =>
    rw [hfind] at h
    rw [shape, hfind, Option.map_some, top_eq_branch_iff.mpr]
    by_contra hdict
    exact h (shape_of_not_isDict hrest (Bool.eq_false_iff.mpr hdict))

theorem shape_eq_none {u : Nested κ α} (hrest : rest ≠ []) (h : v.shape path = some (.plain u)) :
    v.shape (path ++ rest) = none := by
  by_contra hnone
  rw [shape_eq_branch hrest hnone] at h
  cases h

/-! ## §4 Overlays -/

/-- The shape with another one in the place of what lies at the path, and dictionaries above. -/
def overlay (path : List κ) (new : List κ → Option (Shape (Nested κ α)))
    (old : List κ → Option (Shape (Nested κ α))) (place : List κ) :
    Option (Shape (Nested κ α)) :=
  if path <+: place then new (place.drop path.length)
  else if place <+: path then some .branch
  else old place

variable {new old : List κ → Option (Shape (Nested κ α))} {place : List κ}

theorem overlay_below (path rest : List κ) : overlay path new old (path ++ rest) = new rest := by
  rw [overlay, if_pos (prefix_append path rest), drop_left]

theorem overlay_at (path : List κ) : overlay path new old path = new [] := by
  rw [overlay, if_pos prefix_rfl, drop_length]

theorem overlay_above (hrest : rest ≠ []) : overlay (path ++ rest) new old path = some .branch := by
  rw [overlay, if_neg, if_pos (prefix_append path rest)]
  intro h
  have hlength := h.length_le
  rw [length_append] at hlength
  exact hrest (length_eq_zero_iff.mp (by omega))

theorem overlay_beside (hbelow : ¬ path <+: place) (habove : ¬ place <+: path) :
    overlay path new old place = old place := by
  rw [overlay, if_neg hbelow, if_neg habove]

theorem overlay_cases (new old : List κ → Option (Shape (Nested κ α))) (path place : List κ) :
    (∃ rest, place = path ++ rest ∧ overlay path new old place = new rest) ∨
      (∃ rest, rest ≠ [] ∧ path = place ++ rest ∧ overlay path new old place = some .branch) ∨
      overlay path new old place = old place := by
  by_cases hbelow : path <+: place
  · obtain ⟨rest, rfl⟩ := hbelow
    exact .inl ⟨rest, rfl, overlay_below path rest⟩
  · by_cases habove : place <+: path
    · obtain ⟨rest, rfl⟩ := habove
      have hrest : rest ≠ [] := fun h => hbelow (by simp [h])
      exact .inr (.inl ⟨rest, hrest, rfl, overlay_above hrest⟩)
    · exact .inr (.inr (overlay_beside hbelow habove))

@[simp] theorem overlay_cons_nil (key : κ) (path : List κ) :
    overlay (key :: path) new old [] = some .branch :=
  show overlay ([] ++ (key :: path)) new old [] = some .branch from
    overlay_above (cons_ne_nil key path)

theorem overlay_cons_cons (key key' : κ) (path place : List κ) :
    overlay (key :: path) new old (key' :: place) =
      if key' = key then overlay path new (fun place => old (key :: place)) place
      else old (key' :: place) := by
  by_cases hkey : key' = key
  · subst hkey
    simp [overlay]
  · have hkey' : key ≠ key' := fun h => hkey h.symm
    simp [overlay, hkey, hkey']

theorem overlay_congr {old' : List κ → Option (Shape (Nested κ α))} (hpath : path ≠ [])
    (h : ∀ place, place ≠ [] → old place = old' place) :
    overlay path new old = overlay path new old' := by
  funext place
  cases place with
  | nil =>
    obtain ⟨key, path, rfl⟩ := exists_cons_of_ne_nil hpath
    rw [overlay_cons_nil, overlay_cons_nil]
  | cons key place =>
    unfold overlay
    rw [h _ (cons_ne_nil key place)]

end Nested

end Ace3.Lib

namespace Ace3.Lib.Nested

open List OrderedDict

variable {κ α β V : Type*} [LinearOrder κ]

/-!
## §5 Sorted items

The order of the items of dictionaries does not matter to equality, and atoms may be equal without
being the same. Values are equal when they have one canonical form, with classes for atoms and the
items in the order of their keys.
-/

def sortItems (items : List (κ × V)) : List (κ × V) := items.insertionSort (·.1 ≤ ·.1)

theorem lookup_orderedInsert (key : κ) (item : κ × V) (items : List (κ × V)) :
    (items.orderedInsert (·.1 ≤ ·.1) item).lookup key = (item :: items).lookup key := by
  induction items with
  | nil => rfl
  | cons other items ih =>
    obtain ⟨k, v⟩ := item
    obtain ⟨k', v'⟩ := other
    rw [orderedInsert_cons]
    split
    · rfl
    next hle =>
      -- the new item comes after one with a smaller key
      rw [lookup_cons_ite, ih, lookup_cons_ite,
        lookup_cons_ite, lookup_cons_ite]
      by_cases hk : key = k
      · have hne : key ≠ k' := fun h => hle (hk ▸ h ▸ le_refl _)
        rw [if_pos hk, if_neg hne, if_pos hk]
      · rw [if_neg hk, if_neg hk]

theorem lookup_sortItems (key : κ) (items : List (κ × V)) :
    (sortItems items).lookup key = items.lookup key := by
  induction items with
  | nil => rfl
  | cons item items ih =>
    obtain ⟨k, v⟩ := item
    rw [sortItems, insertionSort_cons, lookup_orderedInsert, lookup_cons_ite,
      lookup_cons_ite, ← ih]
    rfl

/-! ## §6 Canonical forms -/

mutual

/-- The value up to the order of items and the equality of atoms, whose classes are given. -/
def canon (cls : α → β) : Nested κ α → Nested κ β
  | atom a => atom (cls a)
  | list items => list (canonList cls items)
  | dict items => dict (sortItems (canonItems cls items))

def canonList (cls : α → β) : List (Nested κ α) → List (Nested κ β)
  | [] => []
  | v :: items => canon cls v :: canonList cls items

def canonItems (cls : α → β) : List (κ × Nested κ α) → List (κ × Nested κ β)
  | [] => []
  | (key, v) :: items => (key, canon cls v) :: canonItems cls items

end

variable {cls : α → β}

theorem canonList_eq (items : List (Nested κ α)) : canonList cls items = items.map (canon cls) := by
  induction items with
  | nil => rw [canonList, map_nil]
  | cons v items ih => rw [canonList, ih, map_cons]

theorem canonItems_eq (items : List (κ × Nested κ α)) :
    canonItems cls items = items.map fun item => (item.1, canon cls item.2) := by
  induction items with
  | nil => rw [canonItems, map_nil]
  | cons item items ih => rw [canonItems, ih, map_cons]

theorem lookup_canonItems (key : κ) (items : List (κ × Nested κ α)) :
    (canonItems cls items).lookup key = (items.lookup key).map (canon cls) := by
  induction items with
  | nil => rw [canonItems, lookup_nil, lookup_nil, Option.map_none]
  | cons item items ih =>
    obtain ⟨k, v⟩ := item
    rw [canonItems, lookup_cons_ite, lookup_cons_ite, ih]
    split <;> rfl

theorem lookup_of_canon {items others : List (κ × Nested κ α)}
    (h : canon cls (dict items) = canon cls (dict others)) (key : κ) :
    (items.lookup key).map (canon cls) = (others.lookup key).map (canon cls) := by
  have hsorted := dict.inj h
  rw [← lookup_canonItems, ← lookup_sortItems, hsorted, lookup_sortItems, lookup_canonItems]

end Ace3.Lib.Nested
