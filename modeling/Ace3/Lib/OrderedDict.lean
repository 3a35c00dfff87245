import Mathlib.Data.List.Nodup

/-!
# Dictionaries in the Order of Insertion

A dictionary is a list of items whose keys are distinct, which it carries a proof of. Setting a key
that is there replaces its value in place; a new key comes last.
-/

namespace Ace3.Lib

open List

/-- The items of a dictionary, of which no two have the same key. -/
structure OrderedDict (κ β : Type*) where
  items : List (κ × β)
  nodup : (items.map (·.1)).Nodup

namespace OrderedDict

variable {κ β : Type*} [DecidableEq κ]

/-! ## §1 Operations -/

/-- `{}`. -/
def empty : OrderedDict κ β := ⟨[], nodup_nil⟩

def keys (d : OrderedDict κ β) : List κ := d.items.map (·.1)

def get? (d : OrderedDict κ β) (key : κ) : Option β := d.items.lookup key

def setItems (key : κ) (value : β) : List (κ × β) → List (κ × β)
  | [] => [(key, value)]
  | item :: items =>
    if item.1 = key then (key, value) :: items else item :: setItems key value items

theorem keys_setItems (key : κ) (value : β) (items : List (κ × β)) :
    (setItems key value items).map (·.1) =
      if key ∈ items.map (·.1) then items.map (·.1) else items.map (·.1) ++ [key] := by
  induction items with
  | nil => rfl
  | cons item items ih =>
    rw [setItems]
    by_cases hkey : item.1 = key
    · simp [hkey]
    · have hne : key ≠ item.1 := fun h => hkey h.symm
      rw [if_neg hkey, map_cons, ih]
      by_cases hmem : key ∈ items.map (·.1) <;> simp [hmem, hne]

def set (d : OrderedDict κ β) (key : κ) (value : β) : OrderedDict κ β where
  items := setItems key value d.items
  nodup := by
    rw [keys_setItems]
    split
    · exact d.nodup
    · rename_i hkey
      exact nodup_append.mpr ⟨d.nodup, nodup_singleton key, fun a ha b hb hab =>
        hkey (mem_singleton.mp hb ▸ hab ▸ ha)⟩

/-! ## §2 Lookups -/

@[simp] theorem get?_empty (key : κ) : (empty : OrderedDict κ β).get? key = none := rfl

theorem lookup_cons_ite (key k : κ) (v : β) (items : List (κ × β)) :
    ((k, v) :: items).lookup key = if key = k then some v else items.lookup key := by
  by_cases h : key = k
  · simp [h]
  · rw [lookup_cons, beq_false_of_ne h, if_neg h]

theorem lookup_setItems (key key' : κ) (value : β) (items : List (κ × β)) :
    (setItems key value items).lookup key' =
      if key' = key then some value else items.lookup key' := by
  induction items with
  | nil => rw [setItems, lookup_cons_ite]
  | cons item items ih =>
    obtain ⟨k, v⟩ := item
    rw [setItems]
    by_cases hk : k = key
    · subst hk
      rw [if_pos rfl, lookup_cons_ite, lookup_cons_ite]
      by_cases h : key' = k <;> simp [h]
    · rw [if_neg hk, lookup_cons_ite, lookup_cons_ite, ih]
      by_cases h : key' = k
      · subst h
        rw [if_pos rfl, if_neg hk, if_pos rfl]
      · rw [if_neg h, if_neg h]

theorem get?_set (d : OrderedDict κ β) (key key' : κ) (value : β) :
    (d.set key value).get? key' = if key' = key then some value else d.get? key' :=
  lookup_setItems key key' value d.items

theorem mem_keys_iff {d : OrderedDict κ β} {key : κ} : key ∈ d.keys ↔ (d.get? key).isSome := by
  unfold keys get?
  induction d.items with
  | nil => simp
  | cons item items ih =>
    obtain ⟨k, v⟩ := item
    rw [map_cons, mem_cons, lookup_cons_ite, ih]
    by_cases h : key = k <;> simp [h]

/-! ## §3 Filling a dictionary -/

def fill {α : Type*} (key : α → κ) (value : α → β) (d : OrderedDict κ β) (l : List α) :
    OrderedDict κ β :=
  l.foldl (fun d a => d.set (key a) (value a)) d

theorem get?_fill {α : Type*} (key : α → κ) (value : α → β) (l : List α) (k : κ) :
    (fill key value empty l).get? k = (l.reverse.find? fun a => key a = k).map value := by
  have hfill : ∀ (l : List α) (d : OrderedDict κ β), (fill key value d l).get? k =
      ((l.reverse.find? fun a => key a = k).map value).or (d.get? k) := by
    intro l
    induction l with
    | nil => exact fun d => rfl
    | cons a l ih =>
      intro d
      have hcons : fill key value d (a :: l) = fill key value (d.set (key a) (value a)) l := rfl
      rw [hcons, ih, get?_set, reverse_cons, List.find?_append]
      cases hfind : l.reverse.find? fun a => key a = k with
      | some b => simp
      | none =>
        by_cases ha : k = key a
        · simp [ha]
        · have hne : key a ≠ k := fun h => ha h.symm
          simp [ha, hne]
  rw [hfill, get?_empty, Option.or_none]

/-! ## §4 Comprehensions and equality -/

theorem get?_eq_some_iff {d : OrderedDict κ β} {key : κ} {value : β} :
    d.get? key = some value ↔ (key, value) ∈ d.items := by
  obtain ⟨items, hnodup⟩ := d
  show items.lookup key = some value ↔ (key, value) ∈ items
  induction items with
  | nil => simp
  | cons item items ih =>
    obtain ⟨k, v⟩ := item
    obtain ⟨hk, hnodup⟩ := nodup_cons.mp hnodup
    rw [lookup_cons_ite, mem_cons]
    by_cases h : key = k
    · subst h
      have hnot : (key, value) ∉ items := fun hmem =>
        hk (mem_map.mpr ⟨(key, value), hmem, rfl⟩)
      simp [hnot, eq_comm]
    · simp [h, ih hnodup]

/-- `{key: f(value) for key, value in d.items() if f(value) is not None}`. -/
def filterMap {γ : Type*} (f : β → Option γ) (d : OrderedDict κ β) : OrderedDict κ γ where
  items := d.items.filterMap fun item => (f item.2).map (item.1, ·)
  nodup := by
    have hkeys : (d.items.filterMap fun item => (f item.2).map (item.1, ·)).map (·.1) =
        (d.items.filter fun item => (f item.2).isSome).map (·.1) := by
      induction d.items with
      | nil => rfl
      | cons item items ih => cases hf : f item.2 <;> simp [hf, ih]
    rw [hkeys]
    exact d.nodup.sublist (filter_sublist.map _)

/-- `d == d'`, whatever the order of the items. -/
def Same (d d' : OrderedDict κ β) : Prop := d.items ⊆ d'.items ∧ d'.items ⊆ d.items

instance [DecidableEq β] (d d' : OrderedDict κ β) : Decidable (d.Same d') :=
  inferInstanceAs (Decidable (_ ∧ _))

theorem Same.get?_eq {d d' : OrderedDict κ β} (h : d.Same d') (key : κ) :
    d.get? key = d'.get? key := by
  ext value
  rw [get?_eq_some_iff, get?_eq_some_iff]
  exact ⟨fun hmem => h.1 hmem, fun hmem => h.2 hmem⟩

end OrderedDict

end Ace3.Lib
