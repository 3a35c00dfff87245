import Ace3.Lib.FallibleMap
import Mathlib.Data.List.Basic

/-!
# JSON Values and Dictionaries

Values as a JSON serializer with a fallback sees them, and what is read back from its output.
A dictionary is the list of its items; equality of dictionaries does not see an order, so the
order of the items is kept where a serializer may sort them.
-/

namespace Ace3.Lib.Json

open List

/-! ## §1 Values -/

/-- `other v` is a value that JSON does not have and that is written as `v`. -/
inductive Value where
  | null
  | bool (b : Bool)
  | int (i : Int)
  /-- A float, by its shortest representation. -/
  | float (repr : String)
  | str (s : String)
  | list (items : List Value)
  | dict (items : List (String × Value))
  | other (written : Value)
  deriving Inhabited

abbrev Dict := List (String × Value)

namespace Value

mutual

def reload : Value → Value
  | list items => list (reloadList items)
  | dict items => dict (reloadDict items)
  | other written => reload written
  | null => null
  | bool b => bool b
  | int i => int i
  | float repr => float repr
  | str s => str s

def reloadList : List Value → List Value
  | [] => []
  | value :: items => reload value :: reloadList items

def reloadDict : Dict → Dict
  | [] => []
  | (key, value) :: items => (key, reload value) :: reloadDict items

end

mutual

def isJson : Value → Bool
  | list items => isJsonList items
  | dict items => isJsonDict items
  | other _ => false
  | null | bool _ | int _ | float _ | str _ => true

def isJsonList : List Value → Bool
  | [] => true
  | value :: items => isJson value && isJsonList items

def isJsonDict : Dict → Bool
  | [] => true
  | (_, value) :: items => isJson value && isJsonDict items

end

mutual

theorem isJson_reload : ∀ value : Value, value.reload.isJson = true
  | list items => by simp only [reload, isJson, isJsonList_reloadList items]
  | dict items => by simp only [reload, isJson, isJsonDict_reloadDict items]
  | other written => by simp only [reload, isJson_reload written]
  | null | bool _ | int _ | float _ | str _ => rfl

theorem isJsonList_reloadList : ∀ items : List Value, isJsonList (reloadList items) = true
  | [] => rfl
  | value :: items => by
    simp only [reloadList, isJsonList, isJson_reload value, isJsonList_reloadList items,
      Bool.and_self]

theorem isJsonDict_reloadDict : ∀ items : Dict, isJsonDict (reloadDict items) = true
  | [] => rfl
  | (_, value) :: items => by
    simp only [reloadDict, isJsonDict, isJson_reload value, isJsonDict_reloadDict items,
      Bool.and_self]

end

mutual

theorem reload_of_isJson : ∀ value : Value, value.isJson = true → value.reload = value
  | list items, h => by simp only [reload, reloadList_of_isJsonList items h]
  | dict items, h => by simp only [reload, reloadDict_of_isJsonDict items h]
  | other _, h => by cases h
  | null, _ | bool _, _ | int _, _ | float _, _ | str _, _ => rfl

theorem reloadList_of_isJsonList :
    ∀ items : List Value, isJsonList items = true → reloadList items = items
  | [], _ => rfl
  | value :: items, h => by
    obtain ⟨hvalue, hitems⟩ := Bool.and_eq_true_iff.mp h
    simp only [reloadList, reload_of_isJson value hvalue, reloadList_of_isJsonList items hitems]

theorem reloadDict_of_isJsonDict :
    ∀ items : Dict, isJsonDict items = true → reloadDict items = items
  | [], _ => rfl
  | (_, value) :: items, h => by
    obtain ⟨hvalue, hitems⟩ := Bool.and_eq_true_iff.mp h
    simp only [reloadDict, reload_of_isJson value hvalue, reloadDict_of_isJsonDict items hitems]

end

theorem reload_eq_self_iff {value : Value} : value.reload = value ↔ value.isJson = true :=
  ⟨fun h => h ▸ isJson_reload value, reload_of_isJson value⟩

theorem reloadDict_eq_self_iff {items : Dict} :
    reloadDict items = items ↔ isJsonDict items = true :=
  ⟨fun h => h ▸ isJsonDict_reloadDict items, reloadDict_of_isJsonDict items⟩

theorem reloadList_eq_map (items : List Value) : reloadList items = items.map reload := by
  induction items with
  | nil => rfl
  | cons value items ih => simp only [reloadList, map_cons, ih]

theorem reloadDict_eq_map (items : Dict) :
    reloadDict items = items.map fun item => (item.1, item.2.reload) := by
  induction items with
  | nil => rfl
  | cons item items ih => simp only [reloadDict, map_cons, ih]

/-- The truth value of a Python value; what JSON does not have counts as true. -/
def truthy : Value → Bool
  | null => false
  | bool b => b
  | int i => i ≠ 0
  | float repr => repr ≠ "0.0" ∧ repr ≠ "-0.0"
  | str s => s ≠ ""
  | list items => !items.isEmpty
  | dict items => !items.isEmpty
  | other _ => true

end Value

/-! ## §2 Items -/

namespace Dict

def get (key : String) : Dict → Option Value
  | [] => none
  | (key', value) :: items => if key = key' then some value else get key items

def set (key : String) (value : Value) : Dict → Dict
  | [] => [(key, value)]
  | (key', value') :: items =>
    if key = key' then (key', value) :: items else (key', value') :: set key value items

@[simp] theorem get_nil (key : String) : get key [] = none := rfl

theorem get_cons (key key' : String) (value : Value) (items : Dict) :
    get key ((key', value) :: items) = if key = key' then some value else get key items := rfl

theorem get_set (key key' : String) (value : Value) (items : Dict) :
    get key' (set key value items) = if key' = key then some value else get key' items := by
  induction items with
  | nil => rfl
  | cons item items ih =>
    obtain ⟨first, old⟩ := item
    by_cases hset : key = first
    · subst hset
      by_cases hget : key' = key <;> simp [set, get, hget]
    · by_cases hget : key' = first
      · subst hget
        simp [set, get, hset, Ne.symm hset]
      · simp [set, get, hset, hget, ih]

theorem set_of_get {key : String} {value : Value} {items : Dict}
    (h : get key items = some value) : set key value items = items := by
  induction items with
  | nil => cases h
  | cons item items ih =>
    obtain ⟨key', value'⟩ := item
    by_cases hkey : key = key'
    · obtain rfl : value' = value := by simpa [get, hkey] using h
      simp [set, hkey]
    · simp only [get, if_neg hkey] at h
      simp only [set, if_neg hkey, ih h]

theorem set_set (key : String) (value new : Value) (items : Dict) :
    set key value (set key new items) = set key value items := by
  induction items with
  | nil => simp [set]
  | cons item items ih =>
    obtain ⟨key', value'⟩ := item
    by_cases hkey : key = key'
    · simp [set, hkey]
    · simp only [set, if_neg hkey, ih]

theorem get_reloadDict (key : String) (items : Dict) :
    get key (Value.reloadDict items) = (get key items).map Value.reload := by
  induction items with
  | nil => rfl
  | cons item items ih =>
    obtain ⟨key', value⟩ := item
    simp only [Value.reloadDict, get, ih]
    split <;> rfl

theorem reloadDict_set (key : String) (value : Value) (items : Dict) :
    Value.reloadDict (set key value items) = set key value.reload (Value.reloadDict items) := by
  induction items with
  | nil => rfl
  | cons item items ih =>
    obtain ⟨key', value'⟩ := item
    simp only [Value.reloadDict, set]
    split
    · rfl
    · simp only [Value.reloadDict, ih]

/-! ## §3 Optional fields and lists -/

/-- A dictionary that is built field by field; a field without a value is left out. -/
def ofFields (fields : List (String × Option Value)) : Dict :=
  fields.filterMap fun field => field.2.map (field.1, ·)

@[simp] theorem get_ofFields_nil (key : String) : get key (ofFields []) = none := rfl

theorem get_ofFields_cons (key key' : String) (value : Option Value)
    (fields : List (String × Option Value)) :
    get key (ofFields ((key', value) :: fields)) =
      if key = key' then value.or (get key (ofFields fields)) else get key (ofFields fields) := by
  cases value with
  | none => simp [ofFields]
  | some value => rfl

end Dict

def listField {α : Type*} (encode : α → Value) (items : List α) : Option Value :=
  if items.isEmpty then none else some (.list (items.map encode))

/-- The list behind `d.get(key, [])`, with items of one kind. -/
def listOf {α : Type*} (decode : Value → Option α) : Option Value → Option (List α)
  | none => some []
  | some (.list items) => items.mapM decode
  | some _ => none

theorem listOf_reload {α : Type*} {decode : Value → Option α} {encode : α → Value}
    {reload : α → α} (hitem : ∀ item, decode (encode item).reload = some (reload item))
    (items : List α) :
    listOf decode ((listField encode items).map Value.reload) = some (items.map reload) := by
  cases items with
  | nil => rfl
  | cons item items =>
    simp only [listField, isEmpty_cons, Bool.false_eq_true, if_false, Option.map_some,
      Value.reload, Value.reloadList_eq_map, map_map, listOf, mapM_map]
    exact FallibleMap.mapM_eq_some_map hitem (item :: items)

/-!
## §4 Text

What Python's `str` and `repr` give for a value. The quoting of strings is a parameter.
-/

namespace Value

variable (quote : String → String)

mutual

def repr : Value → String
  | null => "None"
  | bool b => if b then "True" else "False"
  | int i => toString i
  | float text => text
  | str s => quote s
  | list items => "[" ++ ", ".intercalate (reprList items) ++ "]"
  | dict items => "\x7b" ++ ", ".intercalate (reprDict items) ++ "\x7d"
  | other written => repr written

def reprList : List Value → List String
  | [] => []
  | value :: items => repr value :: reprList items

def reprDict : Dict → List String
  | [] => []
  | (key, value) :: items => (quote key ++ ": " ++ repr value) :: reprDict items

end

def text : Value → String
  | str s => s
  | value => repr quote value

def plainQuote (s : String) : String := "'" ++ s ++ "'"

example : text plainQuote (.list [.str "x", .int 3, .null]) = "['x', 3, None]" := by decide

end Value

/-!
## §5 Routes

How a path of keys leads through nested dictionaries and lists. A route goes under a key of a
dictionary, or to an element of a list; what lies under a key as null is not there.
-/

/-- `d.get(key)`, where null counts as absent. -/
def Dict.present (name : String) (items : Dict) : Option Value :=
  match Dict.get name items with
  | some .null => none
  | found => found

/-- Under a key of a dictionary, or to an element of a list. -/
inductive Hop where
  | key (name : String)
  | item
  deriving DecidableEq

inductive Route : Value → List Hop → Value → Prop
  | here (v : Value) : Route v [] v
  | key {items : Dict} {name : String} {v w : Value} {hops : List Hop}
      (hpresent : Dict.present name items = some v) (h : Route v hops w) :
      Route (.dict items) (.key name :: hops) w
  | item {items : List Value} {v w : Value} {hops : List Hop} (hmem : v ∈ items)
      (h : Route v hops w) : Route (.list items) (.item :: hops) w

def Hop.name? : Hop → Option String
  | .key name => some name
  | .item => none

def keysOf (hops : List Hop) : List String := hops.filterMap Hop.name?

namespace Value

/-- `isinstance(v, list)`. -/
def isList : Value → Bool
  | list _ => true
  | _ => false

/-- `isinstance(v, dict)`. -/
def isDict : Value → Bool
  | dict _ => true
  | _ => false

def isScalar (v : Value) : Bool := !v.isList && !v.isDict

end Value

variable {v w : Value} {hops hops' : List Hop} {name : String} {keys : List String}

@[simp] theorem keysOf_nil : keysOf [] = [] := rfl

@[simp] theorem keysOf_key (name : String) (hops : List Hop) :
    keysOf (.key name :: hops) = name :: keysOf hops := rfl

@[simp] theorem keysOf_item (hops : List Hop) : keysOf (.item :: hops) = keysOf hops := rfl

theorem keysOf_append (hops hops' : List Hop) :
    keysOf (hops ++ hops') = keysOf hops ++ keysOf hops' := List.filterMap_append

theorem route_nil_iff : Route v [] w ↔ w = v := by
  constructor
  · intro h
    cases h
    rfl
  · rintro rfl
    exact .here w

theorem Route.append {u : Value} (h : Route u hops v) (h' : Route v hops' w) :
    Route u (hops ++ hops') w := by
  induction h with
  | here => exact h'
  | key hpresent _ ih => exact .key hpresent (ih h')
  | item hmem _ ih => exact .item hmem (ih h')

theorem Route.exists_of_append {u : Value} (h : Route u (hops ++ hops') w) :
    ∃ v, Route u hops v ∧ Route v hops' w := by
  induction hops generalizing u with
  | nil => exact ⟨u, .here u, h⟩
  | cons hop hops ih =>
    cases h with
    | key hpresent h =>
      obtain ⟨v, hfirst, hrest⟩ := ih h
      exact ⟨v, .key hpresent hfirst, hrest⟩
    | item hmem h =>
      obtain ⟨v, hfirst, hrest⟩ := ih h
      exact ⟨v, .item hmem hfirst, hrest⟩

/-! ## §6 Steps -/

/-- A route of steps, one for each key: under the key, or to an element of a list and there under
the key. -/
inductive Stepped : List String → List Hop → Prop
  | nil : Stepped [] []
  | key (name : String) {keys : List String} {hops : List Hop} (h : Stepped keys hops) :
      Stepped (name :: keys) (.key name :: hops)
  | item (name : String) {keys : List String} {hops : List Hop} (h : Stepped keys hops) :
      Stepped (name :: keys) (.item :: .key name :: hops)

theorem Stepped.keysOf_eq (h : Stepped keys hops) : keysOf hops = keys := by
  induction h with
  | nil => rfl
  | key name _ ih => rw [keysOf_key, ih]
  | item name _ ih => rw [keysOf_item, keysOf_key, ih]

end Ace3.Lib.Json
