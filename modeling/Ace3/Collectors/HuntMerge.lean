import Ace3.Lib.ListMerge
import Ace3.Lib.Nested
import Mathlib.Data.Finset.Dedup
import Mathlib.Data.String.Basic

/-!
# Merging Hunt Configurations

`deep_merge` of `saq/collectors/hunter/loader.py`, on what a YAML file holds. Dictionaries are
merged key by key, a list is merged into a list element by element, and anything else replaces what
was there.
-/

namespace Ace3.Collectors

open Lib Lib.Nested

/-! ## §1 Values -/

/-- A scalar of a YAML file. A float that is an integer is given by the integer. -/
inductive YamlAtom where
  | null
  | bool (b : Bool)
  | int (i : Int)
  | str (s : String)
  /-- Another float, or a date. -/
  | other (text : String)
  deriving DecidableEq

abbrev Yaml := Nested String YamlAtom

abbrev YamlDict := List (String × Yaml)

inductive TypeError where
  | unhashable
  | notIterable
  deriving DecidableEq

namespace YamlAtom

/-- The class of the scalars that are equal to this one. -/
def value : YamlAtom → YamlAtom
  | bool b => int (if b then 1 else 0)
  | a => a

@[simp] theorem value_value (a : YamlAtom) : a.value.value = a.value := by
  cases a <;> rfl

end YamlAtom

/-- The class of the values that are equal to this one. -/
abbrev equalTo (v : Yaml) : Yaml := canon YamlAtom.value v

def truthy : Yaml → Bool
  | .atom .null | .atom (.bool false) => false
  | .atom (.int i) => i ≠ 0
  | .atom (.str s) => s ≠ ""
  | .atom (.bool true) | .atom (.other _) => true
  | .list items => !items.isEmpty
  | .dict items => !items.isEmpty

def hashed : Yaml → Except TypeError YamlAtom
  | .atom a => .ok a.value
  | .list _ | .dict _ => .error .unhashable

/-- What `for x in v` goes through. -/
def iterate : Yaml → Except TypeError (List Yaml)
  | .list items => .ok items
  | .dict items => .ok (items.map fun item => .atom (.str item.1))
  | .atom (.str s) => .ok (s.toList.map fun c => .atom (.str (String.singleton c)))
  | .atom _ => .error .notIterable

def frozenset (v : Yaml) : Except TypeError (Finset YamlAtom) := do
  let items ← iterate v
  let elements ← items.mapM hashed
  return elements.toFinset

/-! ## §2 Identities -/

/-- The key `(type, frozenset(fields))` of an observable mapping. -/
structure MappingIdentity where
  type : YamlAtom
  fields : Finset YamlAtom
  deriving DecidableEq

/-- The identity that is made of the values for `type`, `fields` and `field`. -/
def identityFrom (type fields field : Option Yaml) : Except TypeError (Option MappingIdentity) :=
  match type with
  | none => .ok none
  | some type =>
    -- `fields` takes precedence, and an empty one counts as missing
    match (fields.filter truthy).or ((field.filter truthy).map fun field => .list [field]) with
    | none => .ok none
    | some fields => do
      let fields ← frozenset fields
      let type ← hashed type
      return some ⟨type, fields⟩

/-- `_get_observable_mapping_identity`, with the hash of it that both uses of it take. -/
def getObservableMappingIdentity : Yaml → Except TypeError (Option MappingIdentity)
  | .dict item => identityFrom (item.lookup "type") (item.lookup "fields") (item.lookup "field")
  | .atom _ | .list _ => .ok none

/-! ## §3 The merge -/

/-- `identity_map`: the last index of each identity in the list. -/
def identityMap : (i : Nat) → List Yaml → OrderedDict MappingIdentity Nat →
    Except TypeError (OrderedDict MappingIdentity Nat)
  | _, [], map => .ok map
  | i, existing :: items, map => do
    match ← getObservableMappingIdentity existing with
    | some identity => identityMap (i + 1) items (map.set identity i)
    | none => identityMap (i + 1) items map

def mergeListItem (map : OrderedDict MappingIdentity Nat) (result : List Yaml) (item : Yaml) :
    Except TypeError (List Yaml) := do
  match (← getObservableMappingIdentity item).bind map.get? with
  | some i => return result.set i item
  | none =>
    if result.any fun existing => equalTo existing = equalTo item then return result
    else return result ++ [item]

def mergeList (base items : List Yaml) : Except TypeError (List Yaml) := do
  let map ← identityMap 0 base .empty
  items.foldlM (mergeListItem map) base

mutual

def mergeValue (old : Yaml) : Yaml → Except TypeError Yaml
  | .dict override =>
    match old with
    | .dict base => Nested.dict <$> mergeItems base override
    | .atom _ | .list _ => .ok (.dict override)
  | .list items =>
    match old with
    | .list base => Nested.list <$> mergeList base items
    | .atom _ | .dict _ => .ok (.list items)
  | .atom a => .ok (.atom a)

def mergeItems (result : YamlDict) : YamlDict → Except TypeError YamlDict
  | [] => .ok result
  | (key, value) :: override => do
    let merged ← match result.lookup key with
      | none => .ok value
      | some old => mergeValue old value
    mergeItems (OrderedDict.setItems key merged result) override

end

def deepMerge (base override : YamlDict) : Except TypeError YamlDict := mergeItems base override

end Ace3.Collectors
