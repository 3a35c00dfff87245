import Ace3.EmailArchive.LocalArchive
import Ace3.Query.EventFlattening

/-!
# Field Lookup

A field of an event is looked up by its key, or along a dotted path by glom. A dotted path may have
a wildcard, which goes to every item of a list.
-/

namespace Ace3.Query

open Lib Lib.Nested
open Analysis (isBlank)
open EmailArchive (strip)
open ObservableModifier (splitDots)

/-! ## §1 Specs -/

/-- `field_lookup_type`; every other value than `key` counts as `dot`. -/
inductive LookupType where
  | key
  | dot
  deriving DecidableEq

inductive GlomSpec where
  /-- `Path(*parts)`. -/
  | path (parts : List Key)
  /-- `T`. -/
  | whole
  /-- `[Coalesce(inner, default=SKIP)]`. -/
  | each (inner : GlomSpec)
  /-- `(Path(*before), [Coalesce(inner, default=SKIP)])`. -/
  | eachUnder (before : List Key) (inner : GlomSpec)
  deriving DecidableEq

inductive LookupError where
  | pathAccess
  | other
  deriving DecidableEq

/-- What a lookup uses that is not in the repository. -/
structure Glom where
  /-- `int(part)`, unless it raises. -/
  toInt : String → Option ℤ
  /-- `glom(event, spec)`. -/
  glom : Items → GlomSpec → Except LookupError Val

def wildcard : String := "*"

variable (g : Glom)

def coerce (part : String) : Key :=
  match g.toInt part with
  | some i => .int i
  | none => .str part

/-- `_spec_from_parts`; `before` are the parts since the last wildcard. -/
def specFromParts (before : List Key) : List String → GlomSpec
  | [] => .path before
  | part :: after =>
    if part = wildcard then
      let inner := if after.isEmpty then .whole else specFromParts [] after
      if before.isEmpty then .each inner else .eachUnder before inner
    else specFromParts (before ++ [coerce g part]) after

def buildGlomSpec (path : String) : Option GlomSpec :=
  let parts := (splitDots path).map strip
  if parts.any (· = "") then none else some (specFromParts g [] parts)

/-! ## §2 Lookups -/

/-- `extract_event_value`: the value, unless the field is missing. -/
def extractEventValue (event : Event) (lookupType : LookupType) (fieldPath : String) :
    Except LookupError (Option Val) :=
  match lookupType with
  | .key => .ok (event.get? (.str fieldPath))
  | .dot =>
    match buildGlomSpec g fieldPath with
    | none => .ok none
    | some spec =>
      match g.glom event.items spec with
      | .ok value => .ok (some value)
      | .error .pathAccess => .ok none
      | .error .other => .error .other

/-! ## §3 Missing fields -/

/-- `_is_blank_value`, and `_required_value_is_empty`, which differ in types that an event does not
have. -/
def isBlankValue : Val → Bool
  | .atom .null => true
  | .atom (.str s) => isBlank s
  | .list items => items.isEmpty
  | .dict items => items.isEmpty
  | .atom _ => false

def isFieldPresent (event : Event) (lookupType : LookupType) (fieldName : String) :
    Except LookupError Bool :=
  (extractEventValue g event lookupType fieldName).map fun
    | some value => !isBlankValue value
    | none => false

def eventHasRequiredFields (event : Event) (requiredFields : List String) : Bool :=
  requiredFields.all fun fieldSpec =>
    match event.get? (.str fieldSpec) with
    | some value => !isBlankValue value
    | none => false

end Ace3.Query
