import Mathlib.Data.List.Basic
import Ace3.Lib.FileSystem

/-!
# Hunt Packages

What the hunt compiler reads: files below a package root, YAML documents, and query texts with
`<include:path>` markers.
-/

namespace Ace3.HuntCompiler

open Lib.FileSystem

abbrev Text := List Char

/-! ## §1 Files -/

/-- The bytes of a file: the text they encode, if they are UTF-8. -/
inductive FileBytes where
  | utf8 (text : Text)
  | binary (bytes : Bytes)
  deriving DecidableEq

structure SourceFile where
  bytes : FileBytes
  permissions : Nat
  deriving DecidableEq

abbrev SourceTree := List (Location × SourceFile)

/-- The file at a location, if `os.path.isfile`. -/
def SourceTree.file? (tree : SourceTree) (location : Location) : Option SourceFile :=
  (tree.find? (·.1 = location)).map (·.2)

def universalNewlines : Text → Text
  | '\r' :: '\n' :: text => '\n' :: universalNewlines text
  | '\r' :: text => '\n' :: universalNewlines text
  | letter :: text => letter :: universalNewlines text
  | [] => []

/-- `open(path, "r", encoding="utf-8").read()`, if it does not raise. -/
def SourceTree.readText (tree : SourceTree) (location : Location) : Option Text :=
  match tree.file? location with
  | some ⟨.utf8 text, _⟩ => some (universalNewlines text)
  | _ => none

/-! ## §2 Paths -/

def authoredPath (path : Text) : PathString :=
  (path.splitOn '/').map String.ofList

def absRelativeTo (path : Text) (baseDir : Location) : Location :=
  Location.resolve baseDir (authoredPath path)

/-- `os.path.relpath` of a location from the package root. -/
def packagedRel (packageRoot location : Location) : PathString :=
  match Location.relative packageRoot location with
  | [] => ["."]
  | way => way

/-- `_is_under`: the relative path does not begin with two dots. -/
def isUnder (location packageRoot : Location) : Bool :=
  !(packagedRel packageRoot location).startsWith [".."]

def renderPath (path : PathString) : Text :=
  ['/'].intercalate (path.map String.toList)

def absText (location : Location) : Text :=
  '/' :: renderPath (location.map (·.val))

abbrev dirname (location : Location) : Location := location.dropLast

/-! ## §3 Documents -/

/-- The key of a mapping; a key that is no string is given by its representation. -/
inductive YamlKey where
  | str (text : Text)
  | other (repr : String)
  deriving DecidableEq

def YamlKey.Lacks (word : Text) : YamlKey → Prop
  | .str text => ¬ word <:+: text
  | .other _ => True

/-- A document; `scalar` is null, a boolean, a number or a date, with its truth value. -/
inductive Yaml where
  | scalar (repr : String) (truthy : Bool)
  | str (text : Text)
  | seq (items : List Yaml)
  | map (entries : List (YamlKey × Yaml))

abbrev YamlMap := List (YamlKey × Yaml)

/-- `bool(value)`. -/
def Yaml.truthy : Yaml → Bool
  | .scalar _ truthy => truthy
  | .str text => text ≠ []
  | .seq items => !items.isEmpty
  | .map entries => !entries.isEmpty

namespace YamlMap

def get (entries : YamlMap) (key : String) : Option Yaml :=
  entries.lookup (.str key.toList)

def set (entries : YamlMap) (key : String) (value : Yaml) : YamlMap :=
  entries.map fun entry => if entry.1 = .str key.toList then (entry.1, value) else entry

end YamlMap

namespace Yaml

mutual

def mapText (change : Text → Text) : Yaml → Yaml
  | scalar repr truthy => scalar repr truthy
  | str text => str (change text)
  | seq items => seq (mapTexts change items)
  | map entries => map (mapTextEntries change entries)

def mapTexts (change : Text → Text) : List Yaml → List Yaml
  | [] => []
  | value :: items => mapText change value :: mapTexts change items

def mapTextEntries (change : Text → Text) : YamlMap → YamlMap
  | [] => []
  | (key, value) :: entries => (key, mapText change value) :: mapTextEntries change entries

end

mutual

/-- No string of the document has the word in it, be it a key or a value. -/
def Lacks (word : Text) : Yaml → Prop
  | scalar _ _ => True
  | str text => ¬ word <:+: text
  | seq items => LacksAll word items
  | map entries => LacksEntries word entries

def LacksAll (word : Text) : List Yaml → Prop
  | [] => True
  | value :: items => Lacks word value ∧ LacksAll word items

def LacksEntries (word : Text) : YamlMap → Prop
  | [] => True
  | (key, value) :: entries => key.Lacks word ∧ Lacks word value ∧ LacksEntries word entries

end

instance decidableKeyLacks (word : Text) : (key : YamlKey) → Decidable (key.Lacks word)
  | .str text => inferInstanceAs (Decidable (¬ word <:+: text))
  | .other _ => isTrue trivial

mutual

instance decidableLacks (word : Text) : (value : Yaml) → Decidable (value.Lacks word)
  | scalar _ _ => isTrue trivial
  | str text => inferInstanceAs (Decidable (¬ word <:+: text))
  | seq items => decidableLacksAll word items
  | map entries => decidableLacksEntries word entries

instance decidableLacksAll (word : Text) : (items : List Yaml) → Decidable (LacksAll word items)
  | [] => isTrue trivial
  | value :: items =>
    have := decidableLacks word value
    have := decidableLacksAll word items
    inferInstanceAs (Decidable (Lacks word value ∧ LacksAll word items))

instance decidableLacksEntries (word : Text) :
    (entries : YamlMap) → Decidable (LacksEntries word entries)
  | [] => isTrue trivial
  | (key, value) :: entries =>
    have := decidableLacks word value
    have := decidableLacksEntries word entries
    inferInstanceAs (Decidable (key.Lacks word ∧ Lacks word value ∧ LacksEntries word entries))

end

end Yaml

/-- `yaml.safe_load`, if it does not raise, and `yaml.safe_dump`. -/
structure YamlLibrary where
  safeLoad : Text → Option Yaml
  safeDump : Yaml → Text

/-! ## §4 Include markers -/

def markerStart : Text := "<include:".toList

/-- A letter of a query, or a marker with its path. -/
inductive QueryPiece where
  | letter (sign : Char)
  | marker (authored : Text)
  deriving DecidableEq

/-- The path of the marker the text begins with: `<include:([^>]+)>`. -/
def markerAt (text : Text) : Option Text :=
  let authored := (text.drop markerStart.length).takeWhile (· ≠ '>')
  if markerStart <+: text ∧ authored ≠ [] ∧
      markerStart.length + authored.length < text.length then
    some authored
  else none

/-- The pieces of a text of which the first letters still belong to a marker. -/
def queryPiecesFrom : Nat → Text → List QueryPiece
  | _, [] => []
  | skip + 1, _ :: text => queryPiecesFrom skip text
  | 0, letter :: text =>
    match markerAt (letter :: text) with
    | some authored =>
      .marker authored :: queryPiecesFrom (markerStart.length + authored.length) text
    | none => .letter letter :: queryPiecesFrom 0 text

/-- The markers of a query and the letters between them, from left to right. -/
def queryPieces (text : Text) : List QueryPiece := queryPiecesFrom 0 text

def QueryPiece.render (spell : Text → Text) : QueryPiece → Text
  | .letter sign => [sign]
  | .marker authored => markerStart ++ spell authored ++ ['>']

end Ace3.HuntCompiler
