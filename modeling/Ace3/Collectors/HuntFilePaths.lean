import Ace3.Collectors.HuntMerge
import Mathlib.Data.List.Infix

/-!
# File Paths in Hunt Files

A hunt file names programs and supporting files relative to its own directory. Before its content
is merged with that of other files, `_resolve_file_paths_in_dict` of
`saq/collectors/hunter/loader.py` makes these paths absolute.
-/

namespace Ace3.Collectors

open Lib Lib.Nested

/-! ## §1 Path texts -/

namespace OsPath

def isabs (path : String) : Bool := path.toList.head? == some '/'

/-- The text up to the last separator, without it unless there is nothing else. -/
def dirname (path : String) : String :=
  let head := path.toList.reverse.dropWhile (· ≠ '/')
  String.ofList (if head.all (· = '/') then head else head.dropWhile (· = '/')).reverse

def join (path rest : String) : String :=
  if isabs rest then rest
  else if path = "" ∨ path.toList.getLast? = some '/' then path ++ rest
  else path ++ "/" ++ rest

def initialSlashes (path : List Char) : Nat :=
  match path with
  | '/' :: '/' :: '/' :: _ => 1
  | '/' :: '/' :: _ => 2
  | '/' :: _ => 1
  | _ => 0

/-- One component of a path after those in front of it. -/
def normalComponent (slashes : Nat) (comps : List (List Char)) (comp : List Char) :
    List (List Char) :=
  if comp = [] ∨ comp = ['.'] then comps
  else if comp ≠ ['.', '.'] ∨ (slashes = 0 ∧ comps = []) ∨ comps.getLast? = some ['.', '.'] then
    comps ++ [comp]
  else comps.dropLast

def normpath (path : String) : String :=
  let slashes := initialSlashes path.toList
  let comps := (path.toList.splitOn '/').foldl (normalComponent slashes) []
  let normal := List.replicate slashes '/' ++ List.intercalate ['/'] comps
  if normal = [] then "." else String.ofList normal

def abspath (cwd path : String) : String :=
  normpath (if isabs path then path else join cwd path)

end OsPath

open OsPath

/-! ## §2 Commands -/

inductive LoadError where
  /-- `open` or `yaml.safe_load` raises. -/
  | unreadable
  /-- `ValueError`: the include directives are not a list. -/
  | includeNotList
  /-- `AttributeError` or `TypeError`: a value is of another kind than the code expects. -/
  | malformed
  /-- `TypeError` of a merge. -/
  | merge (e : TypeError)
  deriving DecidableEq

def updateAt (key : String) (f : Yaml → Except LoadError Yaml) (items : YamlDict) :
    Except LoadError YamlDict :=
  match items.lookup key with
  | none => .ok items
  | some v => do
    let v ← f v
    return OrderedDict.setItems key v items

/-- The absolute path of a file that a hunt file in the directory names. -/
def resolvePath (yamlDir : String) : Yaml → Except LoadError Yaml
  | .atom (.str path) =>
    .ok (.atom (.str (if isabs path then path else normpath (join yamlDir path))))
  | _ => .error .malformed

/-- The `path` of a command, unless it is empty. -/
def resolveCommandPath (yamlDir : String) : YamlDict → Except LoadError YamlDict :=
  updateAt "path" fun path => if truthy path then resolvePath yamlDir path else .ok path

/-- The loop over `enumerate(cmd.get("files") or [])`. -/
def resolveFiles (yamlDir : String) : Yaml → Except LoadError Yaml
  | .list files => Nested.list <$> files.mapM (resolvePath yamlDir)
  -- the items of these cannot be assigned to, so nothing in them may be relative
  | .dict items =>
    if items.all fun item => isabs item.1 then .ok (.dict items) else .error .malformed
  | .atom (.str s) => if s.toList.all (· = '/') then .ok (.atom (.str s)) else .error .malformed
  | .atom a => if truthy (.atom a) then .error .malformed else .ok (.atom a)

/-- A command that is defined for the steps of all hunts. -/
def resolveCommand (yamlDir : String) : Yaml → Except LoadError Yaml
  | .dict cmd => do
    let cmd ← resolveCommandPath yamlDir cmd
    let cmd ← updateAt "files" (resolveFiles yamlDir) cmd
    return .dict cmd
  | _ => .error .malformed

def resolveCommands (yamlDir : String) : Yaml → Except LoadError Yaml
  | .list cmds => Nested.list <$> cmds.mapM (resolveCommand yamlDir)
  | .dict [] => .ok (.dict [])
  | .atom (.str "") => .ok (.atom (.str ""))
  | _ => .error .malformed

/-! ## §3 Steps -/

def resolveInline (yamlDir : String) : Yaml → Except LoadError Yaml
  | .dict cmd => do
    let cmd ← if cmd.lookup "type" = some (.atom (.str "executable")) then
        resolveCommandPath yamlDir cmd
      else .ok cmd
    let cmd ← updateAt "files" (resolveFiles yamlDir) cmd
    return .dict cmd
  | _ => .error .malformed

def resolveTransform (yamlDir : String) : Yaml → Except LoadError Yaml
  | .dict transform => Nested.dict <$> updateAt "command" (resolveInline yamlDir) transform
  | v => .ok v

def mentionsStep (s : String) : Bool :=
  decide ("transform".toList <:+: s.toList ∨ "when".toList <:+: s.toList)

mutual

def resolveCommandPathsInSteps (yamlDir : String) : Yaml → Except LoadError Yaml
  | .list steps => Nested.list <$> resolveSteps yamlDir steps
  | .dict items =>
    if items.any fun item => mentionsStep item.1 then .error .malformed else .ok (.dict items)
  | .atom (.str s) => .ok (.atom (.str s))
  | .atom _ => .error .malformed

def resolveSteps (yamlDir : String) : List Yaml → Except LoadError (List Yaml)
  | [] => .ok []
  | step :: steps => do
    let step ← resolveStep yamlDir step
    let steps ← resolveSteps yamlDir steps
    return step :: steps

def resolveStep (yamlDir : String) : Yaml → Except LoadError Yaml
  | .dict step => Nested.dict <$> resolveStepItems yamlDir (step.lookup "when").isSome step
  | .list items =>
    if Nested.atom (.str "transform") ∈ items ∨ Nested.atom (.str "when") ∈ items then
      .error .malformed
    else .ok (.list items)
  | .atom (.str s) => if mentionsStep s then .error .malformed else .ok (.atom (.str s))
  | .atom _ => .error .malformed

def resolveStepItems (yamlDir : String) (hasWhen : Bool) : YamlDict → Except LoadError YamlDict
  | [] => .ok []
  | (key, v) :: items => do
    let v ← if key = "transform" then resolveTransform yamlDir v
      else if hasWhen ∧ (key = "execute" ∨ key = "else") then resolveCommandPathsInSteps yamlDir v
      else .ok v
    let items ← resolveStepItems yamlDir hasWhen items
    return (key, v) :: items

end

/-! ## §4 Files -/

def resolveCorrelate (yamlDir : String) : Yaml → Except LoadError Yaml
  | .dict correlate =>
    Nested.dict <$> updateAt "logic" (resolveCommandPathsInSteps yamlDir) correlate
  | v => if truthy v then .error .malformed else .ok v

def resolveRule (yamlDir : String) : Yaml → Except LoadError Yaml
  | .dict rule => Nested.dict <$> updateAt "correlate" (resolveCorrelate yamlDir) rule
  | _ => .error .malformed

def resolveFilePathsInDict (yamlDir : String) : Yaml → Except LoadError YamlDict
  | .dict loaded => do
    let loaded ← updateAt "commands" (resolveCommands yamlDir) loaded
    updateAt "rule" (resolveRule yamlDir) loaded
  | _ => .error .malformed

end Ace3.Collectors
