import Mathlib.Data.List.Sort
import Ace3.HuntCompiler.Package
import Ace3.Lib.Masking

/-!
# Compiling and Loading a Hunt

`compile_hunt` walks through a hunt and everything it refers to. In each document it replaces the
paths by `__pkg__/` and the packaged path, and it records the files the paths lead to, each of them
under the first role in which it is met. `load_compiled_hunt` writes the embedded files below a
directory, to which it expands every `__pkg__/` in their texts.
-/

namespace Ace3.HuntCompiler

open List
open Lib Lib.FileSystem

def pkgToken : Text := "__pkg__/".toList

/-! ## §1 Plans -/

inductive Role where
  | yaml
  | query
  | queryInclude
  | executable
  | support
  deriving DecidableEq

/-- A reference as it stands in a document, where it need not be a string. -/
structure Reference where
  role : Role
  authored : Yaml

/-- The references in a part of a document, and the part with its paths spelled anew. -/
structure Plan (β : Type) where
  references : List Reference
  fill : (Text → Text) → β

namespace Plan

variable {β γ : Type}

def keep (part : β) : Plan β := ⟨[], fun _ => part⟩

def map (f : β → γ) (plan : Plan β) : Plan γ := ⟨plan.references, fun spell => f (plan.fill spell)⟩

def reference (role : Role) (value : Yaml) : Plan Yaml where
  references := [⟨role, value⟩]
  fill spell :=
    match value with
    | .str authored => .str (spell authored)
    | value => value

def list (plans : List (Plan β)) : Plan (List β) where
  references := plans.flatMap (·.references)
  fill spell := plans.map (·.fill spell)

/-- The values of some keys of a mapping, one after the other. -/
def keys (entries : YamlMap) (fields : List (String × Plan Yaml)) : Plan YamlMap where
  references := fields.flatMap (·.2.references)
  fill spell := fields.foldl (fun entries field => entries.set field.1 (field.2.fill spell)) entries

end Plan

/-! ## §2 Documents -/

def rewriteQueryIncludes (text : Text) : Plan Text where
  references := (queryPieces text).filterMap fun
    | .letter _ => none
    | .marker authored => some ⟨.queryInclude, .str authored⟩
  fill spell := (queryPieces text).flatMap (QueryPiece.render spell)

def commandPath (cmd : YamlMap) : List (String × Plan Yaml) :=
  match cmd.get "type", cmd.get "path" with
  | some (.str type), some path =>
    if type = "executable".toList ∧ path.truthy then [("path", .reference .executable path)] else []
  | _, _ => []

def commandFiles (cmd : YamlMap) : List (String × Plan Yaml) :=
  match cmd.get "files" with
  | some (.seq files) => [("files", (Plan.list (files.map (Plan.reference .support))).map .seq)]
  | _ => []

def rewriteCommand (cmd : YamlMap) : Plan YamlMap :=
  .keys cmd (commandPath cmd ++ commandFiles cmd)

def transformCommand (step : YamlMap) : List (String × Plan Yaml) :=
  match step.get "transform" with
  | some (.map transform) =>
    match YamlMap.get transform "command" with
    | some (.map cmd) =>
      [("transform", (Plan.keys transform [("command", (rewriteCommand cmd).map .map)]).map .map)]
    | _ => []
  | _ => []

def branches (step : YamlMap) (execute otherwise : Option (Plan (List Yaml))) :
    List (String × Plan Yaml) :=
  if (step.get "when").isSome then
    (execute.toList.map fun plan => ("execute", plan.map .seq)) ++
      otherwise.toList.map fun plan => ("else", plan.map .seq)
  else []

mutual

def rewriteLogic : List Yaml → List (Plan Yaml)
  | [] => []
  | step :: steps => rewriteStep step :: rewriteLogic steps

def rewriteStep : Yaml → Plan Yaml
  | .map step =>
    (Plan.keys step (transformCommand step ++
      branches step (branch "execute" step) (branch "else" step))).map .map
  | .scalar repr truthy => .keep (.scalar repr truthy)
  | .str text => .keep (.str text)
  | .seq items => .keep (.seq items)

def branch (key : String) : YamlMap → Option (Plan (List Yaml))
  | [] => none
  | (key', value) :: entries =>
    if YamlKey.str key.toList = key' then
      match value with
      | .seq steps => some (.list (rewriteLogic steps))
      | _ => none
    else branch key entries

end

def truthyField (entries : YamlMap) (key : String) : Option Yaml :=
  (entries.get key).filter (·.truthy)

/-- The query file of a rule, under the first of its two names that is set. -/
def ruleQueryFile (rule : YamlMap) : List (String × Plan Yaml) :=
  match truthyField rule "search", truthyField rule "query_file_path" with
  | some path, _ => [("search", .reference .query path)]
  | none, some path => [("query_file_path", .reference .query path)]
  | none, none => []

def ruleQuery (rule : YamlMap) : List (String × Plan Yaml) :=
  match rule.get "query" with
  | some (.str query) => [("query", (rewriteQueryIncludes query).map .str)]
  | _ => []

def ruleCorrelate (rule : YamlMap) : List (String × Plan Yaml) :=
  match rule.get "correlate" with
  | some (.map correlate) =>
    match YamlMap.get correlate "logic" with
    | some (.seq steps) =>
      [("correlate",
        (Plan.keys correlate [("logic", (Plan.list (rewriteLogic steps)).map .seq)]).map .map)]
    | _ => []
  | _ => []

def rewriteRule (rule : YamlMap) : Plan YamlMap :=
  .keys rule (ruleQueryFile rule ++ ruleQuery rule ++ ruleCorrelate rule)

def documentIncludes (parsed : YamlMap) : List (String × Plan Yaml) :=
  match parsed.get "include" with
  | some (.seq includes) =>
    [("include", (Plan.list (includes.map (Plan.reference .yaml))).map .seq)]
  | _ => []

def predefinedCommand : Yaml → Plan Yaml
  | .map cmd => (rewriteCommand cmd).map .map
  | value => .keep value

def documentCommands (parsed : YamlMap) : List (String × Plan Yaml) :=
  match parsed.get "commands" with
  | some (.seq commands) => [("commands", (Plan.list (commands.map predefinedCommand)).map .seq)]
  | _ => []

def documentRule (parsed : YamlMap) : List (String × Plan Yaml) :=
  match parsed.get "rule" with
  | some (.map rule) => [("rule", (rewriteRule rule).map .map)]
  | _ => []

def rewriteDocument (parsed : YamlMap) : Plan YamlMap :=
  .keys parsed (documentIncludes parsed ++ documentCommands parsed ++ documentRule parsed)

/-! ## §3 Embedded files -/

/-- The content with its encoding: `base64` is given by the bytes it encodes. -/
inductive EmbeddedContent where
  | text (content : Text)
  | base64 (bytes : Bytes)
  deriving DecidableEq

structure EmbeddedFile where
  kind : Role
  path : PathString
  content : EmbeddedContent
  permissions : Option Nat := none
  originalAbs : Location
  deriving DecidableEq

/-- The dictionary of the embedded files by their paths. -/
structure Assets where
  files : List EmbeddedFile := []
  nodup : (files.map (·.path)).Nodup := by exact nodup_nil

namespace Assets

def contains (assets : Assets) (path : PathString) : Bool :=
  assets.files.any (·.path = path)

variable {assets : Assets}

theorem contains_iff {path : PathString} :
    assets.contains path ↔ ∃ file ∈ assets.files, file.path = path := by
  simp [contains]

def replaceBy (new file : EmbeddedFile) : EmbeddedFile :=
  if file.path = new.path then new else file

theorem replaceBy_path (new file : EmbeddedFile) : (replaceBy new file).path = file.path := by
  unfold replaceBy
  split
  · next h => exact h.symm
  · rfl

def put (assets : Assets) (file : EmbeddedFile) : Assets :=
  if h : assets.contains file.path then
    { files := assets.files.map (replaceBy file)
      nodup := by
        have hpaths : (assets.files.map (replaceBy file)).map (·.path) =
            assets.files.map (·.path) := by
          rw [map_map]
          exact map_congr_left fun other _ => replaceBy_path file other
        rw [hpaths]
        exact assets.nodup }
  else
    { files := assets.files ++ [file]
      nodup := by
        rw [map_append, nodup_append]
        refine ⟨assets.nodup, nodup_singleton _, ?_⟩
        intro path hpath other hother heq
        obtain ⟨file', hfile', rfl⟩ := mem_map.mp hpath
        rw [map_cons, map_nil, mem_singleton] at hother
        exact h (contains_iff.mpr ⟨file', hfile', heq.trans hother⟩) }

theorem mem_put_self (assets : Assets) (file : EmbeddedFile) : file ∈ (assets.put file).files := by
  unfold put
  split
  · next h =>
    obtain ⟨other, hother, hpath⟩ := contains_iff.mp h
    exact mem_map.mpr ⟨other, hother, if_pos hpath⟩
  · exact mem_append_right _ (mem_singleton.mpr rfl)

theorem mem_put_of_ne {file other : EmbeddedFile} (hother : other ∈ assets.files)
    (h : other.path ≠ file.path) : other ∈ (assets.put file).files := by
  unfold put
  split
  · exact mem_map.mpr ⟨other, hother, if_neg h⟩
  · exact mem_append_left _ hother

theorem eq_or_mem_of_mem_put {file other : EmbeddedFile} (h : other ∈ (assets.put file).files) :
    other = file ∨ other ∈ assets.files := by
  unfold put at h
  split at h
  · obtain ⟨before, hbefore, rfl⟩ := mem_map.mp h
    unfold replaceBy
    split
    · exact .inl rfl
    · exact .inr hbefore
  · exact (mem_append.mp h).symm.imp mem_singleton.mp id

theorem contains_put {path : PathString} (file : EmbeddedFile) (h : assets.contains path) :
    (assets.put file).contains path := by
  obtain ⟨other, hother, hpath⟩ := contains_iff.mp h
  by_cases hsame : other.path = file.path
  · exact contains_iff.mpr ⟨file, mem_put_self assets file, hsame.symm.trans hpath⟩
  · exact contains_iff.mpr ⟨other, mem_put_of_ne hother hsame, hpath⟩

end Assets

/-! ## §4 The walk -/

inductive CompileError where
  | packageRootNotFound
  | outOfPackageRoot (authoredPath : Text) (resolvedAbs : Location)
  | notAPath
  | unreadable (location : Location)
  | recursionLimit
  deriving DecidableEq

/-- The files embedded so far, and the documents that were begun. -/
structure CompileState where
  assets : Assets := {}
  history : List Location := []

structure HuntSource where
  yaml : YamlLibrary
  tree : SourceTree
  packageRoot : Location

namespace HuntSource

variable (source : HuntSource)

def rel (location : Location) : PathString := packagedRel source.packageRoot location

def tokenPath (baseDir : Location) (authored : Text) : Text :=
  pkgToken ++ renderPath (source.rel (absRelativeTo authored baseDir))

/-- What each reference is done with: it is resolved, checked, and its file is added. -/
def register (add : Role → Location → CompileState → Except CompileError CompileState)
    (baseDir : Location) (state : CompileState) (reference : Reference) :
    Except CompileError CompileState :=
  match reference.authored with
  | .str authored =>
    if isUnder (absRelativeTo authored baseDir) source.packageRoot then
      add reference.role (absRelativeTo authored baseDir) state
    else .error (.outOfPackageRoot authored (absRelativeTo authored baseDir))
  | _ => .error .notAPath

def yamlAsset (location : Location) (raw : Text) (parsed : Yaml) : EmbeddedFile where
  kind := .yaml
  path := source.rel location
  content :=
    match parsed with
    | .map parsed => .text (source.yaml.safeDump
        (.map ((rewriteDocument parsed).fill (source.tokenPath (dirname location)))))
    | _ => .text raw
  originalAbs := location

def queryAsset (kind : Role) (location : Location) (content : Text) : EmbeddedFile where
  kind := kind
  path := source.rel location
  content := .text
    ((rewriteQueryIncludes content).fill (source.tokenPath (dirname location)))
  originalAbs := location

def readFileContent (file : SourceFile) : EmbeddedContent :=
  match file.bytes with
  | .utf8 text => .text (universalNewlines text)
  | .binary bytes => .base64 bytes

def executableAsset (location : Location) (file : SourceFile) : EmbeddedFile where
  kind := .executable
  path := source.rel location
  content := readFileContent file
  permissions := some file.permissions
  originalAbs := location

def supportAsset (location : Location) (file : SourceFile) : EmbeddedFile where
  kind := .support
  path := source.rel location
  content := readFileContent file
  originalAbs := location

def record (state : CompileState) (file : EmbeddedFile) : CompileState :=
  { state with assets := state.assets.put file }

def documentReferences : Yaml → List Reference
  | .map parsed => (rewriteDocument parsed).references
  | _ => []

def processYaml (add : Role → Location → CompileState → Except CompileError CompileState)
    (location : Location) (state : CompileState) : Except CompileError CompileState :=
  if location ∈ state.history then .ok state
  else if !isUnder location source.packageRoot then
    .error (.outOfPackageRoot (absText location) location)
  else
    match source.tree.readText location with
    | none => .error (.unreadable location)
    | some raw =>
      match source.yaml.safeLoad raw with
      | none => .error (.unreadable location)
      | some parsed =>
        match (documentReferences parsed).foldlM (source.register add (dirname location))
            { state with history := location :: state.history } with
        | .error error => .error error
        | .ok state => .ok (record state (source.yamlAsset location raw parsed))

def addQueryFile (kind : Role)
    (add : Role → Location → CompileState → Except CompileError CompileState)
    (location : Location) (state : CompileState) : Except CompileError CompileState :=
  match source.tree.file? location with
  | none => .ok state
  | some _ =>
    if state.assets.contains (source.rel location) then .ok state
    else
      match source.tree.readText location with
      | none => .error (.unreadable location)
      | some content =>
        match (rewriteQueryIncludes content).references.foldlM
            (source.register add (dirname location)) state with
        | .error error => .error error
        | .ok state => .ok (record state (source.queryAsset kind location content))

/-- `_add_executable_asset` and `_add_support_asset` -/
def addFile (asset : Location → SourceFile → EmbeddedFile) (location : Location)
    (state : CompileState) : CompileState :=
  match source.tree.file? location with
  | none => state
  | some file =>
    if state.assets.contains (source.rel location) then state
    else record state (asset location file)

def addAsset : Nat → Role → Location → CompileState → Except CompileError CompileState
  | 0, _, _, _ => .error .recursionLimit
  | budget + 1, .yaml, location, state => source.processYaml (addAsset budget) location state
  | budget + 1, .query, location, state =>
    source.addQueryFile .query (addAsset budget) location state
  | budget + 1, .queryInclude, location, state =>
    source.addQueryFile .queryInclude (addAsset budget) location state
  | _ + 1, .executable, location, state =>
    .ok (source.addFile source.executableAsset location state)
  | _ + 1, .support, location, state =>
    .ok (source.addFile source.supportAsset location state)

end HuntSource

/-- `find_package_root`: the innermost directory above the file with a marker in it. -/
def findPackageRoot (tree : SourceTree) (marker : Name) (location : Location) : Option Location :=
  (dirname location).inits.reverse.find? fun dir => (tree.file? (dir ++ [marker])).isSome

def huntRootMarker : Name := ⟨".hunt-root", by decide⟩

/-- The name of a role, as the kind of an embedded file. -/
def Role.name : Role → String
  | .yaml => "yaml"
  | .query => "query"
  | .queryInclude => "query_include"
  | .executable => "executable"
  | .support => "support"

def EmbeddedFile.Precedes (file other : EmbeddedFile) : Prop :=
  file.kind.name < other.kind.name ∨ file.kind.name = other.kind.name ∧
    ¬ String.ofList (renderPath other.path) < String.ofList (renderPath file.path)

instance decidablePrecedes (file other : EmbeddedFile) : Decidable (file.Precedes other) := by
  unfold EmbeddedFile.Precedes
  infer_instance

structure CompiledHunt where
  version : Nat := 2
  target : PathString
  packageRoot : Location
  assets : List EmbeddedFile
  deriving DecidableEq

def HuntSource.compileWithin (source : HuntSource) (budget : Nat) (location : Location) :
    Except CompileError CompiledHunt :=
  if isUnder location source.packageRoot then
    match source.addAsset budget .yaml location {} with
    | .error error => .error error
    | .ok state => .ok
        { target := source.rel location
          packageRoot := source.packageRoot
          assets := state.assets.files.insertionSort EmbeddedFile.Precedes }
  else .error (.outOfPackageRoot (absText location) location)

def compileHunt (yaml : YamlLibrary) (tree : SourceTree) (budget : Nat) (location : Location)
    (packageRoot : Option Location) : Except CompileError CompiledHunt :=
  match packageRoot.or (findPackageRoot tree huntRootMarker location) with
  | none => .error .packageRootNotFound
  | some packageRoot =>
    HuntSource.compileWithin { yaml := yaml, tree := tree, packageRoot := packageRoot } budget
      location

/-! ## §5 Loading -/

/-- `temp_dir.rstrip("/") + "/"` -/
def expansion (tempDir : Text) : Text :=
  (tempDir.reverse.dropWhile (· = '/')).reverse ++ ['/']

def expand (tempDir content : Text) : Text :=
  Masking.replace (expansion tempDir) pkgToken content

def EmbeddedContent.materialize (tempDir : Text) : EmbeddedContent → FileBytes
  | .text content => .utf8 (expand tempDir content)
  | .base64 bytes => .binary bytes

/-- The permission bits after a file was written; `umask` gives those of a file that is written
without more ado. -/
def EmbeddedFile.mode (umask : Nat) (file : EmbeddedFile) : Nat :=
  if file.kind = .executable then file.permissions.getD umask else umask

def EmbeddedFile.materialize (tempDir : Text) (umask : Nat) (file : EmbeddedFile) : SourceFile where
  bytes := file.content.materialize tempDir
  permissions := file.mode umask

/-- The files below the directory, by their paths in it. -/
abbrev LoadedTree := PathString → Option SourceFile

/-- The files that are written, in the order of their writing. -/
def LoadedTree.writeAll (tempDir : Text) (umask : Nat) (files : List EmbeddedFile)
    (tree : LoadedTree) : LoadedTree :=
  files.foldl
    (fun tree file => Function.update tree file.path (some (file.materialize tempDir umask))) tree

/-- `load_compiled_hunt` into an empty directory, for a version it supports: the files, and the
path of the target. -/
def loadCompiledHunt (compiled : CompiledHunt) (tempDir : Text) (umask : Nat) :
    Option (LoadedTree × PathString) :=
  if compiled.version = 2 then
    some (LoadedTree.writeAll tempDir umask compiled.assets fun _ => none, compiled.target)
  else none

theorem LoadedTree.writeAll_of_notMem {tempDir : Text} {umask : Nat} {files : List EmbeddedFile}
    {tree : LoadedTree} {path : PathString} (h : ∀ file ∈ files, file.path ≠ path) :
    tree.writeAll tempDir umask files path = tree path := by
  induction files generalizing tree with
  | nil => rfl
  | cons file files ih =>
    show LoadedTree.writeAll tempDir umask files _ path = tree path
    rw [ih fun other hother => h other (mem_cons_of_mem _ hother)]
    exact Function.update_of_ne (h file mem_cons_self).symm _ _

theorem LoadedTree.writeAll_of_mem {tempDir : Text} {umask : Nat} {files : List EmbeddedFile}
    {tree : LoadedTree} {file : EmbeddedFile} (hnodup : (files.map (·.path)).Nodup)
    (hfile : file ∈ files) :
    tree.writeAll tempDir umask files file.path = some (file.materialize tempDir umask) := by
  induction files generalizing tree with
  | nil => cases hfile
  | cons first files ih =>
    obtain ⟨hfirst, hrest⟩ := nodup_cons.mp hnodup
    rcases mem_cons.mp hfile with rfl | hfile
    · have hnot : ∀ other ∈ files, other.path ≠ file.path := fun other hother heq =>
        hfirst (mem_map.mpr ⟨other, hother, heq⟩)
      show LoadedTree.writeAll tempDir umask files _ file.path = _
      rw [LoadedTree.writeAll_of_notMem hnot]
      exact Function.update_self ..
    · exact ih hrest hfile

end Ace3.HuntCompiler
