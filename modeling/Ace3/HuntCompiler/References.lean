import Ace3.HuntCompiler.Expansion

/-!
# What a Hunt Refers To

The files that a hunt reaches, each in the roles in which it is referenced, and what the compiler
embeds for a file in a role.
-/

namespace Ace3.HuntCompiler

open Lib.FileSystem

/-! ## §1 References -/

/-- The roles in which the markers of a file are followed. -/
def Role.IsQuery (role : Role) : Prop := role = .query ∨ role = .queryInclude

instance decidableIsQuery (role : Role) : Decidable role.IsQuery :=
  inferInstanceAs (Decidable (role = .query ∨ role = .queryInclude))

namespace HuntSource

variable (source : HuntSource)

def document (location : Location) : Option Yaml :=
  (source.tree.readText location).bind source.yaml.safeLoad

def yamlReferences (location : Location) : List Reference :=
  match source.document location with
  | some parsed => documentReferences parsed
  | none => []

def queryReferences (location : Location) : List Reference :=
  match source.tree.readText location with
  | some text => (rewriteQueryIncludes text).references
  | none => []

def referencesIn : Role → Location → List Reference
  | .yaml, location => source.yamlReferences location
  | .query, location | .queryInclude, location => source.queryReferences location
  | .executable, _ | .support, _ => []

/-- What is referenced, directly or through other files, from a target. -/
inductive Referenced (target : Location) : Role → Location → Prop where
  | target : Referenced target .yaml target
  | step {role role' : Role} {location : Location} {authored : Text}
      (before : Referenced target role location)
      (reference : ⟨role', .str authored⟩ ∈ source.referencesIn role location) :
      Referenced target role' (absRelativeTo authored (dirname location))

def NestedIn (child parent : Location) : Prop :=
  ∃ authored, ⟨.queryInclude, .str authored⟩ ∈ source.queryReferences parent ∧
    child = absRelativeTo authored (dirname parent)

variable {source} {role : Role} {location : Location} {reference : Reference}

theorem mem_references_rewriteQueryIncludes {text : Text} :
    reference ∈ (rewriteQueryIncludes text).references ↔
      ∃ authored, .marker authored ∈ queryPieces text ∧
        reference = ⟨.queryInclude, .str authored⟩ := by
  refine List.mem_filterMap.trans ⟨?_, ?_⟩
  · rintro ⟨piece, hpiece, href⟩
    cases piece with
    | letter sign => cases href
    | marker authored => exact ⟨authored, hpiece, (Option.some.inj href).symm⟩
  · rintro ⟨authored, hpiece, rfl⟩
    exact ⟨.marker authored, hpiece, rfl⟩

theorem referencesIn_of_isQuery (hrole : role.IsQuery) :
    source.referencesIn role location = source.queryReferences location := by
  rcases hrole with rfl | rfl <;> rfl

theorem eq_queryInclude_of_mem (hrole : role.IsQuery)
    (href : reference ∈ source.referencesIn role location) :
    ∃ authored, reference = ⟨.queryInclude, .str authored⟩ := by
  rw [referencesIn_of_isQuery hrole] at href
  unfold queryReferences at href
  split at href
  · obtain ⟨authored, _, heq⟩ := mem_references_rewriteQueryIncludes.mp href
    exact ⟨authored, heq⟩
  · cases href

theorem exists_file_of_readText {text : Text} (h : source.tree.readText location = some text) :
    ∃ permissions raw, source.tree.file? location = some ⟨.utf8 raw, permissions⟩ ∧
      text = universalNewlines raw := by
  unfold SourceTree.readText at h
  split at h
  · next raw permissions hfile => exact ⟨permissions, raw, hfile, (Option.some.inj h).symm⟩
  · cases h

/-! ## §2 Packaged paths -/

theorem enter_rel (source : HuntSource) (location : Location) :
    (source.rel location).foldl Location.enter source.packageRoot = location := by
  have hway := Location.enter_relative [] source.packageRoot location
  unfold rel packagedRel
  split
  · next hnil =>
    -- the root itself is the path `.`
    rw [hnil] at hway
    exact hway
  · exact hway

theorem rel_injective {location' : Location} (h : source.rel location = source.rel location') :
    location = location' := by
  rw [← enter_rel source location, h, enter_rel]

/-! ## §3 Embeddings -/

def embed (source : HuntSource) : Role → Location → Option EmbeddedFile
  | .yaml, location =>
    (source.tree.readText location).bind fun raw =>
      (source.yaml.safeLoad raw).map (source.yamlAsset location raw)
  | .query, location => (source.tree.readText location).map (source.queryAsset .query location)
  | .queryInclude, location =>
    (source.tree.readText location).map (source.queryAsset .queryInclude location)
  | .executable, location => (source.tree.file? location).map (source.executableAsset location)
  | .support, location => (source.tree.file? location).map (source.supportAsset location)

theorem embed_yaml {raw : Text} {parsed : Yaml}
    (hraw : source.tree.readText location = some raw)
    (hparsed : source.yaml.safeLoad raw = some parsed) :
    source.embed .yaml location = some (source.yamlAsset location raw parsed) := by
  simp only [embed, hraw, Option.bind_some, hparsed, Option.map_some]

theorem embed_of_isQuery {text : Text} (hrole : role.IsQuery)
    (htext : source.tree.readText location = some text) :
    source.embed role location = some (source.queryAsset role location text) := by
  rcases hrole with rfl | rfl <;> exact congrArg (Option.map _) htext

variable {file : EmbeddedFile}

theorem embed_yaml_eq_some (h : source.embed .yaml location = some file) :
    ∃ raw parsed, source.tree.readText location = some raw ∧
      source.yaml.safeLoad raw = some parsed ∧ file = source.yamlAsset location raw parsed := by
  obtain ⟨raw, hraw, hload⟩ := Option.bind_eq_some_iff.mp h
  obtain ⟨parsed, hparsed, heq⟩ := Option.map_eq_some_iff.mp hload
  exact ⟨raw, parsed, hraw, hparsed, heq.symm⟩

theorem embed_isQuery_eq_some (hrole : role.IsQuery) (h : source.embed role location = some file) :
    ∃ text, source.tree.readText location = some text ∧
      file = source.queryAsset role location text := by
  rcases hrole with rfl | rfl <;>
    obtain ⟨text, htext, heq⟩ := Option.map_eq_some_iff.mp h <;>
    exact ⟨text, htext, heq.symm⟩

theorem kind_path_of_embed (h : source.embed role location = some file) :
    file.kind = role ∧ file.path = source.rel location := by
  cases role with
  | yaml =>
    obtain ⟨raw, parsed, _, _, rfl⟩ := embed_yaml_eq_some h
    exact ⟨rfl, rfl⟩
  | query =>
    obtain ⟨text, _, rfl⟩ := embed_isQuery_eq_some (.inl rfl) h
    exact ⟨rfl, rfl⟩
  | queryInclude =>
    obtain ⟨text, _, rfl⟩ := embed_isQuery_eq_some (.inr rfl) h
    exact ⟨rfl, rfl⟩
  | executable =>
    obtain ⟨file', _, rfl⟩ := Option.map_eq_some_iff.mp h
    exact ⟨rfl, rfl⟩
  | support =>
    obtain ⟨file', _, rfl⟩ := Option.map_eq_some_iff.mp h
    exact ⟨rfl, rfl⟩

/-! ## §4 Regular packages -/

structure Regular (source : HuntSource) (target : Location) : Prop where
  /-- The included documents can be read. -/
  documents : ∀ {location}, source.Referenced target .yaml location →
    (source.document location).isSome
  /-- References are strings. -/
  paths : ∀ {role location}, source.Referenced target role location →
    ∀ reference ∈ source.referencesIn role location, ∃ authored, reference.authored = .str authored
  /-- They stay inside the root, and the way to them does not begin with two dots. -/
  inside : ∀ {role location}, source.Referenced target role location →
    isUnder location source.packageRoot
  /-- The token is in none of the packaged paths. -/
  names : ∀ {role location}, source.Referenced target role location →
    ¬ pkgToken <:+: renderPath (source.rel location)
  /-- It is in none of the documents. -/
  mappings : ∀ {location parsed}, source.Referenced target .yaml location →
    source.document location = some (.map parsed) → Yaml.LacksEntries pkgToken parsed
  /-- Neither the token nor a carriage return is in a text that is not embedded as a mapping. -/
  texts : ∀ {role location text permissions}, source.Referenced target role location →
    (source.Referenced target .yaml location →
      ∀ parsed, source.document location ≠ some (.map parsed)) →
    source.tree.file? location = some ⟨.utf8 text, permissions⟩ →
    '\r' ∉ text ∧ ¬ pkgToken <:+: text
  /-- Query files are UTF-8. -/
  queries : ∀ {role location file}, source.Referenced target role location → role.IsQuery →
    source.tree.file? location = some file → (source.tree.readText location).isSome
  /-- No query includes itself, directly or through others. -/
  acyclic : ∀ {role location}, source.Referenced target role location → role.IsQuery →
    Acc source.NestedIn location
  /-- An executable is referenced as nothing else. -/
  executables : ∀ {role location}, source.Referenced target .executable location →
    source.Referenced target role location → role = .executable
  /-- A query is not included as a document, and it has no markers if it is a support file. -/
  roles : ∀ {role location}, source.Referenced target role location → role.IsQuery →
    ¬ source.Referenced target .yaml location ∧
      (source.Referenced target .support location → source.queryReferences location = [])

end HuntSource

end Ace3.HuntCompiler
