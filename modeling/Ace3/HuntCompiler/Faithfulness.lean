import Ace3.HuntCompiler.Walk

/-!
# Loading What Was Compiled

For a regular package the compiler ends, and loading what it made gives every referenced file as it
was, but for the references in documents and queries, which lead to the loaded files.
-/

namespace Ace3.HuntCompiler

open List
open Lib Lib.FileSystem

/-! ## §1 What the loader makes of an embedding -/

theorem universalNewlines_of_notMem {text : Text} (h : '\r' ∉ text) :
    universalNewlines text = text := by
  induction text with
  | nil => rfl
  | cons letter text ih =>
    have hletter : letter ≠ '\r' := fun heq => h (heq ▸ mem_cons_self)
    have hrest := ih fun hmem => h (mem_cons_of_mem _ hmem)
    unfold universalNewlines
    split
    · next heq => exact absurd (List.cons.inj heq).1 hletter
    · next heq => exact absurd (List.cons.inj heq).1 hletter
    · next heq =>
      obtain ⟨rfl, rfl⟩ := List.cons.inj heq
      rw [hrest]
    · next heq => cases heq

/-- A document that is dumped and in whose text the token is expanded reads as the document in
whose strings it is expanded. -/
def YamlLibrary.ReadsBack (yaml : YamlLibrary) (tempDir : Text) (document : Yaml) : Prop :=
  yaml.safeLoad (universalNewlines (expand tempDir (yaml.safeDump document))) =
    some (document.mapText (expand tempDir))

namespace HuntSource

variable {source : HuntSource} {target location : Location} {role : Role} {tempDir : Text}

def loadedPath (source : HuntSource) (tempDir : Text) (baseDir : Location) (authored : Text) :
    Text :=
  expansion tempDir ++ renderPath (source.rel (absRelativeTo authored baseDir))

theorem mem_authored {β : Type} {plan : Plan β} {authored : Text} (h : authored ∈ plan.authored) :
    ∃ role, ⟨role, .str authored⟩ ∈ plan.references := by
  obtain ⟨⟨role, value⟩, hmem, hvalue⟩ := mem_filterMap.mp h
  cases value with
  | str text =>
    cases hvalue
    exact ⟨role, hmem⟩
  | scalar _ _ => cases hvalue
  | seq _ => cases hvalue
  | map _ => cases hvalue

theorem fill_tokenPath {β : Type} {plan : Plan β} {change : β → β}
    (hregular : source.Regular target) (href : source.Referenced target role location)
    (hplan : plan.references = source.referencesIn role location)
    (h : plan.Expands tempDir change) :
    change (plan.fill (source.tokenPath (dirname location))) =
      plan.fill (source.loadedPath tempDir (dirname location)) := by
  refine h (fun authored => renderPath (source.rel (absRelativeTo authored (dirname location)))) ?_
  intro authored hauthored
  obtain ⟨role', hmem⟩ := mem_authored hauthored
  exact hregular.names (Referenced.step href (hplan ▸ hmem))

theorem materialize_text {text : Text} (hreturn : '\r' ∉ text) (htoken : ¬ pkgToken <:+: text) :
    (EmbeddedContent.text (universalNewlines text)).materialize tempDir = .utf8 text := by
  show FileBytes.utf8 (expand tempDir (universalNewlines text)) = .utf8 text
  rw [universalNewlines_of_notMem hreturn, expand, Tokens.replace_of_not_infix htoken]

theorem materialize_readFileContent {file : SourceFile}
    (h : ∀ text, file.bytes = .utf8 text → '\r' ∉ text ∧ ¬ pkgToken <:+: text) :
    (readFileContent file).materialize tempDir = file.bytes := by
  unfold readFileContent
  split
  · next text hbytes =>
    obtain ⟨hreturn, htoken⟩ := h text hbytes
    rw [materialize_text hreturn htoken, hbytes]
  · next bytes hbytes => exact hbytes.symm

theorem fill_of_no_markers {text : Text} {spell : Text → Text}
    (h : (rewriteQueryIncludes text).references = []) :
    (rewriteQueryIncludes text).fill spell = text := by
  have hletters : ∀ piece ∈ queryPieces text, piece.render spell = piece.render id := by
    intro piece hpiece
    cases piece with
    | letter sign => rfl
    | marker authored =>
      have hmem := mem_references_rewriteQueryIncludes.mpr ⟨authored, hpiece, rfl⟩
      rw [h] at hmem
      cases hmem
  calc (queryPieces text).flatMap (QueryPiece.render spell)
      = (queryPieces text).flatMap (QueryPiece.render id) := flatMap_congr hletters
    _ = text := flatMap_queryPieces text

/-! ## §2 What a role asks of a loaded file -/

/-- The written file is the file of the package, with its references re-rooted. -/
def Meets (source : HuntSource) (target : Location) (tempDir : Text) (role : Role)
    (location : Location) (file written : SourceFile) : Prop :=
  match role with
  | .yaml =>
    match source.document location with
    | some (.map parsed) => ∃ text, written.bytes = .utf8 text ∧
        source.yaml.safeLoad (universalNewlines text) = some (.map
          ((rewriteDocument parsed).fill (source.loadedPath tempDir (dirname location))))
    | _ => written.bytes = file.bytes
  | .query | .queryInclude => ∃ text, file.bytes = .utf8 text ∧ written.bytes = .utf8
      ((rewriteQueryIncludes text).fill (source.loadedPath tempDir (dirname location)))
  | .executable => written.bytes = file.bytes ∧ written.permissions = file.permissions
  | .support => ¬ source.Referenced target .yaml location → written.bytes = file.bytes

variable {umask : Nat} {file : SourceFile} {entry : EmbeddedFile}

theorem meets_yaml (hregular : source.Regular target)
    (href : source.Referenced target .yaml location)
    (hyaml : ∀ parsed, source.document location = some (.map parsed) →
      source.yaml.ReadsBack tempDir
        (.map ((rewriteDocument parsed).fill (source.tokenPath (dirname location)))))
    (hfile : source.tree.file? location = some file)
    (hembed : source.embed .yaml location = some entry) :
    source.Meets target tempDir .yaml location file (entry.materialize tempDir umask) := by
  obtain ⟨raw, parsed, hraw, hparsed, rfl⟩ := embed_yaml_eq_some hembed
  have hdocument : source.document location = some parsed := by
    rw [document, hraw, Option.bind_some, hparsed]
  obtain ⟨permissions, text, hfile', rfl⟩ := exists_file_of_readText hraw
  obtain rfl := Option.some.inj (hfile'.symm.trans hfile)
  by_cases hmapping : ∃ entries, parsed = .map entries
  · obtain ⟨entries, rfl⟩ := hmapping
    have hreferences : (rewriteDocument entries).references =
        source.referencesIn .yaml location := by
      simp only [referencesIn, yamlReferences, hdocument, documentReferences]
    have hfill : Yaml.mapTextEntries (expand tempDir)
        ((rewriteDocument entries).fill (source.tokenPath (dirname location))) =
          (rewriteDocument entries).fill (source.loadedPath tempDir (dirname location)) :=
      fill_tokenPath hregular href hreferences
        (expands_rewriteDocument (hregular.mappings href hdocument))
    simp only [Meets, hdocument]
    refine ⟨_, rfl, ?_⟩
    rw [← hfill]
    exact hyaml entries hdocument
  · have hother : ∀ entries, source.document location ≠ some (.map entries) := fun entries h =>
      hmapping ⟨entries, Option.some.inj (hdocument.symm.trans h)⟩
    obtain ⟨hreturn, htoken⟩ := hregular.texts href (fun _ => hother) hfile
    -- the text is embedded as it was read
    have hcontent : (source.yamlAsset location (universalNewlines text) parsed).content =
        .text (universalNewlines text) := by
      simp only [yamlAsset]
      split
      · next entries => exact absurd ⟨entries, rfl⟩ hmapping
      · rfl
    simp only [Meets]
    show (source.yamlAsset location _ parsed).content.materialize tempDir = .utf8 text
    rw [hcontent, materialize_text hreturn htoken]

/-- A file that is not embedded as a document has neither the token nor a carriage return. -/
theorem plain_of_embed (hregular : source.Regular target)
    (href : source.Referenced target role location)
    (hnot : ¬ source.Referenced target .yaml location)
    (hfile : source.tree.file? location = some file) {text : Text}
    (htext : file.bytes = .utf8 text) :
    '\r' ∉ text ∧ ¬ pkgToken <:+: text := by
  obtain ⟨bytes, permissions⟩ := file
  obtain rfl : bytes = .utf8 text := htext
  exact hregular.texts href (fun h => absurd h hnot) hfile

theorem meets_query (hregular : source.Regular target)
    (href : source.Referenced target role location) (hrole : role.IsQuery)
    (hfile : source.tree.file? location = some file)
    (hembed : source.embed role location = some entry) :
    source.Meets target tempDir role location file (entry.materialize tempDir umask) := by
  obtain ⟨content, hcontent, rfl⟩ := embed_isQuery_eq_some hrole hembed
  obtain ⟨permissions, text, hfile', rfl⟩ := exists_file_of_readText hcontent
  obtain rfl := Option.some.inj (hfile'.symm.trans hfile)
  obtain ⟨hreturn, htoken⟩ := plain_of_embed hregular href (hregular.roles href hrole).1 hfile rfl
  rw [universalNewlines_of_notMem hreturn] at hcontent
  have hreferences : (rewriteQueryIncludes text).references =
      source.referencesIn role location := by
    rw [referencesIn_of_isQuery hrole]
    simp only [queryReferences, hcontent]
  have hfill : expand tempDir
      ((rewriteQueryIncludes text).fill (source.tokenPath (dirname location))) =
        (rewriteQueryIncludes text).fill (source.loadedPath tempDir (dirname location)) :=
    fill_tokenPath hregular href hreferences (expands_rewriteQueryIncludes htoken)
  have hwritten : (source.queryAsset role location (universalNewlines text)).materialize tempDir
      umask = ⟨.utf8 ((rewriteQueryIncludes text).fill
        (source.loadedPath tempDir (dirname location))), umask⟩ := by
    rw [universalNewlines_of_notMem hreturn, ← hfill]
    rcases hrole with rfl | rfl <;> rfl
  rw [hwritten]
  rcases hrole with rfl | rfl
  · exact ⟨text, rfl, rfl⟩
  · exact ⟨text, rfl, rfl⟩

theorem meets_executable (hregular : source.Regular target)
    (href : source.Referenced target .executable location)
    (hfile : source.tree.file? location = some file)
    (hembed : source.embed .executable location = some entry) :
    source.Meets target tempDir .executable location file (entry.materialize tempDir umask) := by
  obtain ⟨file', hfile', rfl⟩ := Option.map_eq_some_iff.mp hembed
  obtain rfl := Option.some.inj (hfile'.symm.trans hfile)
  have hnot : ¬ source.Referenced target .yaml location := fun h => by
    cases hregular.executables href h
  exact ⟨materialize_readFileContent fun _ h => plain_of_embed hregular href hnot hfile h, rfl⟩

theorem meets_support (hregular : source.Regular target)
    (href : source.Referenced target .support location)
    (hfile : source.tree.file? location = some file)
    (hembed : source.embed .support location = some entry) :
    source.Meets target tempDir .support location file (entry.materialize tempDir umask) := by
  intro hnot
  obtain ⟨file', hfile', rfl⟩ := Option.map_eq_some_iff.mp hembed
  obtain rfl := Option.some.inj (hfile'.symm.trans hfile)
  exact materialize_readFileContent fun _ h => plain_of_embed hregular href hnot hfile h

/-! ## §3 The files of a loaded hunt -/

theorem meets_congr {role' : Role} {written : SourceFile} (hrole : role.IsQuery)
    (hrole' : role'.IsQuery) (h : source.Meets target tempDir role' location file written) :
    source.Meets target tempDir role location file written := by
  rcases hrole with rfl | rfl <;> rcases hrole' with rfl | rfl <;> exact h

theorem meets_query_iff (hregular : source.Regular target)
    (href : source.Referenced target role location) (hrole : role.IsQuery)
    (hfile : source.tree.file? location = some file) (hnil : source.queryReferences location = [])
    {written : SourceFile} :
    source.Meets target tempDir role location file written ↔ written.bytes = file.bytes := by
  obtain ⟨content, hcontent⟩ := Option.isSome_iff_exists.mp (hregular.queries href hrole hfile)
  obtain ⟨permissions, text, hfile', rfl⟩ := exists_file_of_readText hcontent
  obtain rfl := Option.some.inj (hfile'.symm.trans hfile)
  obtain ⟨hreturn, _⟩ := plain_of_embed hregular href (hregular.roles href hrole).1 hfile rfl
  rw [universalNewlines_of_notMem hreturn] at hcontent
  have hreferences : (rewriteQueryIncludes text).references = [] := by
    simpa only [queryReferences, hcontent] using hnil
  have hfill : (rewriteQueryIncludes text).fill (source.loadedPath tempDir (dirname location)) =
      text := fill_of_no_markers hreferences
  have hmeets : source.Meets target tempDir .query location ⟨.utf8 text, permissions⟩ written ↔
      written.bytes = .utf8 text := by
    refine ⟨?_, fun h => ⟨text, rfl, h.trans (congrArg FileBytes.utf8 hfill.symm)⟩⟩
    rintro ⟨text', htext, hwritten⟩
    cases htext
    exact hwritten.trans (congrArg FileBytes.utf8 hfill)
  exact Iff.trans ⟨meets_congr (.inl rfl) hrole, meets_congr hrole (.inl rfl)⟩ hmeets

/-- What is asked of a file is met by its embedding in whichever of its roles it was recorded. -/
theorem meets_recorded (hregular : source.Regular target) {role' : Role}
    (href : source.Referenced target role location) (hrole : role ≠ .yaml)
    (href' : source.Referenced target role' location)
    (hfile : source.tree.file? location = some file)
    (hembed : source.embed role' location = some entry) :
    source.Meets target tempDir role location file (entry.materialize tempDir umask) := by
  cases role with
  | yaml => exact absurd rfl hrole
  | executable =>
    obtain rfl := hregular.executables href href'
    exact meets_executable hregular href hfile hembed
  | query | queryInclude =>
    rcases role_of_query hregular href (by decide) href' with hquery | ⟨rfl, hnil⟩
    · exact meets_congr (by decide) hquery (meets_query hregular href' hquery hfile hembed)
    · -- it was recorded as a support file, and there is no marker in it
      refine (meets_query_iff hregular href (by decide) hfile hnil).mpr ?_
      exact meets_support hregular href' hfile hembed (hregular.roles href (by decide)).1
  | support =>
    cases role' with
    | yaml => exact fun hnot => absurd href' hnot
    | support => exact meets_support hregular href hfile hembed
    | executable => cases hregular.executables href' href
    | query | queryInclude =>
      intro _
      have hnil := (hregular.roles href' (by decide)).2 href
      exact (meets_query_iff hregular href' (by decide) hfile hnil).mp
        (meets_query hregular href' (by decide) hfile hembed)

/-- The hunt compiles with any depth of recursion from some one on, and every file that it
references is loaded as its role asks. -/
def LoadsFaithfully (source : HuntSource) (target : Location) (packageRoot : Option Location)
    (tempDir : Text) (umask : Nat) : Prop :=
  ∃ depth, ∀ budget ≥ depth, ∃ compiled loaded,
    compileHunt source.yaml source.tree budget target packageRoot = .ok compiled ∧
    loadCompiledHunt compiled tempDir umask = some (loaded, source.rel target) ∧
    ∀ role location file, source.Referenced target role location →
      source.tree.file? location = some file →
        ∃ written, loaded (source.rel location) = some written ∧
          source.Meets target tempDir role location file written

theorem loaded_of_mem {state : CompileState} (h : entry ∈ state.assets.files) :
    LoadedTree.writeAll tempDir umask
      (state.assets.files.insertionSort EmbeddedFile.Precedes) (fun _ => none) entry.path =
        some (entry.materialize tempDir umask) := by
  have hperm := perm_insertionSort EmbeddedFile.Precedes state.assets.files
  have hnodup : ((state.assets.files.insertionSort EmbeddedFile.Precedes).map (·.path)).Nodup :=
    (hperm.map _).nodup_iff.mpr state.assets.nodup
  exact LoadedTree.writeAll_of_mem hnodup (hperm.mem_iff.mpr h)

/-- A file in `/p`. -/
def inPackage (name : String) (h : name ≠ "" ∧ name ≠ "." ∧ name ≠ ".." := by decide) : Location :=
  [⟨"p", by decide⟩, ⟨name, h⟩]

def searchHunt (base query : String) : Yaml :=
  .map [(.str "include".toList, .seq [.str base.toList]),
    (.str "rule".toList, .map [(.str "search".toList, .str query.toList)])]

/-- A document with an executable and a support file. -/
def commandBase (path file : String) : Yaml :=
  .map [(.str "commands".toList, .seq [.map [(.str "type".toList, .str "executable".toList),
    (.str "path".toList, .str path.toList),
    (.str "files".toList, .seq [.str file.toList])]])]

/-- A hunt in `/p` with a file in each role. -/
def fiveRoles : HuntSource where
  yaml :=
    { safeLoad := fun text =>
        [("include:\n- base.yaml\nrule:\n  search: a.query\n", searchHunt "base.yaml" "a.query"),
          ("include:\n- /tmp/x/base.yaml\nrule:\n  search: /tmp/x/a.query\n",
            searchHunt "/tmp/x/base.yaml" "/tmp/x/a.query"),
          ("commands:\n- type: executable\n  path: run.sh\n  files:\n  - data.bin\n",
            commandBase "run.sh" "data.bin"),
          ("commands:\n- type: executable\n  path: /tmp/x/run.sh\n  files:\n  - /tmp/x/data.bin\n",
            commandBase "/tmp/x/run.sh" "/tmp/x/data.bin")].lookup (String.ofList text)
      safeDump := fun
        | .map ((.str ['i', 'n', 'c', 'l', 'u', 'd', 'e'], _) :: _) =>
          "include:\n- __pkg__/base.yaml\nrule:\n  search: __pkg__/a.query\n".toList
        | _ =>
          ("commands:\n- type: executable\n  path: __pkg__/run.sh\n" ++
            "  files:\n  - __pkg__/data.bin\n").toList }
  tree :=
    [(inPackage "hunt.yaml",
        ⟨.utf8 "include:\n- base.yaml\nrule:\n  search: a.query\n".toList, 420⟩),
      (inPackage "base.yaml", ⟨.utf8
        "commands:\n- type: executable\n  path: run.sh\n  files:\n  - data.bin\n".toList, 420⟩),
      (inPackage "a.query", ⟨.utf8 "index=x <include:b.txt>\n".toList, 420⟩),
      (inPackage "b.txt", ⟨.utf8 "host=y\n".toList, 420⟩),
      (inPackage "run.sh", ⟨.utf8 "#!/bin/sh\n".toList, 493⟩),
      (inPackage "data.bin", ⟨.binary [0, 255], 420⟩)]
  packageRoot := [⟨"p", by decide⟩]

def fiveRolesReferences : List (Role × Location) :=
  [(.yaml, inPackage "hunt.yaml"), (.yaml, inPackage "base.yaml"), (.query, inPackage "a.query"),
    (.queryInclude, inPackage "b.txt"), (.executable, inPackage "run.sh"),
    (.support, inPackage "data.bin")]

theorem fiveRoles_check : ∀ pair ∈ fiveRolesReferences,
    (∀ reference ∈ fiveRoles.referencesIn pair.1 pair.2,
      (match reference.authored with
        | .str authored =>
          decide ((reference.role, absRelativeTo authored (dirname pair.2)) ∈ fiveRolesReferences)
        | _ => false) = true) ∧
    (pair.1 = .yaml → (fiveRoles.document pair.2).isSome) ∧
    isUnder pair.2 fiveRoles.packageRoot ∧ ¬ pkgToken <:+: renderPath (fiveRoles.rel pair.2) ∧
    (∀ document ∈ fiveRoles.document pair.2, document.Lacks pkgToken) ∧
    (∀ file ∈ fiveRoles.tree.file? pair.2,
      (match file.bytes with
        | .utf8 text => decide ('\r' ∉ text ∧ ¬ pkgToken <:+: text)
        | .binary _ => true) = true) ∧
    (pair.1.IsQuery → (fiveRoles.tree.readText pair.2).isSome) := by decide +kernel

theorem fiveRoles_referenced {role : Role} {location : Location}
    (h : fiveRoles.Referenced (inPackage "hunt.yaml") role location) :
    (role, location) ∈ fiveRolesReferences := by
  induction h with
  | target => decide
  | @step role role' location authored before hmem ih =>
    exact of_decide_eq_true ((fiveRoles_check _ ih).1 _ hmem)

theorem fiveRoles_acyclic {location : Location}
    (h : location = inPackage "a.query" ∨ location = inPackage "b.txt") :
    Acc fiveRoles.NestedIn location := by
  have hleaf : Acc fiveRoles.NestedIn (inPackage "b.txt") := by
    refine Acc.intro _ fun child hchild => ?_
    obtain ⟨authored, hmem, _⟩ := hchild
    have hnil : fiveRoles.queryReferences (inPackage "b.txt") = [] := by rfl
    rw [hnil] at hmem
    cases hmem
  rcases h with rfl | rfl
  · refine Acc.intro _ fun child hchild => ?_
    obtain ⟨authored, hmem, rfl⟩ := hchild
    have hone : fiveRoles.queryReferences (inPackage "a.query") =
        [⟨.queryInclude, .str "b.txt".toList⟩] := by rfl
    rw [hone] at hmem
    cases mem_singleton.mp hmem
    exact hleaf
  · exact hleaf

theorem fiveRoles_regular : fiveRoles.Regular (inPackage "hunt.yaml") where
  documents href := (fiveRoles_check _ (fiveRoles_referenced href)).2.1 rfl
  paths href reference hmem := by
    have hstring := (fiveRoles_check _ (fiveRoles_referenced href)).1 reference hmem
    split at hstring
    · next authored heq => exact ⟨authored, heq⟩
    · cases hstring
  inside href := (fiveRoles_check _ (fiveRoles_referenced href)).2.2.1
  names href := (fiveRoles_check _ (fiveRoles_referenced href)).2.2.2.1
  mappings href hdocument :=
    (fiveRoles_check _ (fiveRoles_referenced href)).2.2.2.2.1 _ hdocument
  texts href _ hfile :=
    of_decide_eq_true ((fiveRoles_check _ (fiveRoles_referenced href)).2.2.2.2.2.1 _ hfile)
  queries href hrole _ := (fiveRoles_check _ (fiveRoles_referenced href)).2.2.2.2.2.2 hrole
  acyclic href hrole := by
    have h : ∀ pair ∈ fiveRolesReferences, pair.1.IsQuery →
        pair.2 = inPackage "a.query" ∨ pair.2 = inPackage "b.txt" := by decide
    exact fiveRoles_acyclic (h _ (fiveRoles_referenced href) hrole)
  executables href href' := by
    have h : ∀ pair ∈ fiveRolesReferences, ∀ pair' ∈ fiveRolesReferences,
        pair.1 = .executable → pair.2 = pair'.2 → pair'.1 = .executable := by decide
    exact h _ (fiveRoles_referenced href) _ (fiveRoles_referenced href') rfl rfl
  roles href hrole := by
    have h : ∀ pair ∈ fiveRolesReferences, ∀ pair' ∈ fiveRolesReferences,
        pair.1.IsQuery → pair.2 = pair'.2 → pair'.1 ≠ .yaml ∧ pair'.1 ≠ .support := by decide
    have hother := fun {role'} href' =>
      h _ (fiveRoles_referenced href) (role', _) (fiveRoles_referenced href') hrole rfl
    exact ⟨fun h => (hother h).1 rfl, fun h => absurd rfl (hother h).2⟩

theorem addAsset_of_self_include {text authored : Text} {rest : List Reference}
    (htext : source.tree.readText location = some text)
    (hreferences : (rewriteQueryIncludes text).references =
      ⟨.queryInclude, .str authored⟩ :: rest)
    (hself : absRelativeTo authored (dirname location) = location)
    (hinside : isUnder location source.packageRoot) (budget : Nat) {role : Role}
    (hrole : role.IsQuery) {state : CompileState}
    (hnew : state.assets.contains (source.rel location) = false) :
    source.addAsset budget role location state = .error .recursionLimit := by
  obtain ⟨permissions, raw, hfile, _⟩ := exists_file_of_readText htext
  induction budget generalizing role with
  | zero => rfl
  | succ budget ih =>
    have hadd : source.addQueryFile role (source.addAsset budget) location state =
        .error .recursionLimit := by
      simp only [addQueryFile, hfile, hnew, Bool.false_eq_true, if_false, htext, hreferences,
        foldlM_cons, register, hself, hinside, if_true]
      rw [ih (.inr rfl)]
      rfl
    rcases hrole with rfl | rfl
    · exact hadd
    · exact hadd

def searchDocument : Yaml :=
  .map [(.str "rule".toList, .map [(.str "search".toList, .str "a.query".toList)])]

def selfIncluding : HuntSource where
  yaml :=
    { safeLoad := fun _ => some searchDocument
      safeDump := fun _ => "rule:\n  search: __pkg__/a.query\n".toList }
  tree :=
    [([⟨"p", by decide⟩, huntRootMarker], ⟨.utf8 [], 420⟩),
      (inPackage "hunt.yaml", ⟨.utf8 "rule:\n  search: a.query\n".toList, 420⟩),
      (inPackage "a.query", ⟨.utf8 "<include:a.query>".toList, 420⟩)]
  packageRoot := [⟨"p", by decide⟩]

end HuntSource

end Ace3.HuntCompiler
