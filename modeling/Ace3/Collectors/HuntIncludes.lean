import Ace3.Collectors.HuntFilePaths
import Ace3.Collectors.MergeFidelity
import Ace3.Lib.PostOrder
import Mathlib.Data.Fintype.Option

/-!
# Hunt Files that Include Others

`load_merged_yaml` of `saq/collectors/hunter/loader.py`. A hunt file is loaded after the files that
it includes, and merged into theirs. What is remembered of a file is the text of the path that led
to it, which is made anew from the directory of each including file.
-/

namespace Ace3.Collectors

open List
open Lib Lib.Nested Lib.PostOrder OsPath Relation

/-! ## §1 One file -/

structure HuntFiles (F : Type) where
  cwd : String
  /-- The file that `open` finds under a path. -/
  opened : String → Option F
  /-- `yaml.safe_load`. -/
  safeLoad : F → Option Yaml

variable {F : Type}

namespace HuntFiles

/-- The include directives of a file, and its content without them. -/
def loadFile (files : HuntFiles F) (path : String) : Except LoadError (List Yaml × YamlDict) := do
  match (files.opened path).bind files.safeLoad with
  | none => .error .unreadable
  | some loaded =>
    let loadedDict ← resolveFilePathsInDict (dirname (abspath files.cwd path)) loaded
    match loadedDict.lookup "include" with
    | none => return ([], loadedDict)
    | some (.list includes) => return (includes, loadedDict.filter (·.1 ≠ "include"))
    | some _ => .error .includeNotList

end HuntFiles

def includedPath (path : String) : Yaml → Except LoadError String
  | .atom (.str includePath) =>
    .ok (if isabs includePath then includePath else join (dirname path) includePath)
  | _ => .error .malformed

def mergeLoaded (base override : YamlDict) : Except LoadError YamlDict :=
  match deepMerge base override with
  | .ok merged => .ok merged
  | .error e => .error (.merge e)

/-! ## §2 Includes -/

/-- The merged dictionary, `resolved_history`, and the paths whose content has been merged. -/
abbrev LoadedHunt := Visit String YamlDict

namespace HuntFiles

def loadAndMergeYaml (files : HuntFiles F) :
    Nat → List String → String → Except (Stop LoadError) LoadedHunt
  | 0, _, _ => .error .outOfFuel
  | fuel + 1, resolvedHistory, path => do
    let (includes, loadedDict) ← attempt (files.loadFile path)
    let state ← includes.foldlM (fun (state : LoadedHunt) directive => do
        let includePath ← attempt (includedPath path directive)
        -- a path that has been resolved is skipped
        if includePath ∈ state.history then return state
        else
          let included ← files.loadAndMergeYaml fuel (includePath :: state.history) includePath
          let result ← attempt (mergeLoaded state.value included.value)
          return ⟨result, included.history, state.left ++ included.left⟩)
      ⟨[], resolvedHistory, []⟩
    let result ← attempt (mergeLoaded state.value loadedDict)
    return ⟨result, state.history, state.left ++ [path]⟩

def loadMergedYaml (files : HuntFiles F) (fuel : Nat) (path : String) :
    Except (Stop LoadError) LoadedHunt :=
  files.loadAndMergeYaml fuel [path] path

theorem loadAndMergeYaml_eq_visit (files : HuntFiles F) (fuel : Nat) (resolvedHistory : List String)
    (path : String) : files.loadAndMergeYaml fuel resolvedHistory path =
      visit files.loadFile includedPath mergeLoaded [] fuel resolvedHistory path := by
  induction fuel generalizing resolvedHistory path with
  | zero => rfl
  | succ fuel ih =>
    have hdescend : files.loadAndMergeYaml fuel =
        visit files.loadFile includedPath mergeLoaded [] fuel :=
      funext fun history => funext fun path => ih history path
    rw [loadAndMergeYaml, visit, hdescend]
    rfl

/-- One of the include directives in the file at a path leads to another path. -/
abbrev Includes (files : HuntFiles F) : String → String → Prop := Edge files.loadFile includedPath

/-- The paths that are made by following include directives. -/
abbrev Reaches (files : HuntFiles F) : String → String → Prop := ReflTransGen files.Includes

end HuntFiles

/-! ## §3 Contents that can be merged -/

/-- All entries of lists have identities, or none. -/
inductive Mergeable : Yaml → Prop
  | atom (a : YamlAtom) : Mergeable (.atom a)
  | list {items : List Yaml} (h : ∀ v ∈ items, HasIdentity v) : Mergeable (.list items)
  | dict {items : YamlDict} (h : ∀ item ∈ items, Mergeable item.2) : Mergeable (.dict items)

theorem mergeable_of_lookup {items : YamlDict} (h : ∀ item ∈ items, Mergeable item.2) {key : String}
    {v : Yaml} (hv : items.lookup key = some v) : Mergeable v := by
  obtain ⟨before, after, rfl, -⟩ := lookup_eq_some_iff.mp hv
  exact h (key, v) (mem_append_right _ mem_cons_self)

theorem mem_setItems {items : YamlDict} {key : String} {v : Yaml} {item : String × Yaml}
    (h : item ∈ OrderedDict.setItems key v items) : item = (key, v) ∨ item ∈ items := by
  induction items with
  | nil => exact Or.inl (mem_singleton.mp h)
  | cons other items ih =>
    obtain ⟨k, w⟩ := other
    rw [OrderedDict.setItems] at h
    split at h
    · rcases mem_cons.mp h with rfl | hmem
      · exact Or.inl rfl
      · exact Or.inr (mem_cons_of_mem _ hmem)
    · rcases mem_cons.mp h with rfl | hmem
      · exact Or.inr mem_cons_self
      · exact (ih hmem).imp_right (mem_cons_of_mem _)

theorem exists_mergeItems {base override : YamlDict} (hbase : ∀ item ∈ base, Mergeable item.2)
    (h : ∀ item ∈ override, ∀ old : Option Yaml, (∀ x ∈ old, Mergeable x) →
      ∃ y, mergeAt old item.2 = .ok y ∧ Mergeable y) :
    ∃ merged, mergeItems base override = .ok merged ∧ ∀ item ∈ merged, Mergeable item.2 := by
  induction override generalizing base with
  | nil => exact ⟨base, rfl, hbase⟩
  | cons item override ih =>
    obtain ⟨key, v⟩ := item
    obtain ⟨hv, hrest⟩ := forall_mem_cons.mp h
    obtain ⟨y, hy, hmergeable⟩ := hv (base.lookup key) fun x hx => mergeable_of_lookup hbase hx
    have hset : ∀ item ∈ OrderedDict.setItems key y base, Mergeable item.2 := by
      intro item hitem
      rcases mem_setItems hitem with rfl | hitem
      · exact hmergeable
      · exact hbase item hitem
    obtain ⟨merged, hmerge, hmerged⟩ := ih hset hrest
    refine ⟨merged, ?_, hmerged⟩
    rw [mergeItems_cons, hy]
    exact hmerge

theorem exists_mergeAt {v : Yaml} (hv : Mergeable v) {old : Option Yaml}
    (hold : ∀ x ∈ old, Mergeable x) : ∃ y, mergeAt old v = .ok y ∧ Mergeable y := by
  induction hv generalizing old with
  | atom a =>
    refine ⟨.atom a, ?_, .atom a⟩
    cases old with
    | none => rfl
    | some x => rfl
  | @list items hitems =>
    have hself : Mergeable (.list items) := .list hitems
    cases old with
    | none => exact ⟨.list items, rfl, hself⟩
    | some x =>
      cases x with
      | atom a => exact ⟨.list items, rfl, hself⟩
      | dict base => exact ⟨.list items, rfl, hself⟩
      | list base =>
        cases hold _ rfl with
        | list hbase =>
          have hmerge := mergeList_eq_ok_iff.mpr ⟨forall_mem_append.mpr ⟨hbase, hitems⟩, rfl⟩
          refine ⟨_, by rw [mergeAt, mergeValue, hmerge]; rfl, .list fun e he => ?_⟩
          exact (ListMerge.mem_or_mem_of_mem_merge he).elim (hbase e) (hitems e)
  | @dict items hitems ih =>
    have hself : Mergeable (.dict items) := .dict hitems
    cases old with
    | none => exact ⟨.dict items, rfl, hself⟩
    | some x =>
      cases x with
      | atom a => exact ⟨.dict items, rfl, hself⟩
      | list base => exact ⟨.dict items, rfl, hself⟩
      | dict base =>
        cases hold _ rfl with
        | dict hbase =>
          obtain ⟨merged, hmerge, hmerged⟩ := exists_mergeItems hbase
            fun item hitem old hold => ih item hitem hold
          exact ⟨.dict merged, by rw [mergeAt, mergeValue, hmerge]; rfl, .dict hmerged⟩

theorem exists_mergeLoaded {base override : YamlDict} (hbase : Mergeable (.dict base))
    (hoverride : Mergeable (.dict override)) :
    ∃ merged, mergeLoaded base override = .ok merged ∧ Mergeable (.dict merged) := by
  cases hbase with
  | dict hbase =>
    cases hoverride with
    | dict hoverride =>
      obtain ⟨merged, hmerge, hmerged⟩ := exists_mergeItems hbase
        fun item hitem old hold => exists_mergeAt (hoverride item hitem) hold
      exact ⟨merged, by rw [mergeLoaded, deepMerge, hmerge], .dict hmerged⟩

/-! ## §4 Once each -/

/-- The file at the path is loaded: its include directives are texts, and its content can be
merged. -/
def HuntFiles.Loads (files : HuntFiles F) (path : String) : Prop :=
  ∃ includes content, files.loadFile path = .ok (includes, content) ∧ Mergeable (.dict content) ∧
    ∀ directive ∈ includes, ∃ text, directive = .atom (.str text)

theorem HuntFiles.Loads.ready {files : HuntFiles F} {path : String} (h : files.Loads path) :
    Ready files.loadFile includedPath (fun content => Mergeable (.dict content)) path := by
  obtain ⟨includes, content, hload, hcontent, htexts⟩ := h
  refine ⟨includes, content, hload, hcontent, fun directive hdirective => ?_⟩
  obtain ⟨text, rfl⟩ := htexts directive hdirective
  exact ⟨_, rfl⟩

/-- Where all files load, a load ends and merges the content of each file that is reached once,
exactly if no file is reached by two texts. -/
theorem HuntFiles.loadMergedYaml_once_iff [Finite F] [DecidableEq F] (files : HuntFiles F)
    (root : String) (hloads : ∀ path, files.Reaches root path → files.Loads path) :
    (∃ fuel loaded, files.loadMergedYaml fuel root = .ok loaded ∧
      ∀ path, files.Reaches root path →
        (loaded.left.map files.opened).count (files.opened path) = 1) ↔
    ∀ path path', files.Reaches root path → files.Reaches root path' →
      files.opened path = files.opened path' → path = path' := by
  let good : YamlDict → Prop := fun content => Mergeable (.dict content)
  have hempty : good [] := .dict fun item hitem => absurd hitem not_mem_nil
  have hmerge : ∀ x y, good x → good y → ∃ z, mergeLoaded x y = .ok z ∧ good z :=
    fun _ _ hx hy => exists_mergeLoaded hx hy
  have honce := visit_once_iff files.opened hempty hmerge
    fun path hpath => (hloads path hpath).ready
  simp only [HuntFiles.loadMergedYaml, loadAndMergeYaml_eq_visit]
  rw [honce]
  exact ⟨fun h path path' hpath hpath' heq => h hpath hpath' heq,
    fun h path hpath path' hpath' heq => h path path' hpath hpath' heq⟩

theorem HuntFiles.mem_of_reaches {files : HuntFiles F} {paths : List String}
    (hclosed : ∀ path ∈ paths, ∃ includes content, files.loadFile path = .ok (includes, content) ∧
      ∀ directive ∈ includes, ∃ path' ∈ paths, includedPath path directive = .ok path')
    {root path : String} (hroot : root ∈ paths) (h : files.Reaches root path) : path ∈ paths := by
  induction h with
  | refl => exact hroot
  | tail _ hedge ih =>
    obtain ⟨includes, content, hload, hincludes⟩ := hclosed _ ih
    obtain ⟨includes', content', hload', directive, hdirective, hpath⟩ := hedge
    obtain ⟨rfl, -⟩ := Prod.mk.inj (Except.ok.inj (hload.symm.trans hload'))
    obtain ⟨path', hmem, heq⟩ := hincludes directive hdirective
    exact Except.ok.inj (heq.symm.trans hpath) ▸ hmem

def eachOther : HuntFiles Bool where
  cwd := "/"
  opened path :=
    if normpath path = "/h/a.yaml" then some false
    else if normpath path = "/h/b.yaml" then some true else none
  safeLoad file :=
    some (.dict [("include", .list [.atom (.str (if file then "a.yaml" else "b.yaml"))])])

/-- Each of them is merged once. -/
theorem eachOther_once :
    ∃ fuel loaded, eachOther.loadMergedYaml fuel "/h/a.yaml" = .ok loaded ∧
      ∀ path, eachOther.Reaches "/h/a.yaml" path →
        (loaded.left.map eachOther.opened).count (eachOther.opened path) = 1 := by
  have hpaths : ∀ path, eachOther.Reaches "/h/a.yaml" path → path ∈ ["/h/a.yaml", "/h/b.yaml"] := by
    refine fun path => HuntFiles.mem_of_reaches ?_ mem_cons_self
    refine forall_mem_cons.mpr ⟨⟨[.atom (.str "b.yaml")], [], rfl, ?_⟩,
      forall_mem_singleton.mpr ⟨[.atom (.str "a.yaml")], [], rfl, ?_⟩⟩
    · exact forall_mem_singleton.mpr ⟨"/h/b.yaml", by decide, rfl⟩
    · exact forall_mem_singleton.mpr ⟨"/h/a.yaml", by decide, rfl⟩
  refine (HuntFiles.loadMergedYaml_once_iff eachOther "/h/a.yaml" fun path hpath => ?_).mpr
    fun path path' hpath hpath' => ?_
  · have hnone : Mergeable (.dict []) := .dict fun item hitem => absurd hitem not_mem_nil
    rcases mem_pair.mp (hpaths path hpath) with rfl | rfl
    · exact ⟨[.atom (.str "b.yaml")], [], rfl, hnone,
        forall_mem_singleton.mpr ⟨"b.yaml", rfl⟩⟩
    · exact ⟨[.atom (.str "a.yaml")], [], rfl, hnone,
        forall_mem_singleton.mpr ⟨"a.yaml", rfl⟩⟩
  · rcases mem_pair.mp (hpaths path hpath) with rfl | rfl <;>
      rcases mem_pair.mp (hpaths path' hpath') with rfl | rfl <;> decide

def twoTexts : HuntFiles Bool where
  cwd := "/"
  opened path :=
    if normpath path = "/h/a.yaml" then some false
    else if normpath path = "/h/b.yaml" then some true else none
  safeLoad file :=
    if file then some (.dict [("tags", .list [.atom (.str "x")])])
    else some (.dict [("include", .list [.atom (.str "b.yaml"), .atom (.str "./b.yaml")])])

/-- The other file is not merged once. -/
theorem twoTexts_not_once :
    (∀ path, twoTexts.Reaches "/h/a.yaml" path → twoTexts.Loads path) ∧
    ¬ ∃ fuel loaded, twoTexts.loadMergedYaml fuel "/h/a.yaml" = .ok loaded ∧
      ∀ path, twoTexts.Reaches "/h/a.yaml" path →
        (loaded.left.map twoTexts.opened).count (twoTexts.opened path) = 1 := by
  have hroot : twoTexts.loadFile "/h/a.yaml" =
      .ok ([.atom (.str "b.yaml"), .atom (.str "./b.yaml")], []) := rfl
  have hother : ∀ path ∈ ["/h/b.yaml", "/h/./b.yaml"], twoTexts.loadFile path =
      .ok ([], [("tags", .list [.atom (.str "x")])]) := by decide
  have hpaths : ∀ path, twoTexts.Reaches "/h/a.yaml" path →
      path ∈ ["/h/a.yaml", "/h/b.yaml", "/h/./b.yaml"] := by
    refine fun path => HuntFiles.mem_of_reaches ?_ mem_cons_self
    refine forall_mem_cons.mpr ⟨⟨_, [], hroot, ?_⟩, fun path hpath =>
      ⟨[], _, hother path hpath, nofun⟩⟩
    exact forall_mem_cons.mpr ⟨⟨"/h/b.yaml", by decide, rfl⟩,
      forall_mem_singleton.mpr ⟨"/h/./b.yaml", by decide, rfl⟩⟩
  refine ⟨fun path hpath => ?_, ?_⟩
  · rcases mem_cons.mp (hpaths path hpath) with rfl | hpath
    · refine ⟨_, [], hroot, .dict fun item hitem => absurd hitem not_mem_nil, ?_⟩
      exact forall_mem_cons.mpr ⟨⟨"b.yaml", rfl⟩,
        forall_mem_singleton.mpr ⟨"./b.yaml", rfl⟩⟩
    · refine ⟨[], _, hother path hpath, .dict (forall_mem_singleton.mpr ?_), nofun⟩
      exact .list (forall_mem_singleton.mpr (hasIdentity_of_eq_ok rfl))
  · rintro ⟨fuel, loaded, hload, honce⟩
    rw [HuntFiles.loadMergedYaml, HuntFiles.loadAndMergeYaml_eq_visit] at hload
    have hreached : ∀ directive ∈ [Nested.atom (.str "b.yaml"), .atom (.str "./b.yaml")],
        ∀ path, includedPath "/h/a.yaml" directive = .ok path →
          twoTexts.Reaches "/h/a.yaml" path := fun directive hdirective path hpath =>
      .single ⟨_, [], hroot, directive, hdirective, hpath⟩
    have hsame := injOn_of_visit_once hload honce (hreached _ mem_cons_self "/h/b.yaml" rfl)
      (hreached _ (mem_cons_of_mem _ mem_cons_self) "/h/./b.yaml" rfl) (by decide)
    exact absurd hsame (by decide)

end Ace3.Collectors
