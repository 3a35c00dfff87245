import Ace3.Query.TemplateRendering

/-!
# The Expansion of Lists

Templates that refer to lists are rendered once for every combination of elements. A list that is
reached through dictionaries only is replaced where it lies, and nothing beside it changes; one that
is reached through an index would take the rest of the indexed list with it.
-/

namespace Ace3.Query

open List
open Lib Lib.Nested
open Analysis (mem_foldl_addNew nodup_foldl_addNew)

/-! ## §1 Paths beside each other -/

def Beside (path other : List Key) : Prop := ¬ path <+: other ∧ ¬ other <+: path

variable {path other rest : List Key} {value v : Val} {items : Items}

theorem Beside.symm (h : Beside path other) : Beside other path := ⟨h.2, h.1⟩

theorem resolvePath_append (path rest : List Key) (v : Val) :
    resolvePath (path ++ rest) v = (resolvePath path v).bind (resolvePath rest) := by
  induction path generalizing v with
  | nil => rfl
  | cons key path ih =>
    cases v with
    | atom a => cases key <;> rfl
    | dict items =>
      rw [cons_append, resolvePath, resolvePath, Option.bind_assoc]
      exact congrArg _ (funext ih)
    | list items =>
      cases key with
      | str s => rfl
      | int i =>
        rw [cons_append, resolvePath, resolvePath]
        split
        · rw [Option.bind_assoc]
          exact congrArg _ (funext ih)
        · rfl

theorem resolvePath_of_find (h : find path v = some value) : resolvePath path v = some value := by
  induction path generalizing v with
  | nil => rwa [find_nil] at h
  | cons key path ih =>
    cases v with
    | atom a => cases h
    | list l => cases h
    | dict items =>
      rw [find_dict] at h
      obtain ⟨w, hw, hfind⟩ := Option.bind_eq_some_iff.mp h
      rw [resolvePath, hw, Option.bind_some, ih hfind]

theorem setPath_cons {key : Key} (hrest : rest ≠ []) (value : Val) (data : Items) :
    setPath value (key :: rest) data =
      OrderedDict.setItems key (.dict (setPath value rest (nestedUnder key data))) data := by
  obtain ⟨key', rest, rfl⟩ := exists_cons_of_ne_nil hrest
  rfl

theorem find_setPath (hpath : path ≠ []) (value : Val) (items : Items) :
    find path (.dict (setPath value path items)) = some value := by
  induction path generalizing items with
  | nil => exact absurd rfl hpath
  | cons key path ih =>
    by_cases hrest : path = []
    · rw [hrest, setPath, find_dict, OrderedDict.lookup_setItems, if_pos rfl, Option.bind_some,
        find_nil]
    · rw [setPath_cons hrest, find_dict, OrderedDict.lookup_setItems, if_pos rfl, Option.bind_some,
        ih hrest]

theorem find_nestedUnder {key : Key} (hrest : rest ≠ [])
    (h : find (key :: rest) (.dict items) = some v) :
    items.lookup key = some (.dict (nestedUnder key items)) ∧
      find rest (.dict (nestedUnder key items)) = some v := by
  rw [find_dict] at h
  obtain ⟨w, hw, hfind⟩ := Option.bind_eq_some_iff.mp h
  have hdict : w.isDict = true := by
    by_contra hdict
    rw [find_of_not_isDict hrest (Bool.eq_false_iff.mpr hdict)] at hfind
    cases hfind
  obtain ⟨existing, rfl⟩ := exists_of_isDict hdict
  rw [nestedUnder, hw]
  exact ⟨rfl, hfind⟩

/-- What a walk through dictionaries finds beside a path through dictionaries, it also finds after
the path was set. -/
theorem descend_setPath {descend : List Key → Val → Option Val}
    (hdescend : ∀ key path items,
      descend (key :: path) (.dict items) = (items.lookup key).bind (descend path))
    (h : find path (.dict items) = some v) (hbeside : Beside path other) (value : Val) :
    descend other (.dict (setPath value path items)) = descend other (.dict items) := by
  induction path generalizing items other with
  | nil => exact absurd nil_prefix hbeside.1
  | cons key path ih =>
    cases other with
    | nil => exact absurd nil_prefix hbeside.2
    | cons key' other =>
      by_cases hrest : path = []
      · subst hrest
        have hne : key' ≠ key := by
          rintro rfl
          exact hbeside.1 (by simp)
        rw [setPath, hdescend, hdescend, OrderedDict.lookup_setItems, if_neg hne]
      · rw [setPath_cons hrest, hdescend, hdescend, OrderedDict.lookup_setItems]
        split
        · rename_i hkey
          subst hkey
          -- the dictionary under the key is there, so no list is replaced by a new one
          obtain ⟨hlookup, hfind⟩ := find_nestedUnder hrest h
          have hbeside' : Beside path other := by
            simpa [Beside, cons_prefix_cons] using hbeside
          rw [hlookup, Option.bind_some, Option.bind_some, ih hfind hbeside']
        · rfl

/-! ## §2 One combination -/

/-- The paths are beside each other, and dictionaries lead to what lies at them. -/
def Separate (flat : Items) (paths : List (List Key)) : Prop :=
  paths.Pairwise Beside ∧ ∀ path ∈ paths, path ≠ [] ∧ ∃ v, find path (.dict flat) = some v

/-- The copy for a combination: every path holds its element, and what lies beside the paths is
what it was. -/
structure Holds (flat : Items) (assigned : List (List Key × Val)) (scope : Items) : Prop where
  element : ∀ path v, (path, v) ∈ assigned → find path (.dict scope) = some v
  beside : ∀ other, (∀ path ∈ assigned.map (·.1), Beside path other) →
    resolvePath other (.dict scope) = resolvePath other (.dict flat) ∧
      find other (.dict scope) = find other (.dict flat)

theorem holds_scopedTo {assigned : List (List Key × Val)} {flat : Items}
    (h : Separate flat (assigned.map (·.1))) : Holds flat assigned (scopedTo flat assigned) := by
  induction assigned generalizing flat with
  | nil => exact ⟨nofun, fun _ _ => ⟨rfl, rfl⟩⟩
  | cons first assigned ih =>
    obtain ⟨path, value⟩ := first
    obtain ⟨hbeside, hfound⟩ := h
    rw [map_cons, pairwise_cons] at hbeside
    obtain ⟨hpath, v, hv⟩ := hfound path mem_cons_self
    have hresolve : ∀ {other}, Beside path other →
        resolvePath other (.dict (setPath value path flat)) = resolvePath other (.dict flat) :=
      fun hother => descend_setPath (fun _ _ _ => rfl) hv hother value
    have hfind : ∀ {other}, Beside path other →
        find other (.dict (setPath value path flat)) = find other (.dict flat) :=
      fun hother => descend_setPath find_dict hv hother value
    have hrest : Holds (setPath value path flat) assigned
        (scopedTo (setPath value path flat) assigned) := by
      refine ih ⟨hbeside.2, fun other hother => ?_⟩
      obtain ⟨hne, w, hw⟩ := hfound other (mem_cons_of_mem _ hother)
      exact ⟨hne, w, (hfind (hbeside.1 other hother)).trans hw⟩
    have hscope : scopedTo flat ((path, value) :: assigned) =
        scopedTo (setPath value path flat) assigned := rfl
    rw [hscope]
    constructor
    · intro other w hmem
      obtain heq | hmem := mem_cons.mp hmem
      · obtain ⟨rfl, rfl⟩ := Prod.mk.inj heq
        -- the paths that are set later lie beside this one
        rw [(hrest.beside other fun later hlater => (hbeside.1 later hlater).symm).2]
        exact find_setPath hpath w flat
      · exact hrest.element other w hmem
    · intro other hother
      have hfirst := hother path mem_cons_self
      obtain ⟨hresolve', hfind'⟩ := hrest.beside other fun later hlater =>
        hother later (mem_cons_of_mem _ hlater)
      exact ⟨hresolve'.trans (hresolve hfirst), hfind'.trans (hfind hfirst)⟩

/-! ## §3 The rows -/

def IsAxis (parsed : List Node) (flat : Items) (path : List Key) (elements : List Val) : Prop :=
  (∃ template ∈ parsed, Refers template path) ∧
    resolvePath path (.dict flat) = some (.list elements)

variable {parsed : List Node}

theorem mem_allPaths_iff :
    path ∈ allPaths parsed ↔ ∃ template ∈ parsed, Refers template path := by
  rw [allPaths, mem_foldl_addNew]
  simp only [not_mem_nil, false_or, mem_flatMap, mem_extractPaths_iff]

theorem mem_axes_iff {flat : Items} {elements : List Val} :
    (path, elements) ∈ axes flat (allPaths parsed) ↔ IsAxis parsed flat path elements := by
  rw [axes, mem_filterMap, IsAxis, ← mem_allPaths_iff]
  constructor
  · rintro ⟨p, hp, h⟩
    split at h
    · rename_i items hitems
      obtain ⟨rfl, rfl⟩ := Prod.mk.inj (Option.some.inj h)
      exact ⟨hp, hitems⟩
    · cases h
  · rintro ⟨hp, h⟩
    exact ⟨path, hp, by rw [h]⟩

theorem nodup_axes (parsed : List Node) (flat : Items) :
    ((axes flat (allPaths parsed)).map (·.1)).Nodup := by
  have hsub : ∀ paths : List (List Key), ((axes flat paths).map (·.1)).Sublist paths := by
    intro paths
    induction paths with
    | nil => exact List.Sublist.slnil
    | cons p paths ih =>
      unfold axes at ih ⊢
      rw [filterMap_cons]
      split
      · exact ih.cons p
      · rename_i axis haxis
        split at haxis
        · rw [← Option.some.inj haxis]
          exact ih.cons_cons p
        · cases haxis
  exact (nodup_foldl_addNew _ nodup_nil).sublist (hsub _)

theorem length_of_mem_product {α : Type*} {lists : List (List α)} {combo : List α}
    (h : combo ∈ product lists) : combo.length = lists.length := by
  induction lists generalizing combo with
  | nil => simp [mem_singleton.mp h]
  | cons values lists ih =>
    obtain ⟨value, -, h⟩ := mem_flatMap.mp h
    obtain ⟨rest, hrest, rfl⟩ := mem_map.mp h
    rw [length_cons, length_cons, ih hrest]

theorem product_eq_nil {α : Type*} {lists : List (List α)} (h : [] ∈ lists) :
    product lists = [] := by
  induction lists with
  | nil => cases h
  | cons values lists ih =>
    obtain rfl | h := mem_cons.mp h
    · rfl
    · simp [product, ih h]

/-- What the templates are rendered against for one combination: each path to a list holds its
element, a longer path goes on within the element, a shorter one leads to a dictionary, and every
other path resolves to what it resolves to in the event. -/
structure Substituted (flat : Items) (axes : List (List Key × List Val)) (combo : List Val)
    (scope : Items) : Prop where
  element : ∀ path v, (path, v) ∈ (axes.map (·.1)).zip combo →
    ∀ rest, resolvePath (path ++ rest) (.dict scope) = resolvePath rest v
  shorter : ∀ path ∈ axes.map (·.1), ∀ start rest, rest ≠ [] → path = start ++ rest →
    ∃ inner, resolvePath start (.dict scope) = some (.dict inner)
  beside : ∀ other, (∀ path ∈ axes.map (·.1), Beside path other) →
    resolvePath other (.dict scope) = resolvePath other (.dict flat)

theorem separate_axes {flat : Items}
    (hthrough : ∀ path elements, IsAxis parsed flat path elements →
      (find path (.dict flat)).isSome = true) :
    Separate flat ((axes flat (allPaths parsed)).map (·.1)) := by
  have hlist : ∀ path ∈ (axes flat (allPaths parsed)).map (·.1), ∃ elements,
      find path (.dict flat) = some (.list elements) := by
    intro path hpath
    obtain ⟨⟨p, elements⟩, hmem, rfl⟩ := mem_map.mp hpath
    have haxis := mem_axes_iff.mp hmem
    obtain ⟨v, hv⟩ := Option.isSome_iff_exists.mp (hthrough p elements haxis)
    have hresolve := haxis.2
    rw [resolvePath_of_find hv, Option.some.injEq] at hresolve
    exact ⟨elements, hresolve ▸ hv⟩
  -- a list has nothing under a key, so no other path to a list goes on from it
  have hlonger : ∀ path ∈ (axes flat (allPaths parsed)).map (·.1),
      ∀ other ∈ (axes flat (allPaths parsed)).map (·.1), path ≠ other → ¬ path <+: other := by
    rintro path hpath _ hother hne ⟨rest, rfl⟩
    obtain ⟨elements, hv⟩ := hlist path hpath
    obtain ⟨elements', hv'⟩ := hlist _ hother
    have hrest : rest ≠ [] := fun h => hne (by simp [h])
    rw [find_append, hv, Option.bind_some, find_of_not_isDict hrest rfl] at hv'
    cases hv'
  constructor
  · refine (nodup_axes parsed flat).imp_of_mem fun hpath hother hne => ?_
    exact ⟨hlonger _ hpath _ hother hne, hlonger _ hother _ hpath hne.symm⟩
  · intro path hpath
    obtain ⟨elements, hv⟩ := hlist path hpath
    refine ⟨?_, .list elements, hv⟩
    rintro rfl
    rw [find_nil] at hv
    cases hv

theorem Holds.substituted {flat scope : Items} {axes : List (List Key × List Val)}
    {combo : List Val} (hlength : combo.length = axes.length)
    (h : Holds flat ((axes.map (·.1)).zip combo) scope) : Substituted flat axes combo scope := by
  have hpaths : ((axes.map (·.1)).zip combo).map (·.1) = axes.map (·.1) :=
    map_fst_zip (by rw [length_map, hlength])
  refine ⟨fun path v hmem rest => ?_, fun path hpath start rest hrest heq => ?_,
    fun other hother => (h.beside other (by rwa [hpaths])).1⟩
  · rw [resolvePath_append, resolvePath_of_find (h.element path v hmem), Option.bind_some]
  · rw [← hpaths] at hpath
    obtain ⟨⟨p, v⟩, hmem, rfl⟩ := mem_map.mp hpath
    have hfind := h.element p v hmem
    rw [show p = start ++ rest from heq, find_append] at hfind
    obtain ⟨w, hw, hrest'⟩ := Option.bind_eq_some_iff.mp hfind
    have hdict : w.isDict = true := by
      by_contra hdict
      rw [find_of_not_isDict hrest (Bool.eq_false_iff.mpr hdict)] at hrest'
      cases hrest'
    obtain ⟨inner, rfl⟩ := exists_of_isDict hdict
    exact ⟨inner, resolvePath_of_find hw⟩

def dottedPath (template : String) : List String :=
  ObservableModifier.splitDots (String.ofList ((template.toList.drop 3).dropLast.dropLast.dropLast))

def printed : Val → String
  | .atom (.str s) => s
  | .dict [(.str key, .atom (.str s))] => "\x7b'" ++ key ++ "': '" ++ s ++ "'\x7d"
  | _ => ""

def dottedJinja : Jinja where
  parse template :=
    match dottedPath template with
    | [] => none
    | name :: attrs => some (.other [attrs.foldl .getattr (.name name)])
  render template scope strict :=
    match resolvePath ((dottedPath template).map .str) (.dict scope) with
    | some v => .text (printed v)
    | none => if strict then .undefinedError else .text ""

def listEvent : Event :=
  ⟨[(.str "a.b", .list [.atom (.str "x"), .atom (.str "y")]), (.str "c", .atom (.str "z"))],
    by decide⟩

example : renderEventTemplatesMulti dottedJinja
    ["\x7b\x7b a.b \x7d\x7d", "\x7b\x7b c \x7d\x7d"] listEvent true =
      .ok [["x", "z"], ["y", "z"]] := by decide

end Ace3.Query
