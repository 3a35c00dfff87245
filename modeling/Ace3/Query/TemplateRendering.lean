import Ace3.Analysis.Observable
import Ace3.Query.EventFlattening
import Mathlib.Data.List.Sort

/-!
# Rendering Templates

Templates are rendered by Jinja against the flattened event. Where templates refer to lists by
static paths, they are rendered once for every combination of elements: each list is replaced by
one of its elements in a copy of the flattened event.
-/

namespace Ace3.Query

open List
open Lib Lib.Nested
open Analysis (addNew)

/-! ## §1 Templates -/

/-- The syntax tree that Jinja parses a template to. -/
inductive Node where
  | name (name : String)
  | getattr (node : Node) (attr : String)
  | getitem (node arg : Node)
  /-- A constant, with its value if that is a string or an integer; `True` and `False` are the
  integers 1 and 0. -/
  | const (value : Option Key)
  | other (children : List Node)

mutual

/-- `parsed.find_all((Name, Getattr, Getitem))`, in the order of the walk. -/
def findAll : Node → List Node
  | .name name => [.name name]
  | .getattr node attr => .getattr node attr :: findAll node
  | .getitem node arg => .getitem node arg :: (findAll node ++ findAll arg)
  | .const _ => []
  | .other children => findAllIn children

def findAllIn : List Node → List Node
  | [] => []
  | node :: nodes => findAll node ++ findAllIn nodes

end

def nodeToChain : Node → Option (List Key)
  | .name name => some [.str name]
  | .getattr node attr => (nodeToChain node).map (· ++ [.str attr])
  | .getitem node (.const (some key)) => (nodeToChain node).map (· ++ [key])
  | _ => none

/-- `any(len(chain) < len(k) and k[: len(chain)] == chain for k in kept)`. -/
def coveredBy (kept : List (List Key)) (chain : List Key) : Bool :=
  kept.any fun k => chain.length < k.length && k.take chain.length == chain

/-- One step of the loop that keeps the maximal chains. -/
def keepChain (kept : List (List Key)) (chain : List Key) : List (List Key) :=
  if coveredBy kept chain then kept else if chain ∈ kept then kept else kept ++ [chain]

def extractPaths (parsed : Node) : List (List Key) :=
  (((findAll parsed).filterMap nodeToChain).insertionSort
    fun a b => b.length ≤ a.length).foldl keepChain []

/-! ## §2 Paths through lists -/

def resolvePath : List Key → Val → Option Val
  | [], cursor => some cursor
  | key :: path, .dict items => (items.lookup key).bind (resolvePath path)
  | .int i :: path, .list items =>
    if 0 ≤ i then (items[i.toNat]?).bind (resolvePath path) else none
  | _ :: _, _ => none

def setPath (value : Val) : List Key → Items → Items
  | [], data => data
  | [key], data => OrderedDict.setItems key value data
  | key :: path, data =>
    OrderedDict.setItems key (.dict (setPath value path (nestedUnder key data))) data

/-! ## §3 Rendering -/

/-- What comes of rendering a template: its text, the error of a strict environment on a missing
variable, or another error. -/
inductive Rendered where
  | text (s : String)
  | undefinedError
  | otherError
  deriving DecidableEq

structure Jinja where
  /-- `Environment().parse(template)`, or nothing on a syntax error. -/
  parse : String → Option Node
  /-- The template rendered against a dictionary, in the strict or the permissive environment. -/
  render : String → Items → Bool → Rendered

/-- `UndefinedError` was raised. -/
inductive Undefined where
  | raised
  deriving DecidableEq

variable (jinja : Jinja)

def renderJinjaTemplate (template : String) (event : Items) (strict : Bool) :
    Except Undefined (Option String) :=
  match jinja.render template event strict with
  | .text s => .ok (some s)
  | .undefinedError => if strict then .error .raised else .ok none
  | .otherError => .ok none

def renderEventTemplate (template : String) (event : Event) (strict : Bool) :
    Except Undefined (Option String) :=
  renderJinjaTemplate jinja template (expandDottedKeys event.items) strict

def renderRow (scope : Items) (strict : Bool) : List String → Except Undefined (Option (List String))
  | [] => .ok (some [])
  | template :: templates =>
    match renderJinjaTemplate jinja template scope strict with
    | .error e => .error e
    | .ok none => .ok none
    | .ok (some rendered) =>
      (renderRow scope strict templates).map fun row => row.map (rendered :: ·)

/-- The paths that the templates refer to, each one once, in the order of their first reference. -/
def allPaths (parsed : List Node) : List (List Key) :=
  (parsed.flatMap extractPaths).foldl addNew []

def axes (flat : Items) (paths : List (List Key)) : List (List Key × List Val) :=
  paths.filterMap fun path =>
    match resolvePath path (.dict flat) with
    | some (.list items) => some (path, items)
    | _ => none

/-- `itertools.product`. -/
def product {α : Type*} : List (List α) → List (List α)
  | [] => [[]]
  | values :: rest => values.flatMap fun value => (product rest).map (value :: ·)

/-- The copy of the flattened event in which each list is replaced by an element. -/
def scopedTo (flat : Items) (assigned : List (List Key × Val)) : Items :=
  assigned.foldl (fun scope (path, scalar) => setPath scalar path scope) flat

def renderEventTemplatesMulti (templates : List String) (event : Event) (strict : Bool) :
    Except Undefined (List (List String)) :=
  let flat := expandDottedKeys event.items
  match templates.mapM jinja.parse with
  | none => .ok []
  | some parsed =>
    let axes := axes flat (allPaths parsed)
    -- an empty list anywhere: nothing is rendered
    if axes.any fun axis => axis.2.isEmpty then .ok []
    else if axes.isEmpty then (renderRow jinja flat strict templates).map Option.toList
    else
      ((product (axes.map (·.2))).mapM fun combo =>
        renderRow jinja (scopedTo flat ((axes.map (·.1)).zip combo)) strict templates).map
          List.reduceOption

def renderEventTemplateMulti (template : String) (event : Event) (strict : Bool) :
    Except Undefined (List String) :=
  (renderEventTemplatesMulti jinja [template] event strict).map fun rows =>
    rows.filterMap List.head?

/-! ## §4 Extracted paths -/

def chains (parsed : Node) : List (List Key) := (findAll parsed).filterMap nodeToChain

def Refers (parsed : Node) (path : List Key) : Prop :=
  path ∈ chains parsed ∧ ∀ longer ∈ chains parsed, path <+: longer → longer = path

theorem coveredBy_iff {kept : List (List Key)} {chain : List Key} :
    coveredBy kept chain = true ↔ ∃ k ∈ kept, chain <+: k ∧ k ≠ chain := by
  simp only [coveredBy, any_eq_true, Bool.and_eq_true, decide_eq_true_eq, beq_iff_eq]
  refine exists_congr fun k => and_congr_right fun _ => ⟨fun ⟨hlength, htake⟩ => ?_, ?_⟩
  · refine ⟨htake ▸ take_prefix chain.length k, ?_⟩
    rintro rfl
    exact lt_irrefl _ hlength
  · rintro ⟨hpre, hne⟩
    refine ⟨lt_of_le_of_ne hpre.length_le fun h => hne (hpre.eq_of_length h).symm, ?_⟩
    exact (prefix_iff_eq_take.mp hpre).symm

/-- The loop over chains that do not grow keeps those that no other chain goes on from, and every
chain begins one that is kept. -/
theorem mem_keepChains {l : List (List Key)} (hsorted : l.Pairwise fun a b => b.length ≤ a.length) :
    (∀ path, path ∈ l.foldl keepChain [] ↔
      path ∈ l ∧ ∀ longer ∈ l, path <+: longer → longer = path) ∧
    ∀ chain ∈ l, ∃ k ∈ l.foldl keepChain [], chain <+: k := by
  induction l using List.reverseRecOn with
  | nil => exact ⟨by simp, nofun⟩
  | append_singleton l chain ih =>
    obtain ⟨hl, -, hshort⟩ := pairwise_append.mp hsorted
    obtain ⟨hmem, hbegins⟩ := ih hl
    -- a chain that is kept so far is at least as long as the next one
    have hstays {path : List Key} (hpath : path ∈ l) (hpre : path <+: chain) : chain = path :=
      (hpre.eq_of_length_le (hshort path hpath chain (mem_singleton_self _))).symm
    have hkept {path : List Key} (h : path ∈ l.foldl keepChain []) : path ∈ l ++ [chain] ∧
        ∀ longer ∈ l ++ [chain], path <+: longer → longer = path := by
      obtain ⟨hpath, hlonger⟩ := (hmem path).mp h
      refine ⟨mem_append_left _ hpath, fun longer hmem hpre => ?_⟩
      obtain hmem | hmem := mem_append.mp hmem
      · exact hlonger longer hmem hpre
      · obtain rfl := mem_singleton.mp hmem
        exact hstays hpath hpre
    have hearlier {path : List Key} (hpath : path ∈ l)
        (hlonger : ∀ longer ∈ l ++ [chain], path <+: longer → longer = path) :
        path ∈ l.foldl keepChain [] :=
      (hmem path).mpr ⟨hpath, fun longer hmem => hlonger longer (mem_append_left _ hmem)⟩
    rw [foldl_append, foldl_cons, foldl_nil, keepChain]
    split
    · rename_i hcovered
      obtain ⟨k, hk, hpre, hne⟩ := coveredBy_iff.mp hcovered
      refine ⟨fun path => ⟨hkept, fun ⟨hpath, hlonger⟩ => ?_⟩, ?_⟩
      · obtain hpath | hpath := mem_append.mp hpath
        · exact hearlier hpath hlonger
        · obtain rfl := mem_singleton.mp hpath
          exact absurd (hlonger k (mem_append_left _ ((hmem k).mp hk).1) hpre) hne
      · rw [forall_mem_append, forall_mem_singleton]
        exact ⟨hbegins, k, hk, hpre⟩
    · split
      · rename_i hchain
        refine ⟨fun path => ⟨hkept, fun ⟨hpath, hlonger⟩ => ?_⟩, ?_⟩
        · obtain hpath | hpath := mem_append.mp hpath
          · exact hearlier hpath hlonger
          · obtain rfl := mem_singleton.mp hpath
            exact hchain
        · rw [forall_mem_append, forall_mem_singleton]
          exact ⟨hbegins, chain, hchain, prefix_rfl⟩
      · rename_i hcovered _
        refine ⟨fun path => ⟨fun hpath => ?_, fun ⟨hpath, hlonger⟩ => ?_⟩, ?_⟩
        · obtain hpath | hpath := mem_append.mp hpath
          · exact hkept hpath
          · obtain rfl := mem_singleton.mp hpath
            refine ⟨mem_append_right _ (mem_singleton_self _), fun longer hmem hp => ?_⟩
            obtain hmem | hmem := mem_append.mp hmem
            · -- what a longer chain began with was kept, so it covers this one
              obtain ⟨k, hk, hlonger⟩ := hbegins longer hmem
              by_contra hne
              refine hcovered (coveredBy_iff.mpr ⟨k, hk, hp.trans hlonger, ?_⟩)
              rintro rfl
              exact hne (hlonger.eq_of_length_le hp.length_le)
            · exact mem_singleton.mp hmem
        · obtain hpath | hpath := mem_append.mp hpath
          · exact mem_append_left _ (hearlier hpath hlonger)
          · exact mem_append_right _ hpath
        · rw [forall_mem_append, forall_mem_singleton]
          refine ⟨fun c hc => ?_, chain, mem_append_right _ (mem_singleton_self _),
            prefix_rfl⟩
          obtain ⟨k, hk, hpre⟩ := hbegins c hc
          exact ⟨k, mem_append_left _ hk, hpre⟩

theorem mem_extractPaths_iff {parsed : Node} {path : List Key} :
    path ∈ extractPaths parsed ↔ Refers parsed path := by
  have hperm := perm_insertionSort (fun a b : List Key => b.length ≤ a.length) (chains parsed)
  have hsorted : ((chains parsed).insertionSort fun a b => b.length ≤ a.length).Pairwise
      fun a b => b.length ≤ a.length :=
    haveI : Std.Total fun a b : List Key => b.length ≤ a.length :=
      ⟨fun a b => le_total b.length a.length⟩
    haveI : IsTrans (List Key) fun a b => b.length ≤ a.length := ⟨fun _ _ _ h h' => h'.trans h⟩
    pairwise_insertionSort _ _
  rw [extractPaths, Refers]
  refine ((mem_keepChains hsorted).1 path).trans ?_
  simp only [hperm.mem_iff]

end Ace3.Query
