import Ace3.Analysis.TreeRegistry
import Ace3.Lib.Digraph
import Mathlib.Algebra.Order.BigOperators.Group.List
import Mathlib.Algebra.Order.Group.Nat
import Mathlib.Data.List.Flatten

/-!
# What Deleting an Analysis Leaves

`delete_analysis` looks at one observable at a time, and keeps those that another analysis has.
This is compared with what can still be reached from the root.
-/

set_option linter.unusedSectionVars false

namespace Ace3.Analysis

open List Function
open Relation Lib.Digraph

variable {ι κ : Type*} [DecidableEq ι] [DecidableEq κ]

namespace AnalysisTree

/-! ## §1 Reachability -/

/-- An analysis of the first observable lists the second. -/
def Leads (t : AnalysisTree ι κ) (o o' : ι) : Prop :=
  ∃ a ∈ t.analysesOf o, o' ∈ t.observables a

def Reachable (t : AnalysisTree ι κ) (o : ι) : Prop :=
  ∃ first ∈ t.rootObservables, ReflTransGen t.Leads first o

/-- `_analysis` of every observable is a dict, with the analyses under their module paths. -/
structure Keyed (n : TreeObjects ι κ) (t : AnalysisTree ι κ) : Prop where
  paths : ∀ o, ((t.slots o).map (·.1)).Nodup
  own : ∀ o path a, (path, some a) ∈ t.slots o → path = n.modulePath a

/-- A tree as the operations on it build it, with every observable reachable. -/
structure WellFormed (n : TreeObjects ι κ) (t : AnalysisTree ι κ) : Prop where
  registered : t.Registered n
  closed : t.Closed
  keyed : t.Keyed n
  reachable : ∀ o ∈ t.store, t.Reachable o

section Reach

variable {n : TreeObjects ι κ} {t t' : AnalysisTree ι κ} {o o' : ι} {a : κ}

theorem Pruned.leads (h : t.Pruned t') (hleads : t'.Leads o o') : t.Leads o o' := by
  obtain ⟨a, ha, hlisted⟩ := hleads
  rw [h.observables] at hlisted
  exact ⟨a, (h.analysesOf o).subset ha, hlisted⟩

theorem Pruned.keyed (h : t.Pruned t') (hkeyed : t.Keyed n) : t'.Keyed n :=
  ⟨fun o => (hkeyed.paths o).sublist ((h.slots o).map _),
    fun o path a hslot => hkeyed.own o path a ((h.slots o).subset hslot)⟩

theorem Closed.mem_of_leads (h : t.Closed) (ho : o ∈ t.store) (hleads : t.Leads o o') :
    o' ∈ t.store := by
  obtain ⟨a, ha, hlisted⟩ := hleads
  exact h.analyses a (mem_allNonRootAnalysis.mpr ⟨o, ho, ha⟩) o' hlisted

theorem Closed.mem_of_path (h : t.Closed) (ho : o ∈ t.store) (hpath : ReflTransGen t.Leads o o') :
    o' ∈ t.store := by
  induction hpath with
  | refl => exact ho
  | tail _ hleads ih => exact h.mem_of_leads ih hleads

theorem Closed.mem_of_reachable (h : t.Closed) (ho : t.Reachable o) : o ∈ t.store := by
  obtain ⟨first, hfirst, hpath⟩ := ho
  exact h.mem_of_path (h.root first hfirst) hpath

theorem Reachable.cases (h : t.Reachable o) :
    o ∈ t.rootObservables ∨ ∃ o', t.Reachable o' ∧ t.Leads o' o := by
  obtain ⟨first, hfirst, hpath⟩ := h
  cases hpath with
  | refl => exact .inl hfirst
  | tail hpath hleads => exact .inr ⟨_, ⟨first, hfirst, hpath⟩, hleads⟩

theorem Reachable.tail (h : t.Reachable o) (hleads : t.Leads o o') : t.Reachable o' := by
  obtain ⟨first, hfirst, hpath⟩ := h
  exact ⟨first, hfirst, hpath.tail hleads⟩

theorem exists_leads_of_cycle (h : TransGen t.Leads o o) :
    ∃ o', TransGen t.Leads o' o' ∧ ReflTransGen t.Leads o o' ∧ t.Leads o' o := by
  obtain ⟨o', hpath, hleads⟩ := TransGen.tail'_iff.mp h
  exact ⟨o', .head' hleads hpath, hpath, hleads⟩

end Reach

/-! ## §2 What is kept -/

section Kept

variable {n : TreeObjects ι κ} {first t t' : AnalysisTree ι κ} {o child : ι} {a : κ}
  {original : List ι} {base kept : ι → Prop}

/-- The observables of a set are in the registry, and each is in the base or listed by an
analysis of another one of them. -/
structure Supports (base kept : ι → Prop) (t : AnalysisTree ι κ) : Prop where
  stored : ∀ o, kept o → o ∈ t.store
  listed : ∀ o, kept o → base o ∨ ∃ o', kept o' ∧ t.Leads o' o

/-- An observable of the base that an analysis lists is one that the walk does not remove. -/
def Bases (original : List ι) (base : ι → Prop) (t : AnalysisTree ι κ) : Prop :=
  ∀ a ∈ t.allNonRootAnalysis, ∀ child ∈ t.observables a, base child → child ∈ original

theorem Supports.of_slots (h : Supports base kept t)
    (hslots : ∀ o, kept o → t'.slots o = t.slots o)
    (hobservables : t'.observables = t.observables) (hstored : ∀ o, kept o → o ∈ t'.store) :
    Supports base kept t' := by
  refine ⟨hstored, fun o ho => ?_⟩
  rcases h.listed o ho with hbase | ⟨o', ho', a, ha, hlisted⟩
  · exact .inl hbase
  · refine .inr ⟨o', ho', a, ?_, ?_⟩
    · rw [analysesOf, hslots o' ho']
      exact ha
    · rw [hobservables]
      exact hlisted

theorem Supports.unlink (h : Supports base kept t) (ho : ¬ kept o) (path : AnalysisPath) :
    Supports base kept (t.unlink o path) := by
  have hslots : ∀ o', kept o' → (t.unlink o path).slots o' = t.slots o' := by
    intro o' ho'
    have hne : o' ≠ o := by
      rintro rfl
      exact ho ho'
    exact update_of_ne hne _ _
  exact h.of_slots hslots rfl h.stored

theorem supports_foldl {α : Type*} {step : AnalysisTree ι κ → α → AnalysisTree ι κ}
    (items : List α) (hpruned : ∀ t item, Pruned t (step t item))
    (hstep : ∀ t, ∀ item ∈ items, first.Pruned t → Supports base kept t →
      Supports base kept (step t item))
    (hfirst : first.Pruned t) (h : Supports base kept t) :
    Supports base kept (items.foldl step t) := by
  induction items generalizing t with
  | nil => exact h
  | cons item items ih =>
    apply ih
    · exact fun t item hitem => hstep t item (mem_cons_of_mem _ hitem)
    · exact hfirst.trans (hpruned t item)
    · exact hstep t item mem_cons_self hfirst h

theorem Supports.pruneChild (n : TreeObjects ι κ)
    {removeNode : AnalysisTree ι κ → ι → κ → AnalysisTree ι κ}
    (hpruned : ∀ t o a, Pruned t (removeNode t o a))
    (hnode : ∀ t o, ∀ a ∈ first.allNonRootAnalysis, ¬ kept o → first.Pruned t →
      Supports base kept t → Supports base kept (removeNode t o a))
    (hchild : child ∈ first.store) (hbase : base child → child ∈ original)
    (hfirst : first.Pruned t) (h : Supports base kept t) :
    Supports base kept (t.pruneChild n original removeNode child) := by
  unfold AnalysisTree.pruneChild
  split
  · exact h
  · rename_i hout
    obtain ⟨horiginal, hreferenced⟩ := not_or.mp hout
    have hout : ¬ kept child := by
      intro hin
      rcases h.listed child hin with hmem | ⟨o', ho', a, ha, hlisted⟩
      · exact horiginal (hbase hmem)
      · exact hreferenced ⟨a, mem_allNonRootAnalysis.mpr ⟨o', h.stored o' ho', ha⟩, child, hlisted,
          n.equal_self child⟩
    have hanalyses : Supports base kept
        ((t.analysesOf child).foldl (fun t a => removeNode t child a) t) := by
      apply supports_foldl _ (fun t a => hpruned t child a) _ hfirst h
      intro t' a ha hfirst' h'
      have hmem := mem_allNonRootAnalysis.mpr ⟨child, hchild, (hfirst.analysesOf child).subset ha⟩
      exact hnode t' child a hmem hout hfirst' h'
    refine ⟨?_, hanalyses.listed⟩
    intro o ho
    refine mem_filter.mpr ⟨hanalyses.stored o ho, decide_eq_true ?_⟩
    rintro rfl
    exact hout ho

theorem Supports.removeAnalysisNode (n : TreeObjects ι κ) (hclosed : first.Closed)
    (hbases : first.Bases original base) (depth : Nat) (t : AnalysisTree ι κ) (o : ι) (a : κ)
    (ha : a ∈ first.allNonRootAnalysis) (ho : ¬ kept o) (hfirst : first.Pruned t)
    (h : Supports base kept t) :
    Supports base kept (t.removeAnalysisNode n original depth o a) := by
  induction depth generalizing t o a with
  | zero => exact h
  | succ depth ih =>
    rw [AnalysisTree.removeAnalysisNode]
    have hpruned := pruned_removeAnalysisNode n original depth
    apply supports_foldl _ (pruned_pruneChild hpruned original) _
      (hfirst.trans (pruned_unlink t o _)) (h.unlink ho _)
    intro t' child hlisted hfirst' h'
    rw [hfirst.observables] at hlisted
    apply Supports.pruneChild n hpruned _ (hclosed.analyses a ha child hlisted)
      (hbases a ha child hlisted) hfirst' h'
    exact fun t o a ha ho hfirst h => ih t o a ha ho hfirst h

theorem Supports.deleteAnalysis (hclosed : t.Closed) (hbases : t.Bases t.rootObservables base)
    (ho : o ∈ t.store) (h : Supports base kept (t.unlink o (n.modulePath a))) :
    ∀ o', kept o' → o' ∈ (t.deleteAnalysis n o a).store := by
  unfold AnalysisTree.deleteAnalysis
  split
  · rename_i hslot
    have ha := mem_allNonRootAnalysis.mpr ⟨o, ho, mem_filterMap.mpr ⟨_, hslot, rfl⟩⟩
    rw [AnalysisTree.removeAnalysisNode]
    have hpruned := pruned_removeAnalysisNode n t.rootObservables t.allNonRootAnalysis.length
    have hkept : Supports base kept ((t.observables a).foldl
        (AnalysisTree.pruneChild n t.rootObservables
          (AnalysisTree.removeAnalysisNode n t.rootObservables t.allNonRootAnalysis.length))
        (t.unlink o (n.modulePath a))) := by
      apply supports_foldl _ (pruned_pruneChild hpruned _) _ (pruned_unlink t o _) h
      intro t' child hlisted hfirst' h'
      apply Supports.pruneChild n hpruned _ (hclosed.analyses a ha child hlisted)
        (hbases a ha child hlisted) hfirst' h'
      exact fun t' o a ha ho hfirst h =>
        Supports.removeAnalysisNode n hclosed hbases _ t' o a ha ho hfirst h
    exact hkept.stored
  · exact h.stored

end Kept

/-! ## §3 The walk -/

def Unlisted (t : AnalysisTree ι κ) (o : ι) : Prop :=
  ∀ a ∈ t.allNonRootAnalysis, o ∉ t.observables a

/-- Every observable is still to be looked at, in the base, or listed. -/
def Accounted (base : ι → Prop) (t : AnalysisTree ι κ) (pending : List ι) : Prop :=
  ∀ o ∈ t.store, o ∈ pending ∨ base o ∨ ∃ a ∈ t.allNonRootAnalysis, o ∈ t.observables a

/-- A tree on the way, from the one that the walk starts with: what is removed has no analyses
left. -/
structure Walk (first t : AnalysisTree ι κ) : Prop where
  pruned : first.Pruned t
  closed : t.Closed
  gone : ∀ o ∈ first.store, o ∉ t.store → t.analysesOf o = []

structure Untouched (t t' : AnalysisTree ι κ) (o : ι) : Prop where
  slots : t'.slots o = t.slots o
  stored : o ∈ t.store → o ∈ t'.store

/-- What a part of the walk has done, which has looked at the pending observables: nothing to what
no analysis lists, and what is left is accounted for without them. -/
structure Done (base : ι → Prop) (first t t' : AnalysisTree ι κ) (pending : List ι) : Prop where
  walk : first.Walk t'
  untouched : ∀ o ∉ pending, t.Unlisted o → t.Untouched t' o
  accounted : ∀ others, Accounted base t (pending ++ others) → Accounted base t' others

section Walks

variable {n : TreeObjects ι κ} {first t t' t'' : AnalysisTree ι κ} {o child : ι} {a : κ}
  {base : ι → Prop}

theorem Pruned.unlisted (h : t.Pruned t') (ho : t.Unlisted o) : t'.Unlisted o := by
  intro a ha
  rw [h.observables]
  exact ho a (h.mem_allNonRootAnalysis ha)

theorem unlisted_of_not_referenced (h : ¬ t.referenced n o) : t.Unlisted o :=
  fun a ha hlisted => h ⟨a, ha, o, hlisted, n.equal_self o⟩

theorem Registered.eq_of_equal (h : t.Registered n) (ho : o ∈ t.store) (hchild : child ∈ t.store)
    (hequal : n.equal o child = true) : o = child := by
  by_contra hne
  have hsymm : Std.Symm fun o o' => n.equal o o' = false ∧ n.equal o' o = false :=
    ⟨fun _ _ h => ⟨h.2, h.1⟩⟩
  have hdistinct := (h.distinct.forall ho hchild hne).1
  rw [hequal] at hdistinct
  cases hdistinct

theorem Pruned.allNonRootAnalysis (h : t.Pruned t') :
    t'.allNonRootAnalysis.Sublist t.allNonRootAnalysis :=
  (List.Sublist.flatMap_right _ fun o _ => h.analysesOf o).trans (h.store.flatMap _)

theorem filterMap_unlink {slots : List (AnalysisPath × Option κ)} {rest : List κ}
    (hpaths : (slots.map (·.1)).Nodup)
    (hown : ∀ path a, (path, some a) ∈ slots → path = n.modulePath a)
    (h : slots.filterMap (·.2) = a :: rest) :
    (slots.filter (·.1 ≠ n.modulePath a)).filterMap (·.2) = rest := by
  induction slots with
  | nil => cases h
  | cons slot slots ih =>
    obtain ⟨path, analysis⟩ := slot
    obtain ⟨hpath, hpaths'⟩ := nodup_cons.mp hpaths
    have hothers : ∀ slot ∈ slots, slot.1 ≠ path := by
      intro slot hslot hsame
      exact hpath (mem_map.mpr ⟨slot, hslot, hsame⟩)
    cases analysis with
    | none =>
      have hrest : slots.filterMap (·.2) = a :: rest := h
      have hne : path ≠ n.modulePath a := by
        rintro rfl
        obtain ⟨slot, hslot, hsome⟩ := mem_filterMap.mp
          (hrest ▸ mem_cons_self : a ∈ slots.filterMap (·.2))
        have hkey := hown slot.1 a (mem_cons_of_mem _ (hsome ▸ hslot))
        exact hothers slot hslot hkey
      rw [filter_cons_of_pos (by simpa using hne)]
      exact ih hpaths' (fun path a hslot => hown path a (mem_cons_of_mem _ hslot)) hrest
    | some analysis =>
      obtain ⟨rfl, hrest⟩ := List.cons.inj (show analysis :: slots.filterMap (·.2) = a :: rest from h)
      obtain rfl := hown path analysis mem_cons_self
      rw [filter_cons_of_neg (by simp), filter_eq_self.mpr]
      · exact hrest
      · intro slot hslot
        simpa using hothers slot hslot

@[simp] theorem slots_unlink_self (t : AnalysisTree ι κ) (o : ι) (path : AnalysisPath) :
    (t.unlink o path).slots o = (t.slots o).filter (·.1 ≠ path) :=
  update_self ..

@[simp] theorem slots_unlink_of_ne {o' : ι} (path : AnalysisPath) (h : o' ≠ o) :
    (t.unlink o path).slots o' = t.slots o' :=
  update_of_ne h _ _

theorem analysesOf_unlink (hkeyed : t.Keyed n) {rest : List κ} (h : t.analysesOf o = a :: rest) :
    (t.unlink o (n.modulePath a)).analysesOf o = rest := by
  unfold analysesOf
  rw [slots_unlink_self]
  exact filterMap_unlink (hkeyed.paths o) (hkeyed.own o) h

theorem mem_unlink_of_ne (hkeyed : t.Keyed n) (ha : (n.modulePath a, some a) ∈ t.slots o) {a' : κ}
    (ha' : a' ∈ t.allNonRootAnalysis) (hne : a' ≠ a) :
    a' ∈ (t.unlink o (n.modulePath a)).allNonRootAnalysis := by
  obtain ⟨o', ho', ha'⟩ := mem_allNonRootAnalysis.mp ha'
  refine mem_allNonRootAnalysis.mpr ⟨o', ho', ?_⟩
  by_cases heq : o' = o
  · subst heq
    obtain ⟨⟨path, _⟩, hslot, rfl⟩ := mem_filterMap.mp ha'
    rw [analysesOf, slots_unlink_self]
    refine mem_filterMap.mpr ⟨_, mem_filter.mpr ⟨hslot, ?_⟩, rfl⟩
    apply decide_eq_true
    rintro rfl
    -- one path leads to one analysis
    have hsame := inj_on_of_nodup_map (hkeyed.paths o') hslot ha rfl
    exact hne (Option.some.inj (Prod.mk.inj hsame).2)
  · rwa [analysesOf, slots_unlink_of_ne _ heq]

theorem length_filterMap_filter_lt {α β : Type*} {f : α → Option β} {p : α → Bool}
    {items : List α} {item : α} (hmem : item ∈ items) (hsome : (f item).isSome)
    (hout : p item = false) :
    ((items.filter p).filterMap f).length < (items.filterMap f).length := by
  obtain ⟨before, after, rfl⟩ := append_of_mem hmem
  obtain ⟨value, hvalue⟩ := Option.isSome_iff_exists.mp hsome
  have hbefore := ((filter_sublist (p := p) (l := before)).filterMap f).length_le
  have hafter := ((filter_sublist (p := p) (l := after)).filterMap f).length_le
  simp only [filter_append, filter_cons, hout, Bool.false_eq_true, if_false,
    filterMap_append, filterMap_cons, hvalue, length_append, length_cons]
  omega

theorem length_unlink_lt (ho : o ∈ t.store) (ha : (n.modulePath a, some a) ∈ t.slots o) :
    (t.unlink o (n.modulePath a)).allNonRootAnalysis.length < t.allNonRootAnalysis.length := by
  have hpruned := pruned_unlink t o (n.modulePath a)
  unfold AnalysisTree.allNonRootAnalysis
  rw [length_flatMap, length_flatMap]
  apply sum_lt_sum
  · exact fun o' _ => (hpruned.analysesOf o').length_le
  · refine ⟨o, ho, ?_⟩
    unfold analysesOf
    rw [slots_unlink_self]
    exact length_filterMap_filter_lt ha rfl (by simp)

theorem Untouched.refl (t : AnalysisTree ι κ) (o : ι) : t.Untouched t o := ⟨rfl, id⟩

theorem Untouched.trans (h : t.Untouched t' o) (h' : t'.Untouched t'' o) : t.Untouched t'' o :=
  ⟨h'.slots.trans h.slots, h'.stored ∘ h.stored⟩

theorem Untouched.analysesOf (h : t.Untouched t' o) : t'.analysesOf o = t.analysesOf o := by
  unfold AnalysisTree.analysesOf
  rw [h.slots]

theorem Walk.unlink (h : first.Walk t) (o : ι) (path : AnalysisPath) :
    first.Walk (t.unlink o path) := by
  have hpruned := pruned_unlink t o path
  refine ⟨h.pruned.trans hpruned, h.closed.of_store hpruned rfl, ?_⟩
  intro o' ho' hout
  exact sublist_nil.mp (h.gone o' ho' hout ▸ hpruned.analysesOf o')

theorem Walk.remove (h : first.Walk t) (hroot : child ∉ first.rootObservables)
    (hunlisted : t.Unlisted child) (hanalyses : t.analysesOf child = []) :
    first.Walk ((t.dropDependencies child).remove child) := by
  refine ⟨h.pruned.trans (pruned_dropDependencies_remove t child), ?_, ?_⟩
  · apply Closed.remove
    · exact ⟨h.closed.root, h.closed.analyses⟩
    · exact h.pruned.root ▸ hroot
    · exact fun o' ho' _ a ha => hunlisted a (mem_allNonRootAnalysis.mpr ⟨o', ho', ha⟩)
  · intro o ho hout
    by_cases heq : o = child
    · exact heq ▸ hanalyses
    · exact h.gone o ho fun hin => hout (mem_filter.mpr ⟨hin, decide_eq_true heq⟩)

theorem Accounted.remove {others : List ι} (h : Accounted base t (child :: others))
    (hanalyses : t.analysesOf child = []) :
    Accounted base ((t.dropDependencies child).remove child) others := by
  intro o ho
  obtain ⟨hstored, hne⟩ := mem_filter.mp ho
  rcases h o hstored with hpending | hbase | ⟨a, ha, hlisted⟩
  · exact .inl ((mem_cons.mp hpending).resolve_left (of_decide_eq_true hne))
  · exact .inr (.inl hbase)
  · obtain ⟨o', ho', ha'⟩ := mem_allNonRootAnalysis.mp ha
    refine .inr (.inr ⟨a, mem_allNonRootAnalysis.mpr ⟨o', ?_, ha'⟩, hlisted⟩)
    refine mem_filter.mpr ⟨ho', decide_eq_true ?_⟩
    rintro rfl
    rw [hanalyses] at ha'
    cases ha'

theorem Accounted.unlink (hkeyed : t.Keyed n) (ha : (n.modulePath a, some a) ∈ t.slots o)
    {others : List ι} (h : Accounted base t others) :
    Accounted base (t.unlink o (n.modulePath a)) (t.observables a ++ others) := by
  intro o' ho'
  rcases h o' ho' with hpending | hbase | ⟨a', ha', hlisted⟩
  · exact .inl (mem_append_right _ hpending)
  · exact .inr (.inl hbase)
  · by_cases heq : a' = a
    · exact .inl (mem_append_left _ (heq ▸ hlisted))
    · exact .inr (.inr ⟨a', mem_unlink_of_ne hkeyed ha ha' heq, hlisted⟩)

theorem Done.foldl {step : AnalysisTree ι κ → ι → AnalysisTree ι κ} (inside : ι → Prop)
    (size : Nat) (hpruned : ∀ t child, Pruned t (step t child))
    (hstep : ∀ t child, first.Walk t → t.allNonRootAnalysis.length ≤ size → inside child →
      Done base first t (step t child) [child])
    (children : List ι) (hinside : ∀ child ∈ children, inside child)
    (h : first.Walk t) (hsize : t.allNonRootAnalysis.length ≤ size) :
    Done base first t (children.foldl step t) children := by
  induction children generalizing t with
  | nil => exact ⟨h, fun o _ _ => .refl t o, fun _ haccounted => haccounted⟩
  | cons child children ih =>
    have hone := hstep t child h hsize (hinside child mem_cons_self)
    have hsize' := ((hpruned t child).allNonRootAnalysis.length_le).trans hsize
    have hrest := ih (fun c hc => hinside c (mem_cons_of_mem _ hc)) hone.walk hsize'
    refine ⟨hrest.walk, ?_, fun others haccounted => ?_⟩
    · intro o ho hunlisted
      obtain ⟨hne, ho'⟩ := not_or.mp (mt mem_cons.mpr ho)
      exact (hone.untouched o (by simpa using hne) hunlisted).trans
        (hrest.untouched o ho' ((hpruned t child).unlisted hunlisted))
    · exact hrest.accounted others (hone.accounted _ haccounted)

def Removes (base : ι → Prop) (n : TreeObjects ι κ) (first : AnalysisTree ι κ) (size : Nat)
    (removeNode : AnalysisTree ι κ → ι → κ → AnalysisTree ι κ) : Prop :=
  ∀ t o a, first.Walk t → t.allNonRootAnalysis.length ≤ size → o ∈ t.store →
    (n.modulePath a, some a) ∈ t.slots o →
    Done base first (t.unlink o (n.modulePath a)) (removeNode t o a) (t.observables a)

variable {removeNode : AnalysisTree ι κ → ι → κ → AnalysisTree ι κ} {size : Nat}

/-- The analyses of an observable that nothing lists go one after the other, and nothing else
happens to it meanwhile. -/
theorem Removes.foldl (hpruned : ∀ t o a, Pruned t (removeNode t o a))
    (hremoves : Removes base n first size removeNode) (hkeyed : first.Keyed n)
    (hchild : child ∈ first.store) (h : first.Walk t) (hsize : t.allNonRootAnalysis.length ≤ size)
    (hunlisted : t.Unlisted child) :
    let t' := (t.analysesOf child).foldl (fun t a => removeNode t child a) t
    first.Walk t' ∧ t'.analysesOf child = [] ∧
      (∀ o, o ≠ child → t.Unlisted o → t.Untouched t' o) ∧
      ∀ others, Accounted base t others → Accounted base t' others := by
  -- the list is the one that is left of the analyses
  induction hrest : t.analysesOf child generalizing t with
  | nil => exact ⟨h, hrest, fun o _ _ => .refl t o, fun _ haccounted => haccounted⟩
  | cons a rest ih =>
    have hmem : a ∈ t.analysesOf child := hrest ▸ mem_cons_self
    have hstored : child ∈ t.store := by
      by_contra hout
      rw [h.gone child hchild hout] at hmem
      cases hmem
    have ha := mem_allNonRootAnalysis.mpr ⟨child, hstored, hmem⟩
    have hslot : (n.modulePath a, some a) ∈ t.slots child := by
      obtain ⟨⟨path, _⟩, hslot, rfl⟩ := mem_filterMap.mp hmem
      exact (h.pruned.keyed hkeyed).own child path a hslot ▸ hslot
    have hone := hremoves t child a h hsize hstored hslot
    have hunlink := pruned_unlink t child (n.modulePath a)
    have hself := hone.untouched child (hunlisted a ha) (hunlink.unlisted hunlisted)
    have hrest' : (removeNode t child a).analysesOf child = rest :=
      hself.analysesOf.trans (analysesOf_unlink (h.pruned.keyed hkeyed) hrest)
    obtain ⟨hwalk, hnone, huntouched, haccounted⟩ := ih hone.walk
      ((hpruned t child a).allNonRootAnalysis.length_le.trans hsize)
      ((hpruned t child a).unlisted hunlisted) hrest'
    refine ⟨hwalk, hnone, ?_, fun others hothers => ?_⟩
    · intro o hne ho
      have hunlinked : t.Untouched (t.unlink child (n.modulePath a)) o :=
        ⟨slots_unlink_of_ne _ hne, id⟩
      exact (hunlinked.trans (hone.untouched o (ho a ha) (hunlink.unlisted ho))).trans
        (huntouched o hne ((hpruned t child a).unlisted ho))
    · exact haccounted others (hone.accounted others
        (hothers.unlink (h.pruned.keyed hkeyed) hslot))

theorem Removes.pruneChild (hpruned : ∀ t o a, Pruned t (removeNode t o a))
    (hremoves : Removes base n first size removeNode) (hregistered : first.Registered n)
    (hkeyed : first.Keyed n) (hbase : ∀ o ∈ first.rootObservables, base o)
    (hchild : child ∈ first.store) (h : first.Walk t)
    (hsize : t.allNonRootAnalysis.length ≤ size) :
    Done base first t (t.pruneChild n first.rootObservables removeNode child) [child] := by
  unfold AnalysisTree.pruneChild
  split
  · rename_i hkept
    refine ⟨h, fun o _ _ => .refl t o, fun others haccounted => ?_⟩
    intro o ho
    rcases haccounted o ho with hpending | hlisted
    · rcases mem_cons.mp hpending with rfl | hothers
      · rcases hkept with horiginal | ⟨a, ha, other, hother, hequal⟩
        · exact .inr (.inl (hbase o horiginal))
        · -- the one that is listed is equal, and the registry has no two equal ones
          have hstored := h.closed.analyses a ha other hother
          obtain rfl := (hregistered.of_sublist h.pruned.store).eq_of_equal hstored ho hequal
          exact .inr (.inr ⟨a, ha, hother⟩)
      · exact .inl hothers
    · exact .inr hlisted
  · rename_i hout
    obtain ⟨horiginal, hreferenced⟩ := not_or.mp hout
    have hunlisted := unlisted_of_not_referenced hreferenced
    obtain ⟨hwalk, hnone, huntouched, haccounted⟩ :=
      hremoves.foldl hpruned hkeyed hchild h hsize hunlisted
    have hall := pruned_foldl (fun t a => hpruned t child a) (t.analysesOf child) t
    refine ⟨hwalk.remove horiginal (hall.unlisted hunlisted) hnone, ?_, fun others hothers => ?_⟩
    · intro o ho hlisted
      have hne : o ≠ child := by simpa using ho
      have hbefore := huntouched o hne hlisted
      refine ⟨hbefore.slots, fun hin => ?_⟩
      exact mem_filter.mpr ⟨hbefore.stored hin, decide_eq_true hne⟩
    · exact (haccounted _ hothers).remove hnone

theorem removes_removeAnalysisNode (hclosed : first.Closed) (hregistered : first.Registered n)
    (hkeyed : first.Keyed n) (hbase : ∀ o ∈ first.rootObservables, base o) (depth : Nat) :
    Removes base n first depth (removeAnalysisNode n first.rootObservables (depth + 1)) := by
  induction depth with
  | zero =>
    intro t o a _ hsize ho ha
    have hless := length_unlink_lt ho ha
    omega
  | succ depth ih =>
    intro t o a h hsize ho ha
    have hless := length_unlink_lt ho ha
    have hmem : a ∈ first.allNonRootAnalysis := h.pruned.mem_allNonRootAnalysis
      (mem_allNonRootAnalysis.mpr ⟨o, ho, mem_filterMap.mpr ⟨_, ha, rfl⟩⟩)
    have hpruned := pruned_removeAnalysisNode n first.rootObservables (depth + 1)
    rw [removeAnalysisNode]
    apply Done.foldl (· ∈ first.store) depth (pruned_pruneChild hpruned _)
    · intro t child hwalk hsize hinside
      exact ih.pruneChild hpruned hregistered hkeyed hbase hinside hwalk hsize
    · intro child hlisted
      rw [h.pruned.observables] at hlisted
      exact hclosed.analyses a hmem child hlisted
    · exact h.unlink o _
    · omega

end Walks

/-! ## §4 Exactness -/

section Exactness

variable {n : TreeObjects ι κ} {t : AnalysisTree ι κ} {o : ι} {a : κ}

theorem deleteAnalysis_eq (ha : (n.modulePath a, some a) ∈ t.slots o) :
    t.deleteAnalysis n o a = (t.observables a).foldl
      (pruneChild n t.rootObservables
        (removeAnalysisNode n t.rootObservables t.allNonRootAnalysis.length))
      (t.unlink o (n.modulePath a)) := by
  unfold AnalysisTree.deleteAnalysis
  rw [if_pos ha, removeAnalysisNode]

theorem pruned_unlink_deleteAnalysis (ha : (n.modulePath a, some a) ∈ t.slots o) :
    (t.unlink o (n.modulePath a)).Pruned (t.deleteAnalysis n o a) := by
  rw [deleteAnalysis_eq ha]
  exact pruned_foldl (pruned_pruneChild (pruned_removeAnalysisNode n _ _) _) _ _

theorem mem_deleteAnalysis_of_reachable (h : t.Closed) (ho : o ∈ t.store) {x : ι}
    (hx : (t.unlink o (n.modulePath a)).Reachable x) : x ∈ (t.deleteAnalysis n o a).store := by
  have hclosed := h.of_store (pruned_unlink t o (n.modulePath a)) rfl
  have hsupports : Supports (· ∈ t.rootObservables) (t.unlink o (n.modulePath a)).Reachable
      (t.unlink o (n.modulePath a)) :=
    ⟨fun _ hreach => hclosed.mem_of_reachable hreach, fun _ hreach => hreach.cases⟩
  exact hsupports.deleteAnalysis h (fun _ _ _ _ => id) ho x hx

theorem mem_deleteAnalysis_of_cycle (h : t.Closed) (ho : o ∈ t.store) {x : ι} (hx : x ∈ t.store)
    (hcycle : TransGen (t.unlink o (n.modulePath a)).Leads x x) :
    x ∈ (t.deleteAnalysis n o a).store := by
  have hclosed := h.of_store (pruned_unlink t o (n.modulePath a)) rfl
  have hsupports : Supports (· ∈ t.rootObservables)
      (fun y => y ∈ t.store ∧ TransGen (t.unlink o (n.modulePath a)).Leads y y)
      (t.unlink o (n.modulePath a)) := by
    refine ⟨fun y hy => hy.1, ?_⟩
    rintro y ⟨hy, hcycle⟩
    obtain ⟨o', hcycle', hpath, hleads⟩ := exists_leads_of_cycle hcycle
    exact .inr ⟨o', ⟨hclosed.mem_of_path hy hpath, hcycle'⟩, hleads⟩
  exact hsupports.deleteAnalysis h (fun _ _ _ _ => id) ho x ⟨hx, hcycle⟩

theorem accounted_deleteAnalysis {base : ι → Prop} (hregistered : t.Registered n)
    (hclosed : t.Closed) (hkeyed : t.Keyed n) (hbase : ∀ o ∈ t.rootObservables, base o)
    (ho : o ∈ t.store) (ha : (n.modulePath a, some a) ∈ t.slots o) (h : Accounted base t []) :
    Accounted base (t.deleteAnalysis n o a) [] := by
  have hstart : t.Walk t := ⟨.refl t, hclosed, fun x hx hout => absurd hx hout⟩
  have hdone := removes_removeAnalysisNode hclosed hregistered hkeyed hbase
    t.allNonRootAnalysis.length t o a hstart Nat.le.refl ho ha
  have hleft := hdone.accounted [] (h.unlink hkeyed ha)
  unfold AnalysisTree.deleteAnalysis
  rw [if_pos ha]
  exact hleft

theorem WellFormed.accounted (h : t.WellFormed n) : Accounted (· ∈ t.rootObservables) t [] := by
  intro x hx
  rcases (h.reachable x hx).cases with hroot | ⟨o', ho', b, hb, hlisted⟩
  · exact .inr (.inl hroot)
  · have hstored := h.closed.mem_of_reachable ho'
    exact .inr (.inr ⟨b, mem_allNonRootAnalysis.mpr ⟨o', hstored, hb⟩, hlisted⟩)

/-- **Deleting an analysis is exact garbage collection** exactly when no observable that the root
cannot reach without it is on a cycle of analyses: then what is left in the registry are the
observables that can be reached through the other analyses. -/
theorem deletion_exact_iff (n : TreeObjects ι κ) (t : AnalysisTree ι κ) (o : ι) (a : κ)
    (h : t.WellFormed n) (ho : o ∈ t.store) (ha : (n.modulePath a, some a) ∈ t.slots o) :
    (∀ x, x ∈ (t.deleteAnalysis n o a).store ↔
        (t.unlink o (n.modulePath a)).Reachable x) ↔
      ∀ x ∈ t.store, ¬ (t.unlink o (n.modulePath a)).Reachable x →
        ¬ TransGen (t.unlink o (n.modulePath a)).Leads x x := by
  classical
  constructor
  · intro hexact x hx hunreachable hcycle
    exact hunreachable ((hexact x).mp (mem_deleteAnalysis_of_cycle h.closed ho hx hcycle))
  · intro hacyclic x
    refine ⟨fun hx => ?_, mem_deleteAnalysis_of_reachable h.closed ho⟩
    by_contra hunreachable
    have hpruned := pruned_unlink_deleteAnalysis ha
    -- each unreachable observable that is left is listed by an analysis of another one
    have hpred : ∀ y ∈ (t.deleteAnalysis n o a).store.filter
          (¬ (t.unlink o (n.modulePath a)).Reachable ·),
        ∃ y' ∈ (t.deleteAnalysis n o a).store.filter
          (¬ (t.unlink o (n.modulePath a)).Reachable ·),
          (t.unlink o (n.modulePath a)).Leads y' y := by
      intro y hy
      obtain ⟨hleft, hout⟩ := mem_filter.mp hy
      have hout := of_decide_eq_true hout
      rcases accounted_deleteAnalysis h.registered h.closed h.keyed (fun _ => id) ho ha h.accounted
        y hleft with hnone | hroot | ⟨b, hb, hlisted⟩
      · cases hnone
      · exact absurd ⟨y, hpruned.root ▸ hroot, .refl⟩ hout
      · obtain ⟨y', hy', hb'⟩ := mem_allNonRootAnalysis.mp hb
        have hleads := hpruned.leads ⟨b, hb', hlisted⟩
        refine ⟨y', mem_filter.mpr ⟨hy', decide_eq_true ?_⟩, hleads⟩
        exact fun hreach => hout (hreach.tail hleads)
    obtain ⟨y, hy, hcycle⟩ := exists_cycle_of_predecessor
      (mem_filter.mpr ⟨hx, decide_eq_true hunreachable⟩) hpred
    obtain ⟨hleft, hout⟩ := mem_filter.mp hy
    exact hacyclic y (hpruned.store.subset hleft) (of_decide_eq_true hout) hcycle

end Exactness

/-! ## §5 An analysis of its own observable -/

section Examples

def crawledUrls : TreeObjects Bool Bool where
  type _ := "url"
  value o := some (if o then "http://a/" else "http://b/")
  time _ := none
  filePath _ := none
  compareKey _ value := value
  observableLimits _ := none
  modulePath a :=
    ⟨if a then "saq.modules.url:UrlAnalysis" else "saq.modules.phishkit:PhishkitAnalysis", none⟩

/-- The first url leads to the second one, whose analysis has not found anything yet. -/
def crawled : AnalysisTree Bool Bool :=
  [.addObservable none true false, .addAnalysis true true, .addObservable (some true) false false,
    .addAnalysis false false].foldl (AnalysisTree.step crawledUrls) .new

def selfListing : AnalysisTree Bool Bool :=
  crawled.step crawledUrls (.addObservable (some false) false false)

theorem crawled_wellFormed : crawled.WellFormed crawledUrls := by
  refine ⟨(registered_new crawledUrls).run _, ⟨by decide, by decide⟩, ⟨by decide, ?_⟩, ?_⟩
  · intro o path a hslot
    cases o <;> exact (Prod.mk.inj (mem_singleton.mp hslot)).1 ▸
      (Option.some.inj (Prod.mk.inj (mem_singleton.mp hslot)).2) ▸ rfl
  · intro o _
    cases o with
    | true => exact ⟨true, by decide, .refl⟩
    | false => exact ⟨true, by decide, .single ⟨true, by decide, by decide⟩⟩

theorem selfListing_wellFormed : selfListing.WellFormed crawledUrls :=
  ⟨crawled_wellFormed.registered.step _, ⟨by decide, by decide⟩,
    ⟨crawled_wellFormed.keyed.paths, crawled_wellFormed.keyed.own⟩, fun o _ => by
      cases o with
      | true => exact ⟨true, by decide, .refl⟩
      | false => exact ⟨true, by decide, .single ⟨true, by decide, by decide⟩⟩⟩

theorem not_leads_of_no_analysis {t : AnalysisTree Bool Bool} {o o' : Bool}
    (h : t.analysesOf o = []) : ¬ t.Leads o o' := by
  rintro ⟨a, ha, -⟩
  rw [h] at ha
  cases ha

/-- The second url is left, to which only its own analysis leads. -/
theorem self_listing_is_left :
    selfListing.WellFormed crawledUrls ∧
      (crawledUrls.modulePath true, some true) ∈ selfListing.slots true ∧
      false ∈ (selfListing.deleteAnalysis crawledUrls true true).store ∧
      ¬ (selfListing.unlink true (crawledUrls.modulePath true)).Reachable false := by
  refine ⟨selfListing_wellFormed, by decide, by decide, ?_⟩
  rintro ⟨first, hfirst, hpath⟩
  obtain rfl : first = true := mem_singleton.mp hfirst
  rcases ReflTransGen.cases_head hpath with hsame | ⟨o', hleads, -⟩
  · cases hsame
  · exact not_leads_of_no_analysis (by decide) hleads

/-- Before that, the url goes with the analysis that found it. -/
theorem crawled_deletion_exact :
    (crawled.deleteAnalysis crawledUrls true true).store = [true] ∧
      ∀ x, x ∈ (crawled.deleteAnalysis crawledUrls true true).store ↔
        (crawled.unlink true (crawledUrls.modulePath true)).Reachable x := by
  refine ⟨by decide, ?_⟩
  apply (deletion_exact_iff crawledUrls crawled true true crawled_wellFormed (by decide)
    (by decide)).mpr
  intro x _ _ hcycle
  obtain ⟨o', hleads, -⟩ := TransGen.head'_iff.mp hcycle
  obtain ⟨a, ha, hlisted⟩ := hleads
  have hnothing : ∀ o, ∀ a ∈ (crawled.unlink true (crawledUrls.modulePath true)).analysesOf o,
      (crawled.unlink true (crawledUrls.modulePath true)).observables a = [] := by decide
  rw [hnothing x a ha] at hlisted
  cases hlisted

end Examples

end AnalysisTree

end Ace3.Analysis
