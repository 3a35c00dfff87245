import Ace3.Analysis.AnalysisTree
import Ace3.Lib.Runs
import Mathlib.Data.List.Pairwise

/-!
# The Registry of a Tree
-/

set_option linter.unusedSectionVars false

namespace Ace3.Analysis

open List Function
open Lib.Runs

variable {ι κ : Type*} [DecidableEq ι] [DecidableEq κ]

/-! ## §1 The invariants -/

/-- No two observables of the registry are equal, no type exceeds its limit, and all have
values. -/
structure AnalysisTree.Registered (n : TreeObjects ι κ) (t : AnalysisTree ι κ) : Prop where
  distinct : t.store.Pairwise fun o o' => n.equal o o' = false ∧ n.equal o' o = false
  limited : ∀ type, ∀ limit ∈ n.observableLimits type,
    (t.store.filter fun o => n.type o = type).length ≤ limit
  valued : ∀ o ∈ t.store, n.emptyValue o = false

/-- What the root and the analyses of the tree list are observables of the registry. -/
structure AnalysisTree.Closed (t : AnalysisTree ι κ) : Prop where
  root : ∀ o ∈ t.rootObservables, o ∈ t.store
  analyses : ∀ a ∈ t.allNonRootAnalysis, ∀ o ∈ t.observables a, o ∈ t.store

section Equality

variable {n : TreeObjects ι κ} {o o' : ι}

theorem TreeObjects.equal_self (n : TreeObjects ι κ) (o : ι) : n.equal o o = true := by
  unfold TreeObjects.equal
  split
  · rename_i hfile
    simp [hfile]
  · simp

theorem TreeObjects.equal_symm (h : n.equal o o' = true) : n.equal o' o = true := by
  unfold TreeObjects.equal at h ⊢
  by_cases hfile : n.type o = fFile
  · rw [if_pos hfile] at h
    obtain ⟨hfile', hvalue, hpath⟩ := of_decide_eq_true h
    rw [if_pos hfile']
    exact decide_eq_true ⟨hfile, hvalue.symm, hpath.symm⟩
  · rw [if_neg hfile] at h
    rcases of_decide_eq_true h with rfl | ⟨htype, htime, hvalue⟩
    · rw [if_neg hfile]
      exact decide_eq_true (.inl rfl)
    · rw [htype, if_neg hfile]
      exact decide_eq_true (.inr ⟨rfl, htime.symm, hvalue.symm⟩)

end Equality

namespace AnalysisTree

/-! ## §2 Adding -/

section Adding

variable {n : TreeObjects ι κ} {t t' : AnalysisTree ι κ} {o : ι} {a : κ} {parent : Option κ}
  {tooLarge : Bool}

theorem mem_allNonRootAnalysis :
    a ∈ t.allNonRootAnalysis ↔ ∃ o ∈ t.store, a ∈ t.analysesOf o :=
  mem_flatMap

theorem record_cases (n : TreeObjects ι κ) (t : AnalysisTree ι κ) (o : ι) (tooLarge : Bool) :
    (∃ result, t.record n o tooLarge = (t, result) ∧ ∀ stored ∈ result, stored ∈ t.store) ∨
      (t.record n o tooLarge = ({ t with store := t.store ++ [o] }, some o) ∧
        n.emptyValue o = false ∧ (∀ stored ∈ t.store, n.equal stored o = false) ∧
        ∀ limit ∈ n.observableLimits (n.type o),
          (t.store.filter fun stored => n.type stored = n.type o).length < limit) := by
  unfold record
  split
  · exact .inl ⟨none, rfl, nofun⟩
  · rename_i hvalue
    cases hfind : t.store.find? fun stored => n.equal stored o with
    | some stored =>
      refine .inl ⟨some stored, rfl, ?_⟩
      rintro _ ⟨⟩
      exact List.mem_of_find?_eq_some hfind
    | none =>
      dsimp only
      split
      · exact .inl ⟨none, rfl, nofun⟩
      · rename_i hlimit
        split
        · exact .inl ⟨none, rfl, nofun⟩
        · refine .inr ⟨rfl, by simpa using hvalue, by simpa using hfind, ?_⟩
          intro limit hmem
          have hsome : n.observableLimits (n.type o) = some limit := hmem
          simpa [hsome] using hlimit

theorem addObservable_cases (n : TreeObjects ι κ) (t : AnalysisTree ι κ) (parent : Option κ)
    (o : ι) (tooLarge : Bool) :
    (t.addObservable n parent o tooLarge).1 = t ∨
      ∃ stored, (t.record n o tooLarge).2 = some stored ∧
        (t.addObservable n parent o tooLarge).1 =
          (t.record n o tooLarge).1.addChild parent stored := by
  unfold addObservable
  split
  · exact .inl rfl
  · rcases record_cases n t o tooLarge with ⟨result, hrecord, -⟩ | ⟨hrecord, -⟩
    · rw [hrecord]
      cases result with
      | none => exact .inl rfl
      | some stored => exact .inr ⟨stored, rfl, rfl⟩
    · rw [hrecord]
      exact .inr ⟨o, rfl, rfl⟩

@[simp] theorem store_addChild (t : AnalysisTree ι κ) (parent : Option κ) (o : ι) :
    (t.addChild parent o).store = t.store := by
  cases parent <;> rfl

@[simp] theorem slots_addChild (t : AnalysisTree ι κ) (parent : Option κ) (o : ι) :
    (t.addChild parent o).slots = t.slots := by
  cases parent <;> rfl

theorem Registered.of_store (h : t.Registered n) (hstore : t'.store = t.store) :
    t'.Registered n := by
  refine ⟨?_, ?_, ?_⟩
  · rw [hstore]
    exact h.distinct
  · rw [hstore]
    exact h.limited
  · rw [hstore]
    exact h.valued

theorem Registered.of_sublist (h : t.Registered n) (hstore : t'.store.Sublist t.store) :
    t'.Registered n :=
  ⟨h.distinct.sublist hstore,
    fun type limit hlimit => Nat.le_trans (hstore.filter _).length_le (h.limited type limit hlimit),
    fun o ho => h.valued o (hstore.subset ho)⟩

theorem Registered.record (h : t.Registered n) (o : ι) (tooLarge : Bool) :
    (t.record n o tooLarge).1.Registered n := by
  rcases record_cases n t o tooLarge with ⟨result, hrecord, -⟩ | ⟨hrecord, hvalue, hnew, hlimit⟩
  · rw [hrecord]
    exact h
  · rw [hrecord]
    refine ⟨?_, ?_, ?_⟩
    · rw [pairwise_append]
      refine ⟨h.distinct, pairwise_singleton _ _, ?_⟩
      intro stored hstored o' ho'
      obtain rfl := mem_singleton.mp ho'
      refine ⟨hnew stored hstored, ?_⟩
      -- equality of the new observable with a stored one would be seen from the other side
      cases hequal : n.equal o' stored with
      | false => rfl
      | true =>
        have hsymm := TreeObjects.equal_symm hequal
        rw [hnew stored hstored] at hsymm
        cases hsymm
    · intro type limit hmem
      rw [filter_append, length_append, filter_singleton]
      by_cases htype : n.type o = type
      · subst htype
        have hroom := hlimit limit hmem
        simp only [decide_true, Bool.cond_true, length_singleton]
        omega
      · simpa [htype] using h.limited type limit hmem
    · intro o' ho'
      rcases mem_append.mp ho' with ho' | ho'
      · exact h.valued o' ho'
      · obtain rfl := mem_singleton.mp ho'
        exact hvalue

theorem Registered.addObservable (h : t.Registered n) (parent : Option κ) (o : ι)
    (tooLarge : Bool) : (t.addObservable n parent o tooLarge).1.Registered n := by
  rcases addObservable_cases n t parent o tooLarge with hsame | ⟨stored, -, hadded⟩
  · rw [hsame]
    exact h
  · rw [hadded]
    exact (h.record o tooLarge).of_store (store_addChild _ _ _)

theorem Registered.addObservableBySpec (h : t.Registered n) (parent : Option κ)
    (created : Option ι) (tooLarge : Bool) :
    (t.addObservableBySpec n parent created tooLarge).1.Registered n := by
  cases created with
  | none => exact h
  | some o =>
    have hrecord := h.record o tooLarge
    unfold AnalysisTree.addObservableBySpec
    dsimp only
    split
    · rename_i t' hresult
      rw [hresult] at hrecord
      exact hrecord
    · rename_i t' stored hresult
      rw [hresult] at hrecord
      exact hrecord.addObservable parent stored tooLarge

/-- What an observable brings with it: the analyses that it has list observables of the registry,
or the observable itself. -/
def Carries (t : AnalysisTree ι κ) (o : ι) : Prop :=
  ∀ a ∈ t.analysesOf o, ∀ child ∈ t.observables a, child ∈ t.store ∨ child = o

theorem Closed.record (h : t.Closed) (hcarries : t.Carries o) (tooLarge : Bool) :
    (t.record n o tooLarge).1.Closed := by
  rcases record_cases n t o tooLarge with ⟨result, hrecord, -⟩ | ⟨hrecord, -⟩
  · rw [hrecord]
    exact h
  · rw [hrecord]
    refine ⟨fun child hchild => mem_append_left _ (h.root child hchild), ?_⟩
    intro a ha child hchild
    obtain ⟨o', ho', ha⟩ := mem_allNonRootAnalysis.mp ha
    rcases mem_append.mp ho' with ho' | ho'
    · exact mem_append_left _
        (h.analyses a (mem_allNonRootAnalysis.mpr ⟨o', ho', ha⟩) child hchild)
    · obtain rfl := mem_singleton.mp ho'
      rcases hcarries a ha child hchild with hstored | rfl
      · exact mem_append_left _ hstored
      · exact mem_append_right _ (mem_singleton_self _)

theorem Closed.addChild (h : t.Closed) (ho : o ∈ t.store) (parent : Option κ) :
    (t.addChild parent o).Closed := by
  cases parent with
  | none =>
    refine ⟨?_, h.analyses⟩
    intro child hchild
    rcases mem_append.mp hchild with hchild | hchild
    · exact h.root child hchild
    · rwa [mem_singleton.mp hchild]
  | some parent =>
    refine ⟨h.root, ?_⟩
    intro a ha child hchild
    by_cases heq : a = parent
    · subst heq
      simp only [AnalysisTree.addChild, update_self] at hchild
      rcases mem_append.mp hchild with hchild | hchild
      · exact h.analyses a ha child hchild
      · rwa [mem_singleton.mp hchild]
    · simp only [AnalysisTree.addChild, update_of_ne heq] at hchild
      exact h.analyses a ha child hchild

theorem mem_store_of_record (n : TreeObjects ι κ) (t : AnalysisTree ι κ) (o : ι)
    (tooLarge : Bool) :
    ∀ stored ∈ (t.record n o tooLarge).2, stored ∈ (t.record n o tooLarge).1.store := by
  rcases record_cases n t o tooLarge with ⟨result, hrecord, hresult⟩ | ⟨hrecord, -⟩
  · rw [hrecord]
    exact hresult
  · rw [hrecord]
    rintro _ ⟨⟩
    exact mem_append_right _ (mem_singleton_self _)

theorem Closed.addObservable (h : t.Closed) (hcarries : t.Carries o) (parent : Option κ)
    (tooLarge : Bool) : (t.addObservable n parent o tooLarge).1.Closed := by
  rcases addObservable_cases n t parent o tooLarge with hsame | ⟨stored, hstored, hadded⟩
  · rw [hsame]
    exact h
  · rw [hadded]
    exact (h.record hcarries tooLarge).addChild (mem_store_of_record n t o tooLarge stored hstored)
      parent

theorem Closed.carries (h : t.Closed) (ho : o ∈ t.store) : t.Carries o :=
  fun a ha child hchild =>
    .inl (h.analyses a (mem_allNonRootAnalysis.mpr ⟨o, ho, ha⟩) child hchild)

end Adding

/-! ## §3 Removing -/

section Removing

variable {n : TreeObjects ι κ} {t t' t'' : AnalysisTree ι κ} {o : ι} {a : κ}

/-- A tree from which observables and analyses have been taken away. -/
structure Pruned (t t' : AnalysisTree ι κ) : Prop where
  store : t'.store.Sublist t.store
  slots : ∀ o, (t'.slots o).Sublist (t.slots o)
  root : t'.rootObservables = t.rootObservables
  observables : t'.observables = t.observables

theorem Pruned.refl (t : AnalysisTree ι κ) : t.Pruned t :=
  ⟨List.Sublist.refl _, fun _ => List.Sublist.refl _, rfl, rfl⟩

theorem Pruned.trans (h : t.Pruned t') (h' : t'.Pruned t'') : t.Pruned t'' :=
  ⟨h'.store.trans h.store, fun o => (h'.slots o).trans (h.slots o), h'.root.trans h.root,
    h'.observables.trans h.observables⟩

theorem Pruned.analysesOf (h : t.Pruned t') (o : ι) :
    (t'.analysesOf o).Sublist (t.analysesOf o) :=
  (h.slots o).filterMap _

theorem Pruned.mem_allNonRootAnalysis (h : t.Pruned t') (ha : a ∈ t'.allNonRootAnalysis) :
    a ∈ t.allNonRootAnalysis := by
  obtain ⟨o, ho, ha⟩ := AnalysisTree.mem_allNonRootAnalysis.mp ha
  exact AnalysisTree.mem_allNonRootAnalysis.mpr
    ⟨o, h.store.subset ho, (h.analysesOf o).subset ha⟩

theorem Pruned.not_referenced (h : t.Pruned t') (ho : ¬ t.referenced n o) :
    ¬ t'.referenced n o := by
  rintro ⟨a, ha, child, hchild, hequal⟩
  rw [h.observables] at hchild
  exact ho ⟨a, h.mem_allNonRootAnalysis ha, child, hchild, hequal⟩

theorem pruned_unlink (t : AnalysisTree ι κ) (o : ι) (path : AnalysisPath) :
    t.Pruned (t.unlink o path) := by
  refine ⟨List.Sublist.refl _, ?_, rfl, rfl⟩
  intro o'
  by_cases heq : o' = o
  · subst heq
    simp only [unlink, update_self]
    exact filter_sublist
  · simp only [unlink, update_of_ne heq]
    exact List.Sublist.refl _

theorem pruned_dropDependencies_remove (t : AnalysisTree ι κ) (o : ι) :
    t.Pruned ((t.dropDependencies o).remove o) :=
  ⟨filter_sublist, fun _ => List.Sublist.refl _, rfl, rfl⟩

theorem pruned_foldl {α : Type*} {step : AnalysisTree ι κ → α → AnalysisTree ι κ}
    (hstep : ∀ t item, Pruned t (step t item)) (items : List α) (t : AnalysisTree ι κ) :
    t.Pruned (items.foldl step t) := by
  induction items generalizing t with
  | nil => exact .refl t
  | cons item items ih => exact (hstep t item).trans (ih _)

theorem pruned_pruneChild {removeNode : AnalysisTree ι κ → ι → κ → AnalysisTree ι κ}
    (hnode : ∀ t o a, Pruned t (removeNode t o a)) (original : List ι) (t : AnalysisTree ι κ)
    (child : ι) : t.Pruned (t.pruneChild n original removeNode child) := by
  unfold pruneChild
  split
  · exact .refl t
  · exact (pruned_foldl (fun t a => hnode t child a) _ t).trans
      (pruned_dropDependencies_remove _ child)

theorem pruned_removeAnalysisNode (n : TreeObjects ι κ) (original : List ι) (depth : Nat)
    (t : AnalysisTree ι κ) (o : ι) (a : κ) :
    t.Pruned (t.removeAnalysisNode n original depth o a) := by
  induction depth generalizing t o a with
  | zero => exact .refl t
  | succ depth ih =>
    rw [removeAnalysisNode]
    exact (pruned_unlink t o _).trans (pruned_foldl (pruned_pruneChild ih original) _ _)

theorem pruned_deleteAnalysis (n : TreeObjects ι κ) (t : AnalysisTree ι κ) (o : ι) (a : κ) :
    t.Pruned (t.deleteAnalysis n o a) := by
  unfold deleteAnalysis
  split
  · exact pruned_removeAnalysisNode ..
  · exact .refl t

theorem Closed.of_store (h : t.Closed) (hpruned : t.Pruned t') (hstore : t'.store = t.store) :
    t'.Closed := by
  refine ⟨?_, ?_⟩
  · rw [hpruned.root, hstore]
    exact h.root
  · rw [hpruned.observables, hstore]
    exact fun a ha => h.analyses a (hpruned.mem_allNonRootAnalysis ha)

theorem Closed.remove (h : t.Closed) (hroot : o ∉ t.rootObservables)
    (hothers : ∀ o' ∈ t.store, o' ≠ o → ∀ a ∈ t.analysesOf o', o ∉ t.observables a) :
    (t.remove o).Closed := by
  have hkept : ∀ {child : ι}, child ∈ t.store → child ≠ o → child ∈ (t.remove o).store :=
    fun hchild hne => mem_filter.mpr ⟨hchild, decide_eq_true hne⟩
  refine ⟨?_, ?_⟩
  · intro child hchild
    apply hkept (h.root child hchild)
    rintro rfl
    exact hroot hchild
  · intro a ha child hchild
    obtain ⟨o', ho', ha'⟩ := AnalysisTree.mem_allNonRootAnalysis.mp ha
    obtain ⟨hstored, hne⟩ := mem_filter.mp ho'
    apply hkept (h.analyses a (AnalysisTree.mem_allNonRootAnalysis.mpr ⟨o', hstored, ha'⟩) child
      hchild)
    rintro rfl
    exact hothers o' hstored (of_decide_eq_true hne) a ha' hchild

variable {original : List ι}

theorem closed_foldl {α : Type*} {step : AnalysisTree ι κ → α → AnalysisTree ι κ}
    (hpruned : ∀ t item, Pruned t (step t item))
    (hstep : ∀ t item, Closed t → t.rootObservables = original → (step t item).Closed)
    (items : List α) (h : t.Closed) (hroot : t.rootObservables = original) :
    (items.foldl step t).Closed := by
  induction items generalizing t with
  | nil => exact h
  | cons item items ih =>
    exact ih (hstep t item h hroot) ((hpruned t item).root.trans hroot)

theorem Closed.pruneChild {removeNode : AnalysisTree ι κ → ι → κ → AnalysisTree ι κ}
    (hpruned : ∀ t o a, Pruned t (removeNode t o a))
    (hnode : ∀ t o a, Closed t → t.rootObservables = original → (removeNode t o a).Closed)
    (h : t.Closed) (hroot : t.rootObservables = original) (child : ι) :
    (t.pruneChild n original removeNode child).Closed := by
  unfold AnalysisTree.pruneChild
  split
  · exact h
  · rename_i hchild
    obtain ⟨horiginal, hreferenced⟩ := not_or.mp hchild
    have hpruned' := pruned_foldl (fun t a => hpruned t child a) (t.analysesOf child) t
    have hclosed := closed_foldl (fun t a => hpruned t child a)
      (fun t a hclosed hroot => hnode t child a hclosed hroot) (t.analysesOf child) h hroot
    apply Closed.remove
    · exact ⟨hclosed.root, hclosed.analyses⟩
    · rw [← hroot, ← hpruned'.root] at horiginal
      exact horiginal
    · intro o' ho' _ a ha hlisted
      apply hpruned'.not_referenced hreferenced
      exact ⟨a, AnalysisTree.mem_allNonRootAnalysis.mpr ⟨o', ho', ha⟩, child, hlisted,
        n.equal_self child⟩

theorem Closed.removeAnalysisNode (h : t.Closed) (hroot : t.rootObservables = original)
    (depth : Nat) (o : ι) (a : κ) :
    (t.removeAnalysisNode n original depth o a).Closed := by
  induction depth generalizing t o a with
  | zero => exact h
  | succ depth ih =>
    rw [AnalysisTree.removeAnalysisNode]
    have hunlink := pruned_unlink t o (n.modulePath a)
    have hpruned := pruned_removeAnalysisNode n original depth
    apply closed_foldl (pruned_pruneChild hpruned original) _ _ (h.of_store hunlink rfl) hroot
    intro t child hclosed hroot
    exact hclosed.pruneChild hpruned (fun t o a hclosed hroot => ih hclosed hroot o a) hroot child

theorem Closed.deleteAnalysis (h : t.Closed) (n : TreeObjects ι κ) (o : ι) (a : κ) :
    (t.deleteAnalysis n o a).Closed := by
  unfold AnalysisTree.deleteAnalysis
  split
  · exact h.removeAnalysisNode rfl _ o a
  · exact h

end Removing

/-! ## §4 Runs -/

inductive TreeOperation (ι κ : Type*) where
  | addObservable (parent : Option κ) (o : ι) (tooLarge : Bool)
  | addObservableBySpec (parent : Option κ) (created : Option ι) (tooLarge : Bool)
  | record (o : ι) (tooLarge : Bool)
  | remove (o : ι)
  | addAnalysis (o : ι) (a : κ)
  | deleteAnalysis (o : ι) (a : κ)
  deriving DecidableEq

def step (n : TreeObjects ι κ) (t : AnalysisTree ι κ) : TreeOperation ι κ → AnalysisTree ι κ
  | .addObservable parent o tooLarge => (t.addObservable n parent o tooLarge).1
  | .addObservableBySpec parent created tooLarge =>
    (t.addObservableBySpec n parent created tooLarge).1
  | .record o tooLarge => (t.record n o tooLarge).1
  | .remove o => t.remove o
  | .addAnalysis o a => t.addAnalysis n o a
  | .deleteAnalysis o a => t.deleteAnalysis n o a

/-- What comes into the tree brings only observables of the registry with it, and what the root
or an analysis still lists is not removed. -/
def Allowed (t : AnalysisTree ι κ) : TreeOperation ι κ → Prop
  | .addObservable _ o _ => t.Carries o
  | .addObservableBySpec _ created _ => ∀ o ∈ created, t.Carries o
  | .record o _ => t.Carries o
  | .remove o => o ∉ t.rootObservables ∧
      ∀ o' ∈ t.store, o' ≠ o → ∀ a ∈ t.analysesOf o', o ∉ t.observables a
  | .addAnalysis o a => o ∈ t.store → ∀ child ∈ t.observables a, child ∈ t.store
  | .deleteAnalysis _ _ => True

section Runs

variable {n : TreeObjects ι κ} {t : AnalysisTree ι κ} {o : ι} {a : κ}

theorem registered_new (n : TreeObjects ι κ) : (AnalysisTree.new : AnalysisTree ι κ).Registered n :=
  ⟨List.Pairwise.nil, fun _ _ _ => Nat.zero_le _, nofun⟩

theorem closed_new : (AnalysisTree.new : AnalysisTree ι κ).Closed := ⟨nofun, nofun⟩

theorem mem_analysesOf_addAnalysis {o' : ι} {a' : κ}
    (h : a' ∈ (t.addAnalysis n o a).analysesOf o') :
    a' ∈ t.analysesOf o' ∨ (o' = o ∧ a' = a) := by
  by_cases heq : o' = o
  · subst heq
    simp only [analysesOf, addAnalysis, update_self, setSlot] at h
    split at h
    · obtain ⟨slot, hslot, hsome⟩ := mem_filterMap.mp h
      obtain ⟨before, hbefore, rfl⟩ := mem_map.mp hslot
      split at hsome
      · exact .inr ⟨rfl, (Option.some.inj hsome).symm⟩
      · exact .inl (mem_filterMap.mpr ⟨before, hbefore, hsome⟩)
    · rw [filterMap_append, mem_append] at h
      rcases h with h | h
      · exact .inl h
      · exact .inr ⟨rfl, by simpa using h⟩
  · simp only [analysesOf, addAnalysis, update_of_ne heq] at h
    exact .inl h

theorem Closed.addAnalysis (h : t.Closed)
    (ha : o ∈ t.store → ∀ child ∈ t.observables a, child ∈ t.store) :
    (t.addAnalysis n o a).Closed := by
  refine ⟨h.root, ?_⟩
  intro a' ha' child hchild
  obtain ⟨o', ho', ha'⟩ := mem_allNonRootAnalysis.mp ha'
  rcases mem_analysesOf_addAnalysis ha' with ha' | ⟨rfl, rfl⟩
  · exact h.analyses a' (mem_allNonRootAnalysis.mpr ⟨o', ho', ha'⟩) child hchild
  · exact ha ho' child hchild

theorem Registered.step (h : t.Registered n) (operation : TreeOperation ι κ) :
    (t.step n operation).Registered n := by
  cases operation with
  | addObservable parent o tooLarge => exact h.addObservable parent o tooLarge
  | addObservableBySpec parent created tooLarge => exact h.addObservableBySpec parent created tooLarge
  | record o tooLarge => exact h.record o tooLarge
  | remove o => exact h.of_sublist filter_sublist
  | addAnalysis o a => exact h.of_store rfl
  | deleteAnalysis o a => exact h.of_sublist (pruned_deleteAnalysis n t o a).store

theorem Registered.run (h : t.Registered n) (operations : List (TreeOperation ι κ)) :
    (operations.foldl (AnalysisTree.step n) t).Registered n := by
  induction operations generalizing t with
  | nil => exact h
  | cons operation operations ih => exact ih (h.step operation)

theorem Closed.step (h : t.Closed) {operation : TreeOperation ι κ}
    (hallowed : t.Allowed operation) : (t.step n operation).Closed := by
  cases operation with
  | addObservable parent o tooLarge => exact h.addObservable hallowed parent tooLarge
  | addObservableBySpec parent created tooLarge =>
    cases created with
    | none => exact h
    | some o =>
      have hclosed := h.record (n := n) (hallowed o rfl) tooLarge
      have hstored := mem_store_of_record n t o tooLarge
      simp only [AnalysisTree.step, AnalysisTree.addObservableBySpec]
      split
      · rename_i t' hresult
        rw [hresult] at hclosed
        exact hclosed
      · rename_i t' stored hresult
        rw [hresult] at hclosed hstored
        exact hclosed.addObservable (hclosed.carries (hstored stored rfl)) parent tooLarge
  | record o tooLarge => exact h.record hallowed tooLarge
  | remove o => exact h.remove hallowed.1 hallowed.2
  | addAnalysis o a => exact h.addAnalysis hallowed
  | deleteAnalysis o a => exact h.deleteAnalysis n o a

/-- **The registry is right in every state of every run** from a new tree: no two of its
observables are equal, no type exceeds its limit, none has an empty value, and the tree lists only
observables of the registry, as long as every operation is allowed. -/
theorem registry_invariant (n : TreeObjects ι κ) (operations : List (TreeOperation ι κ)) :
    Along (AnalysisTree.step n) (fun t operation => (t.step n operation).Registered n) .new
        operations ∧
      (Along (AnalysisTree.step n) Allowed .new operations →
        Along (AnalysisTree.step n) (fun t operation => (t.step n operation).Closed) .new
          operations) := by
  constructor
  · apply along_of_invariant fun t => t.Registered n
    · exact fun t operation h => h.step operation
    · exact fun t operation h => h.step operation
    · exact registered_new n
  · intro h
    apply h.of_invariant fun t => t.Closed
    · exact fun t operation hclosed hallowed => hclosed.step hallowed
    · exact fun t operation hclosed hallowed => hclosed.step hallowed
    · exact closed_new

end Runs

/-! ## §5 A removed observable -/

section Examples

def twoUrls : TreeObjects Bool Unit where
  type _ := "url"
  value o := some (if o then "http://a/" else "http://b/")
  time _ := none
  filePath _ := none
  compareKey _ value := value
  observableLimits _ := none
  modulePath _ := ⟨"saq.modules.url:UrlAnalysis", none⟩

/-- The analysis of the first url finds the second, which is then taken out of the registry. -/
def removeFound : List (TreeOperation Bool Unit) :=
  [.addObservable none true false, .addAnalysis true (), .addObservable (some ()) false false,
    .remove false]

/-- The analysis still lists it. -/
theorem removed_observable_is_listed :
    ¬ Along (AnalysisTree.step twoUrls) (fun t operation => (t.step twoUrls operation).Closed) .new
      removeFound := by
  rintro ⟨-, -, -, hclosed, -⟩
  have hlisted := hclosed.analyses () (by decide) false (by decide)
  exact absurd hlisted (by decide)

/-- Deleting the analysis takes the url that it found out of the registry with it. -/
theorem deleted_analysis_is_closed :
    Along (AnalysisTree.step twoUrls) (fun t operation => (t.step twoUrls operation).Closed) .new
        [.addObservable none true false, .addAnalysis true (), .addObservable (some ()) false false,
          .deleteAnalysis true ()] ∧
      ([.addObservable none true false, .addAnalysis true (),
          .addObservable (some ()) false false, .deleteAnalysis true ()].foldl
        (AnalysisTree.step twoUrls) .new).store = [true] := by
  refine ⟨(registry_invariant twoUrls _).2 ?_, by decide⟩
  exact ⟨nofun, fun _ => nofun, nofun, trivial, trivial⟩

end Examples

end AnalysisTree

end Ace3.Analysis
