import Ace3.Analysis.TreeDeletion

/-!
# References Between Observables

Relationships, links, redirections and tracked dependencies refer to observables by uuid, and
`delete_analysis` and `_reset` take observables out of the registry.
-/

set_option linter.unusedSectionVars false

namespace Ace3.Analysis

open List Function
open Lib.Runs

variable {ι κ : Type*} [DecidableEq ι] [DecidableEq κ]

namespace AnalysisTree

/-! ## §1 References -/

/-- A relationship, a link or the redirection of the first observable has the second one as its
target. -/
def RefersTo (t : AnalysisTree ι κ) (o target : ι) : Prop :=
  target ∈ (t.relationships o).map (·.2) ∨ target ∈ t.links o ∨ target ∈ t.redirection o

/-- Every observable that the tree refers to is in the registry. -/
structure Intact (t : AnalysisTree ι κ) : Prop where
  closed : t.Closed
  references : ∀ o ∈ t.store, ∀ target, t.RefersTo o target → target ∈ t.store
  dependencies : ∀ dep ∈ t.dependencyTracking,
    dep.sourceObservable ∈ t.store ∧ dep.targetObservable ∈ t.store

/-- `get_observable_by_id`, of the registry that was saved and loaded. -/
def resolve (t : AnalysisTree ι κ) (o : ι) : Option ι := t.store.find? (· = o)

/-- The relationships that are loaded: the target of some may stay a mere uuid, or be none. -/
def loadedRelationships (t : AnalysisTree ι κ) (o : ι) : List (String × Option ι) :=
  (t.relationships o).map fun r => (r.1, t.resolve r.2)

/-- `links` after loading. -/
def loadedLinks (t : AnalysisTree ι κ) (o : ι) : List (Option ι) := (t.links o).map t.resolve

/-- `redirection` after loading. -/
def loadedRedirection (t : AnalysisTree ι κ) (o : ι) : Option ι :=
  (t.redirection o).bind t.resolve

/-- `_load_observable_references`, which leaves out what is missing. -/
def loadedObservables (t : AnalysisTree ι κ) (a : κ) : List ι :=
  (t.observables a).filterMap t.resolve

/-- Loading the saved tree drops no reference, and every relationship has a target. -/
structure Reloads (t : AnalysisTree ι κ) : Prop where
  relationships : ∀ o ∈ t.store,
    t.loadedRelationships o = (t.relationships o).map fun r => (r.1, some r.2)
  links : ∀ o ∈ t.store, t.loadedLinks o = (t.links o).map some
  redirection : ∀ o ∈ t.store, t.loadedRedirection o = t.redirection o
  observables : ∀ a ∈ t.allNonRootAnalysis, t.loadedObservables a = t.observables a
  rootObservables : t.rootObservables.filterMap t.resolve = t.rootObservables

section Loading

variable {t : AnalysisTree ι κ} {o : ι}

theorem resolve_of_mem (h : o ∈ t.store) : t.resolve o = some o := by
  unfold resolve
  cases hfind : t.store.find? (· = o) with
  | none => exact absurd (List.find?_eq_none.mp hfind o h) (by simp)
  | some stored =>
    have hsame := List.find?_some hfind
    rw [of_decide_eq_true hsame]

theorem filterMap_resolve {os : List ι} (h : ∀ o ∈ os, o ∈ t.store) :
    os.filterMap t.resolve = os := by
  rw [filterMap_congr (g := some) fun o ho => resolve_of_mem (h o ho), filterMap_some]

theorem Intact.reloads (h : t.Intact) : t.Reloads := by
  refine ⟨?_, ?_, ?_, ?_, ?_⟩
  · intro o ho
    apply map_congr_left
    intro r hr
    rw [resolve_of_mem (h.references o ho r.2 (.inl (mem_map_of_mem hr)))]
  · intro o ho
    apply map_congr_left
    exact fun target htarget => resolve_of_mem (h.references o ho target (.inr (.inl htarget)))
  · intro o ho
    unfold loadedRedirection
    cases hredirection : t.redirection o with
    | none => rfl
    | some target => exact resolve_of_mem (h.references o ho target (.inr (.inr hredirection)))
  · exact fun a ha => filterMap_resolve (h.closed.analyses a ha)
  · exact filterMap_resolve h.closed.root

end Loading

/-! ## §2 `delete_analysis` -/

/-- The observable does not depend on the analysis: it belongs to the root, or no analysis listed
it anyway, or the other analyses lead to it, be it on a cycle. -/
def Held (n : TreeObjects ι κ) (t : AnalysisTree ι κ) (o : ι) (a : κ) (x : ι) : Prop :=
  ∃ kept : ι → Prop, kept x ∧
    Supports (fun y => y ∈ t.rootObservables ∨ t.Unlisted y) kept (t.unlink o (n.modulePath a))

/-- A tree whose observables may be fewer, and whose dependencies do not mention those that are
missing. -/
structure Swept (t t' : AnalysisTree ι κ) : Prop where
  relationships : t'.relationships = t.relationships
  links : t'.links = t.links
  redirection : t'.redirection = t.redirection
  dependencies : ∀ dep ∈ t'.dependencyTracking, dep ∈ t.dependencyTracking ∧
    ∀ o ∈ t.store, o = dep.sourceObservable ∨ o = dep.targetObservable → o ∈ t'.store

section Deletion

variable {n : TreeObjects ι κ} {t t' t'' : AnalysisTree ι κ} {o : ι} {a : κ}

theorem Swept.refl (t : AnalysisTree ι κ) : t.Swept t :=
  ⟨rfl, rfl, rfl, fun _ hdep => ⟨hdep, fun _ ho _ => ho⟩⟩

theorem Swept.trans (h : t.Swept t') (h' : t'.Swept t'') : t.Swept t'' := by
  refine ⟨h'.relationships.trans h.relationships, h'.links.trans h.links,
    h'.redirection.trans h.redirection, fun dep hdep => ?_⟩
  obtain ⟨hbetween, hstays'⟩ := h'.dependencies dep hdep
  obtain ⟨hbefore, hstays⟩ := h.dependencies dep hbetween
  exact ⟨hbefore, fun o ho hmentioned => hstays' o (hstays o ho hmentioned) hmentioned⟩

theorem swept_unlink (t : AnalysisTree ι κ) (o : ι) (path : AnalysisPath) :
    t.Swept (t.unlink o path) :=
  ⟨rfl, rfl, rfl, fun _ hdep => ⟨hdep, fun _ ho _ => ho⟩⟩

theorem swept_dropDependencies_remove (t : AnalysisTree ι κ) (o : ι) :
    t.Swept ((t.dropDependencies o).remove o) := by
  refine ⟨rfl, rfl, rfl, fun dep hdep => ?_⟩
  obtain ⟨hbefore, hothers⟩ := mem_filter.mp hdep
  obtain ⟨hsource, htarget⟩ := of_decide_eq_true hothers
  refine ⟨hbefore, fun x hx hmentioned => mem_filter.mpr ⟨hx, decide_eq_true ?_⟩⟩
  rintro rfl
  rcases hmentioned with heq | heq
  · exact hsource heq.symm
  · exact htarget heq.symm

theorem swept_foldl {α : Type*} {step : AnalysisTree ι κ → α → AnalysisTree ι κ}
    (hstep : ∀ t item, Swept t (step t item)) (items : List α) (t : AnalysisTree ι κ) :
    t.Swept (items.foldl step t) := by
  induction items generalizing t with
  | nil => exact .refl t
  | cons item items ih => exact (hstep t item).trans (ih _)

theorem swept_removeAnalysisNode (n : TreeObjects ι κ) (original : List ι) (depth : Nat)
    (t : AnalysisTree ι κ) (o : ι) (a : κ) :
    t.Swept (t.removeAnalysisNode n original depth o a) := by
  induction depth generalizing t o a with
  | zero => exact .refl t
  | succ depth ih =>
    rw [removeAnalysisNode]
    apply (swept_unlink t o _).trans (swept_foldl _ _ _)
    intro t child
    unfold pruneChild
    split
    · exact .refl t
    · exact (swept_foldl (fun t a => ih t child a) _ t).trans
        (swept_dropDependencies_remove _ child)

theorem swept_deleteAnalysis (n : TreeObjects ι κ) (t : AnalysisTree ι κ) (o : ι) (a : κ) :
    t.Swept (t.deleteAnalysis n o a) := by
  unfold deleteAnalysis
  split
  · exact swept_removeAnalysisNode ..
  · exact .refl t

theorem mem_deleteAnalysis_iff (hregistered : t.Registered n) (hclosed : t.Closed)
    (hkeyed : t.Keyed n) (ho : o ∈ t.store) (ha : (n.modulePath a, some a) ∈ t.slots o) {x : ι} :
    x ∈ (t.deleteAnalysis n o a).store ↔ t.Held n o a x := by
  have hpruned := pruned_unlink_deleteAnalysis ha
  constructor
  · intro hx
    have hall : Accounted (fun y => y ∈ t.rootObservables ∨ t.Unlisted y) t [] := by
      intro y _
      by_cases hlisted : t.Unlisted y
      · exact .inr (.inl (.inr hlisted))
      · unfold Unlisted at hlisted
        push Not at hlisted
        exact .inr (.inr hlisted)
    have hleft := accounted_deleteAnalysis hregistered hclosed hkeyed (fun _ => .inl) ho ha hall
    -- the observables that are left lead to each other
    refine ⟨(· ∈ (t.deleteAnalysis n o a).store), hx, fun y hy => hpruned.store.subset hy, ?_⟩
    intro y hy
    rcases hleft y hy with hnone | hbase | ⟨b, hb, hlisted⟩
    · cases hnone
    · exact .inl hbase
    · obtain ⟨y', hy', hb'⟩ := mem_allNonRootAnalysis.mp hb
      exact .inr ⟨y', hy', hpruned.leads ⟨b, hb', hlisted⟩⟩
  · rintro ⟨kept, hx, hsupports⟩
    refine hsupports.deleteAnalysis hclosed ?_ ho x hx
    rintro b hb child hlisted (hroot | hunlisted)
    · exact hroot
    · exact absurd hlisted (hunlisted b hb)

end Deletion

/-! ## §3 Operations -/

inductive ReferenceOperation (ι κ : Type*) where
  | addObservable (parent : Option κ) (o : ι) (tooLarge : Bool)
  | addObservableBySpec (parent : Option κ) (created : Option ι) (tooLarge : Bool)
  | addAnalysis (o : ι) (a : κ)
  | addNoAnalysis (o : ι) (path : AnalysisPath)
  | addRelationship (o : ι) (rType : String) (target : ι)
  | addLink (o target : ι)
  | setRedirection (o target : ι)
  | addDependency (dep : TrackedDependency ι) (circular : Bool)
  | deleteAnalysis (o : ι) (a : κ)
  | reset

def act (n : TreeObjects ι κ) (t : AnalysisTree ι κ) : ReferenceOperation ι κ → AnalysisTree ι κ
  | .addObservable parent o tooLarge => (t.addObservable n parent o tooLarge).1
  | .addObservableBySpec parent created tooLarge =>
    (t.addObservableBySpec n parent created tooLarge).1
  | .addAnalysis o a => t.addAnalysis n o a
  | .addNoAnalysis o path => t.addNoAnalysis o path
  | .addRelationship o rType target => t.addRelationship n o rType target
  | .addLink o target => t.addLink n o target
  | .setRedirection o target => t.setRedirection o target
  | .addDependency dep circular => t.addDependency dep circular
  | .deleteAnalysis o a => t.deleteAnalysis n o a
  | .reset => t.reset

/-- What an observable refers to when it is added is in the registry, or is the observable. -/
def Brings (t : AnalysisTree ι κ) (o : ι) : Prop :=
  t.Carries o ∧ ∀ target, t.RefersTo o target → target ∈ t.store ∨ target = o

/-- References are added to observables of the registry only, and no observable that stays
refers to one that is taken out of it. -/
def Meets (n : TreeObjects ι κ) (t : AnalysisTree ι κ) : ReferenceOperation ι κ → Prop
  | .addObservable _ o _ => t.Brings o
  | .addObservableBySpec _ created _ => ∀ o ∈ created, t.Brings o
  | .addAnalysis o a => o ∈ t.store → ∀ child ∈ t.observables a, child ∈ t.store
  | .addNoAnalysis _ _ => True
  | .addRelationship o _ target => o ∈ t.store → target ∈ t.store
  | .addLink o target => o ∈ t.store → target ∈ t.store
  | .setRedirection o target => o ∈ t.store → target ∈ t.store
  | .addDependency dep _ => dep.sourceObservable ∈ t.store ∧ dep.targetObservable ∈ t.store
  | .deleteAnalysis o a => (n.modulePath a, some a) ∈ t.slots o →
      o ∈ t.store ∧ ∀ x, t.Held n o a x → ∀ target, t.RefersTo x target → t.Held n o a target
  | .reset => (∀ o ∈ t.rootObservables, ∀ target, t.RefersTo o target →
      target ∈ t.rootObservables) ∧
      ∀ dep ∈ t.dependencyTracking,
        dep.sourceObservable ∈ t.rootObservables ∧ dep.targetObservable ∈ t.rootObservables

structure Sound (n : TreeObjects ι κ) (t : AnalysisTree ι κ) : Prop where
  registered : t.Registered n
  keyed : t.Keyed n
  intact : t.Intact

section Operations

variable {n : TreeObjects ι κ} {t t' : AnalysisTree ι κ} {o target : ι} {a : κ}

theorem keys_setSlot (slots : List (AnalysisPath × Option κ)) (path : AnalysisPath)
    (a : Option κ) :
    (setSlot slots path a).map (·.1) =
      if path ∈ slots.map (·.1) then slots.map (·.1) else slots.map (·.1) ++ [path] := by
  have hany : slots.any (·.1 = path) = true ↔ path ∈ slots.map (·.1) := by simp
  unfold setSlot
  by_cases hmem : path ∈ slots.map (·.1)
  · rw [if_pos (hany.mpr hmem), if_pos hmem, map_map]
    apply map_congr_left
    intro slot _
    by_cases hkey : slot.1 = path <;> simp [hkey]
  · rw [if_neg (mt hany.mp hmem), if_neg hmem, map_append]
    rfl

theorem mem_setSlot {slots : List (AnalysisPath × Option κ)} {path : AnalysisPath} {a : Option κ}
    {slot : AnalysisPath × Option κ} (h : slot ∈ setSlot slots path a) :
    slot ∈ slots ∨ slot = (path, a) := by
  unfold setSlot at h
  split at h
  · obtain ⟨before, hbefore, rfl⟩ := mem_map.mp h
    split
    · exact .inr rfl
    · exact .inl hbefore
  · rcases mem_append.mp h with h | h
    · exact .inl h
    · exact .inr (mem_singleton.mp h)

theorem Keyed.update (h : t.Keyed n) {slots : List (AnalysisPath × Option κ)}
    (hslots : t'.slots = Function.update t.slots o slots) (hpaths : (slots.map (·.1)).Nodup)
    (hown : ∀ path a, (path, some a) ∈ slots → path = n.modulePath a) : t'.Keyed n := by
  refine ⟨fun x => ?_, fun x path b hslot => ?_⟩
  · rw [hslots]
    by_cases heq : x = o
    · subst heq
      rwa [update_self]
    · rw [update_of_ne heq]
      exact h.paths x
  · rw [hslots] at hslot
    by_cases heq : x = o
    · subst heq
      rw [update_self] at hslot
      exact hown path b hslot
    · rw [update_of_ne heq] at hslot
      exact h.own x path b hslot

theorem Keyed.of_slots (h : t.Keyed n) (hslots : t'.slots = t.slots) : t'.Keyed n :=
  ⟨fun o => hslots ▸ h.paths o, fun o path a hslot => h.own o path a (hslots ▸ hslot)⟩

theorem Keyed.addAnalysis (h : t.Keyed n) (o : ι) (a : κ) : (t.addAnalysis n o a).Keyed n := by
  apply h.update rfl
  · rw [keys_setSlot]
    split
    · exact h.paths o
    · rename_i hnew
      rw [nodup_append]
      refine ⟨h.paths o, nodup_singleton _, ?_⟩
      rintro path hpath _ hsingle rfl
      exact hnew (mem_singleton.mp hsingle ▸ hpath)
  · intro path b hslot
    rcases mem_setSlot hslot with hslot | hslot
    · exact h.own o path b hslot
    · obtain ⟨rfl, hsome⟩ := Prod.mk.inj hslot
      rw [Option.some.inj hsome]

theorem Keyed.addNoAnalysis (h : t.Keyed n) (o : ι) (path : AnalysisPath) :
    (t.addNoAnalysis o path).Keyed n := by
  unfold AnalysisTree.addNoAnalysis
  split
  · exact h
  · rename_i hnew
    apply h.update rfl
    · rw [map_append, nodup_append]
      refine ⟨h.paths o, nodup_singleton _, ?_⟩
      rintro path' hpath _ hsingle rfl
      obtain ⟨slot, hslot, hkey⟩ := mem_map.mp hpath
      apply hnew
      exact any_eq_true.mpr
        ⟨slot, hslot, decide_eq_true (hkey.trans (mem_singleton.mp hsingle))⟩
    · intro path' b hslot
      rcases mem_append.mp hslot with hslot | hslot
      · exact h.own o path' b hslot
      · cases (Prod.mk.inj (mem_singleton.mp hslot)).2

theorem record_slots (n : TreeObjects ι κ) (t : AnalysisTree ι κ) (o : ι) (tooLarge : Bool) :
    (t.record n o tooLarge).1.slots = t.slots := by
  rcases record_cases n t o tooLarge with ⟨result, hrecord, -⟩ | ⟨hrecord, -⟩ <;> rw [hrecord]

theorem addObservable_slots (n : TreeObjects ι κ) (t : AnalysisTree ι κ) (parent : Option κ)
    (o : ι) (tooLarge : Bool) : (t.addObservable n parent o tooLarge).1.slots = t.slots := by
  rcases addObservable_cases n t parent o tooLarge with hsame | ⟨stored, -, hadded⟩
  · rw [hsame]
  · rw [hadded, slots_addChild, record_slots]

theorem Intact.grow (h : t.Intact) (hclosed : t'.Closed) (hstore : ∀ o ∈ t.store, o ∈ t'.store)
    (hreferences : ∀ o ∈ t'.store, ∀ target, t'.RefersTo o target →
      (o ∈ t.store ∧ t.RefersTo o target) ∨ target ∈ t'.store)
    (hdependencies : ∀ dep ∈ t'.dependencyTracking, dep ∈ t.dependencyTracking ∨
      (dep.sourceObservable ∈ t'.store ∧ dep.targetObservable ∈ t'.store)) : t'.Intact := by
  refine ⟨hclosed, fun o ho target hrefers => ?_, fun dep hdep => ?_⟩
  · rcases hreferences o ho target hrefers with ⟨hbefore, hrefers'⟩ | hnew
    · exact hstore target (h.references o hbefore target hrefers')
    · exact hnew
  · rcases hdependencies dep hdep with hbefore | hnew
    · obtain ⟨hsource, htarget⟩ := h.dependencies dep hbefore
      exact ⟨hstore _ hsource, hstore _ htarget⟩
    · exact hnew

theorem Intact.of_closed (h : t.Intact) (hclosed : t'.Closed) (hstore : t'.store = t.store)
    (hreferences : ∀ o target, t'.RefersTo o target → t.RefersTo o target)
    (hdependencies : t'.dependencyTracking = t.dependencyTracking) : t'.Intact :=
  h.grow hclosed (fun _ ho => hstore ▸ ho)
    (fun o ho target hrefers => .inl ⟨hstore ▸ ho, hreferences o target hrefers⟩)
    (fun _ hdep => .inl (hdependencies ▸ hdep))

theorem Intact.record (h : t.Intact) (hbrings : t.Brings o) (tooLarge : Bool) :
    (t.record n o tooLarge).1.Intact := by
  have hclosed := h.closed.record (n := n) hbrings.1 tooLarge
  rcases record_cases n t o tooLarge with ⟨result, hrecord, -⟩ | ⟨hrecord, -⟩
  · rw [hrecord]
    exact h
  · rw [hrecord] at hclosed ⊢
    apply h.grow hclosed
    · exact fun x hx => mem_append_left _ hx
    · intro x hx target hrefers
      rcases mem_append.mp hx with hx | hx
      · exact .inl ⟨hx, hrefers⟩
      · obtain rfl := mem_singleton.mp hx
        rcases hbrings.2 target hrefers with hstored | rfl
        · exact .inr (mem_append_left _ hstored)
        · exact .inr (mem_append_right _ (mem_singleton_self _))
    · exact fun dep hdep => .inl hdep

theorem Intact.addChild (h : t.Intact) (ho : o ∈ t.store) (parent : Option κ) :
    (t.addChild parent o).Intact := by
  have hclosed := h.closed.addChild ho parent
  cases parent <;> exact h.of_closed hclosed rfl (fun _ _ hrefers => hrefers) rfl

theorem Intact.addObservable (h : t.Intact) (hbrings : t.Brings o) (parent : Option κ)
    (tooLarge : Bool) : (t.addObservable n parent o tooLarge).1.Intact := by
  rcases addObservable_cases n t parent o tooLarge with hsame | ⟨stored, hstored, hadded⟩
  · rw [hsame]
    exact h
  · rw [hadded]
    exact (h.record hbrings tooLarge).addChild (mem_store_of_record n t o tooLarge stored hstored)
      parent

theorem Intact.brings (h : t.Intact) (ho : o ∈ t.store) : t.Brings o :=
  ⟨h.closed.carries ho, fun target hrefers => .inl (h.references o ho target hrefers)⟩

theorem Intact.addObservableBySpec (h : t.Intact) {created : Option ι}
    (hbrings : ∀ o ∈ created, t.Brings o) (parent : Option κ) (tooLarge : Bool) :
    (t.addObservableBySpec n parent created tooLarge).1.Intact := by
  cases created with
  | none => exact h
  | some o =>
    have hrecord := h.record (n := n) (hbrings o rfl) tooLarge
    have hmem := mem_store_of_record n t o tooLarge
    simp only [AnalysisTree.addObservableBySpec]
    split
    · rename_i t' hresult
      rw [hresult] at hrecord
      exact hrecord
    · rename_i t' stored hresult
      rw [hresult] at hrecord hmem
      exact hrecord.addObservable (hrecord.brings (hmem stored rfl)) parent tooLarge

theorem Intact.refer (h : t.Intact) (htarget : o ∈ t.store → target ∈ t.store)
    (hclosed : t'.Closed) (hstore : t'.store = t.store)
    (hreferences : ∀ x y, t'.RefersTo x y → t.RefersTo x y ∨ (x = o ∧ y = target))
    (hdependencies : t'.dependencyTracking = t.dependencyTracking) : t'.Intact := by
  apply h.grow hclosed (fun _ ho => hstore ▸ ho) _ (fun _ hdep => .inl (hdependencies ▸ hdep))
  intro x hx y hrefers
  rw [hstore] at hx ⊢
  rcases hreferences x y hrefers with hbefore | ⟨rfl, rfl⟩
  · exact .inl ⟨hx, hbefore⟩
  · exact .inr (htarget hx)

theorem Intact.addRelationship (h : t.Intact) (rType : String)
    (htarget : o ∈ t.store → target ∈ t.store) : (t.addRelationship n o rType target).Intact := by
  unfold AnalysisTree.addRelationship
  split
  · refine h.refer htarget ⟨h.closed.root, h.closed.analyses⟩ rfl ?_ rfl
    rintro x y (hrelationship | hother)
    · by_cases heq : x = o
      · subst heq
        simp only [update_self, map_append, map_cons, map_nil,
          mem_append, mem_singleton] at hrelationship
        exact hrelationship.imp .inl fun hy => ⟨rfl, hy⟩
      · simp only [update_of_ne heq] at hrelationship
        exact .inl (.inl hrelationship)
    · exact .inl (.inr hother)
  · exact h

theorem Intact.addLink (h : t.Intact) (htarget : o ∈ t.store → target ∈ t.store) :
    (t.addLink n o target).Intact := by
  unfold AnalysisTree.addLink
  split
  · exact h
  · split
    · exact h
    · refine h.refer htarget ⟨h.closed.root, h.closed.analyses⟩ rfl ?_ rfl
      rintro x y (hrelationship | hlink | hredirection)
      · exact .inl (.inl hrelationship)
      · by_cases heq : x = o
        · subst heq
          simp only [update_self, mem_append, mem_singleton] at hlink
          exact hlink.imp (fun hbefore => .inr (.inl hbefore)) fun hy => ⟨rfl, hy⟩
        · simp only [update_of_ne heq] at hlink
          exact .inl (.inr (.inl hlink))
      · exact .inl (.inr (.inr hredirection))

theorem Intact.setRedirection (h : t.Intact) (htarget : o ∈ t.store → target ∈ t.store) :
    (t.setRedirection o target).Intact := by
  refine h.refer htarget ⟨h.closed.root, h.closed.analyses⟩ rfl ?_ rfl
  rintro x y (hrelationship | hlink | hredirection)
  · exact .inl (.inl hrelationship)
  · exact .inl (.inr (.inl hlink))
  · by_cases heq : x = o
    · subst heq
      simp only [AnalysisTree.setRedirection, update_self] at hredirection
      exact .inr ⟨rfl, (Option.some.inj hredirection).symm⟩
    · simp only [AnalysisTree.setRedirection, update_of_ne heq] at hredirection
      exact .inl (.inr (.inr hredirection))

theorem Intact.addDependency (h : t.Intact) {dep : TrackedDependency ι} (circular : Bool)
    (hdep : dep.sourceObservable ∈ t.store ∧ dep.targetObservable ∈ t.store) :
    (t.addDependency dep circular).Intact := by
  unfold AnalysisTree.addDependency
  split
  · exact h
  · refine h.grow ⟨h.closed.root, h.closed.analyses⟩ (fun _ ho => ho)
      (fun o ho target hrefers => .inl ⟨ho, hrefers⟩) ?_
    intro dep' hdep'
    rcases mem_append.mp hdep' with hbefore | hnew
    · exact .inl hbefore
    · exact .inr (mem_singleton.mp hnew ▸ hdep)

theorem Intact.addAnalysis (h : t.Intact)
    (ha : o ∈ t.store → ∀ child ∈ t.observables a, child ∈ t.store) :
    (t.addAnalysis n o a).Intact :=
  h.of_closed (h.closed.addAnalysis ha) rfl (fun _ _ hrefers => hrefers) rfl

theorem Intact.addNoAnalysis (h : t.Intact) (o : ι) (path : AnalysisPath) :
    (t.addNoAnalysis o path).Intact := by
  have hanalyses : ∀ x, (t.addNoAnalysis o path).analysesOf x = t.analysesOf x := by
    intro x
    unfold AnalysisTree.analysesOf AnalysisTree.addNoAnalysis
    split
    · rfl
    · by_cases heq : x = o
      · subst heq
        simp
      · simp only [update_of_ne heq]
  have hstore : (t.addNoAnalysis o path).store = t.store := by
    unfold AnalysisTree.addNoAnalysis
    split <;> rfl
  have hclosed : (t.addNoAnalysis o path).Closed := by
    refine ⟨?_, fun b hb => ?_⟩
    · rw [hstore]
      unfold AnalysisTree.addNoAnalysis
      split <;> exact h.closed.root
    · obtain ⟨x, hx, hb⟩ := mem_allNonRootAnalysis.mp hb
      rw [hstore] at hx ⊢
      rw [hanalyses] at hb
      have hbefore := h.closed.analyses b (mem_allNonRootAnalysis.mpr ⟨x, hx, hb⟩)
      unfold AnalysisTree.addNoAnalysis
      split <;> exact hbefore
  apply h.of_closed hclosed hstore
  · unfold AnalysisTree.addNoAnalysis
    split <;> exact fun _ _ hrefers => hrefers
  · unfold AnalysisTree.addNoAnalysis
    split <;> rfl

theorem Intact.deleteAnalysis_iff (h : t.Intact) (hregistered : t.Registered n)
    (hkeyed : t.Keyed n) (ho : o ∈ t.store) (ha : (n.modulePath a, some a) ∈ t.slots o) :
    (t.deleteAnalysis n o a).Intact ↔
      ∀ x, t.Held n o a x → ∀ target, t.RefersTo x target → t.Held n o a target := by
  have hswept := swept_deleteAnalysis n t o a
  have hstays : ∀ x, x ∈ (t.deleteAnalysis n o a).store ↔ t.Held n o a x :=
    fun x => mem_deleteAnalysis_iff hregistered h.closed hkeyed ho ha
  have hrefers : ∀ x target, (t.deleteAnalysis n o a).RefersTo x target ↔ t.RefersTo x target := by
    intro x target
    unfold RefersTo
    rw [hswept.relationships, hswept.links, hswept.redirection]
  constructor
  · intro hintact x hx target htarget
    exact (hstays target).mp
      (hintact.references x ((hstays x).mpr hx) target ((hrefers x target).mpr htarget))
  · intro hheld
    refine ⟨h.closed.deleteAnalysis n o a, fun x hx target htarget => ?_, fun dep hdep => ?_⟩
    · exact (hstays target).mpr (hheld x ((hstays x).mp hx) target ((hrefers x target).mp htarget))
    · obtain ⟨hbefore, hmentioned⟩ := hswept.dependencies dep hdep
      obtain ⟨hsource, htarget⟩ := h.dependencies dep hbefore
      exact ⟨hmentioned _ hsource (.inl rfl), hmentioned _ htarget (.inr rfl)⟩

theorem Intact.reset_iff (h : t.Intact) : t.reset.Intact ↔ t.Meets n .reset := by
  have hleft : ∀ o, o ∈ t.reset.store ↔ o ∈ t.rootObservables := by
    intro o
    refine ⟨fun ho => of_decide_eq_true (mem_filter.mp ho).2, fun ho => ?_⟩
    exact mem_filter.mpr ⟨h.closed.root o ho, decide_eq_true ho⟩
  constructor
  · intro hintact
    refine ⟨fun o ho target hrefers => ?_, fun dep hdep => ?_⟩
    · exact (hleft target).mp (hintact.references o ((hleft o).mpr ho) target hrefers)
    · obtain ⟨hsource, htarget⟩ := hintact.dependencies dep hdep
      exact ⟨(hleft _).mp hsource, (hleft _).mp htarget⟩
  · intro hmeets
    refine ⟨⟨fun o ho => (hleft o).mpr ho, fun a ha => ?_⟩, fun o ho target hrefers => ?_,
      fun dep hdep => ?_⟩
    · obtain ⟨o, ho, ha⟩ := mem_allNonRootAnalysis.mp ha
      simp only [analysesOf, AnalysisTree.reset, if_pos ((hleft o).mp ho)] at ha
      cases ha
    · exact (hleft target).mpr (hmeets.1 o ((hleft o).mp ho) target hrefers)
    · obtain ⟨hsource, htarget⟩ := hmeets.2 dep hdep
      exact ⟨(hleft _).mpr hsource, (hleft _).mpr htarget⟩

theorem Keyed.reset (h : t.Keyed n) : t.reset.Keyed n := by
  refine ⟨fun o => ?_, fun o path a hslot => ?_⟩
  · by_cases hroot : o ∈ t.rootObservables
    · simp [AnalysisTree.reset, hroot]
    · simpa [AnalysisTree.reset, hroot] using h.paths o
  · by_cases hroot : o ∈ t.rootObservables
    · simp [AnalysisTree.reset, hroot] at hslot
    · simp only [AnalysisTree.reset, if_neg hroot] at hslot
      exact h.own o path a hslot

/-- Operations that meet the condition keep the registry, the slots and the references right. -/
theorem Sound.act (h : t.Sound n) {operation : ReferenceOperation ι κ}
    (hmeets : t.Meets n operation) : (t.act n operation).Sound n := by
  obtain ⟨hregistered, hkeyed, hintact⟩ := h
  cases operation with
  | addObservable parent o tooLarge =>
    exact ⟨hregistered.addObservable parent o tooLarge,
      hkeyed.of_slots (addObservable_slots n t parent o tooLarge),
      hintact.addObservable hmeets parent tooLarge⟩
  | addObservableBySpec parent created tooLarge =>
    refine ⟨hregistered.addObservableBySpec parent created tooLarge, ?_,
      hintact.addObservableBySpec hmeets parent tooLarge⟩
    cases created with
    | none => exact hkeyed
    | some o =>
      have hrecord := hkeyed.of_slots (record_slots n t o tooLarge)
      simp only [AnalysisTree.act, AnalysisTree.addObservableBySpec]
      split
      · rename_i t' hresult
        rw [hresult] at hrecord
        exact hrecord
      · rename_i t' stored hresult
        rw [hresult] at hrecord
        exact hrecord.of_slots (addObservable_slots n t' parent stored tooLarge)
  | addAnalysis o a =>
    exact ⟨hregistered.of_store rfl, hkeyed.addAnalysis o a, hintact.addAnalysis hmeets⟩
  | addNoAnalysis o path =>
    refine ⟨hregistered.of_store ?_, hkeyed.addNoAnalysis o path, hintact.addNoAnalysis o path⟩
    simp only [AnalysisTree.act, AnalysisTree.addNoAnalysis]
    split <;> rfl
  | addRelationship o rType target =>
    refine ⟨hregistered.of_store ?_, hkeyed.of_slots ?_, hintact.addRelationship rType hmeets⟩
    · simp only [AnalysisTree.act, AnalysisTree.addRelationship]
      split <;> rfl
    · simp only [AnalysisTree.act, AnalysisTree.addRelationship]
      split <;> rfl
  | addLink o target =>
    refine ⟨hregistered.of_store ?_, hkeyed.of_slots ?_, hintact.addLink hmeets⟩
    · simp only [AnalysisTree.act, AnalysisTree.addLink]
      split
      · rfl
      · split <;> rfl
    · simp only [AnalysisTree.act, AnalysisTree.addLink]
      split
      · rfl
      · split <;> rfl
  | setRedirection o target =>
    exact ⟨hregistered.of_store rfl, hkeyed.of_slots rfl, hintact.setRedirection hmeets⟩
  | addDependency dep circular =>
    refine ⟨hregistered.of_store ?_, hkeyed.of_slots ?_, hintact.addDependency circular hmeets⟩
    · simp only [AnalysisTree.act, AnalysisTree.addDependency]
      split <;> rfl
    · simp only [AnalysisTree.act, AnalysisTree.addDependency]
      split <;> rfl
  | deleteAnalysis o a =>
    have hpruned := pruned_deleteAnalysis n t o a
    refine ⟨hregistered.of_sublist hpruned.store, hpruned.keyed hkeyed, ?_⟩
    by_cases ha : (n.modulePath a, some a) ∈ t.slots o
    · obtain ⟨ho, hheld⟩ := hmeets ha
      exact (hintact.deleteAnalysis_iff hregistered hkeyed ho ha).mpr hheld
    · simp only [AnalysisTree.act, AnalysisTree.deleteAnalysis, if_neg ha]
      exact hintact
  | reset =>
    exact ⟨hregistered.of_sublist filter_sublist, hkeyed.reset, hintact.reset_iff.mpr hmeets⟩

end Operations

/-! ## §4 Runs -/

theorem sound_new (n : TreeObjects ι κ) : (AnalysisTree.new : AnalysisTree ι κ).Sound n :=
  ⟨registered_new n, ⟨fun _ => nodup_nil, nofun⟩, ⟨closed_new, nofun, nofun⟩⟩

/-- **In every run whose operations meet the condition**, every observable that the tree refers to
is in the registry after each of them, and saving and loading the tree drops no reference. -/
theorem references_intact (n : TreeObjects ι κ) (operations : List (ReferenceOperation ι κ))
    (h : Along (act n) (Meets n) .new operations) :
    Along (act n) (fun t operation => (t.act n operation).Intact ∧ (t.act n operation).Reloads)
      .new operations := by
  apply h.of_invariant fun t => t.Sound n
  · exact fun t operation hsound hmeets => hsound.act hmeets
  · intro t operation hsound hmeets
    have hintact := (hsound.act hmeets).intact
    exact ⟨hintact, hintact.reloads⟩
  · exact sound_new n

/-! ## §5 An extracted file -/

section Examples

def found : List (ReferenceOperation Bool Unit) :=
  [.addObservable none true false, .addAnalysis true (), .addObservable (some ()) false false]

/-- The url of the root redirects to the one that goes with the analysis. -/
theorem redirection_dangles :
    ¬ Along (act twoUrls)
      (fun t operation => (t.act twoUrls operation).Intact ∧ (t.act twoUrls operation).Reloads) .new
      (found ++ [.setRedirection true false, .deleteAnalysis true ()]) := by
  rintro ⟨-, -, -, -, ⟨hintact, -⟩, -⟩
  have hstored := hintact.references true (by decide) false (.inr (.inr rfl))
  exact absurd hstored (by decide)

/-- The other way round the reference goes with the url that has it. -/
theorem found_relationship_goes :
    Along (act twoUrls)
      (fun t operation => (t.act twoUrls operation).Intact ∧ (t.act twoUrls operation).Reloads) .new
      (found ++ [.addRelationship false "extracted_from" true, .deleteAnalysis true ()]) := by
  apply references_intact twoUrls
  refine ⟨⟨nofun, ?_⟩, fun _ => nofun, ⟨nofun, ?_⟩, fun _ => by decide, fun _ => ⟨by decide, ?_⟩,
    trivial⟩
  · rintro target (hnone | hnone | hnone) <;> cases hnone
  · rintro target (hnone | hnone | hnone) <;> cases hnone
  · intro x _ target hrefers
    -- the url of the root is the only one that anything refers to
    obtain rfl : target = true := by
      cases x <;> rcases hrefers with hrelationship | hnone | hnone
      · exact mem_singleton.mp hrelationship
      · cases hnone
      · cases hnone
      · cases hrelationship
      · cases hnone
      · cases hnone
    refine ⟨(· = true), rfl, ?_, ?_⟩
    · rintro _ rfl
      decide
    · rintro _ rfl
      exact .inl (.inl (by decide))

end Examples

end AnalysisTree

end Ace3.Analysis
