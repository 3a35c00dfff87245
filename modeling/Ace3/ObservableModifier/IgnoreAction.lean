import Ace3.ObservableModifier.TreeCondition

/-!
# Surgical Ignore

The `ignore` action of a rule (`_apply_ignore` in `saq/modules/util/observable_modifier.py`): the
observable is taken from parent analyses, and marked when no parent analysis is left.
-/

set_option linter.unusedSectionVars false

namespace Ace3.ObservableModifier

open List Function
open Analysis Lib Lib.Json

variable {ι κ : Type*} [DecidableEq ι] [DecidableEq κ]

/-! ## §1 The action -/

structure MarkedTree (ι κ : Type*) where
  tree : AnalysisTree ι κ
  ignored : ι → Bool

namespace Scene

variable (s : Scene ι κ)

/-- `observable in a._observables`. -/
def lists (t : AnalysisTree ι κ) (a : Option κ) (o : ι) : Bool :=
  (t.childrenOf a).any (s.objects.equal · o)

def parentAnalyses (t : AnalysisTree ι κ) (o : ι) : List (Option κ) :=
  (allAnalysis t).filter (s.lists t · o)

/-- `_observables.remove(observable)`, which removes the first one that equals it. -/
def removeChild (t : AnalysisTree ι κ) (a : Option κ) (o : ι) : AnalysisTree ι κ :=
  match a with
  | none => { t with rootObservables := t.rootObservables.eraseP (s.objects.equal · o) }
  | some a =>
    { t with
      observables :=
        Function.update t.observables a ((t.observables a).eraseP (s.objects.equal · o)) }

def Hit (tc : TreeCondition) (a : Option κ) : Prop :=
  tc.analysisType ≠ "" ∧ s.modulePath a = tc.analysisType

instance (tc : TreeCondition) (a : Option κ) : Decidable (s.Hit tc a) :=
  inferInstanceAs (Decidable (_ ∧ _))

/-- One turn of the inner loop: the tree, and the parent analyses that are left. -/
def ignoreStep (o : ι) (tc : TreeCondition) (state : AnalysisTree ι κ × List (Option κ))
    (parent : Option κ) : AnalysisTree ι κ × List (Option κ) :=
  if s.Hit tc parent then
    (if s.lists state.1 parent o then s.removeChild state.1 parent o else state.1,
      state.2.erase parent)
  else state

/-- The loops over the parent-scoped conditions, and over a copy of what is left. -/
def ignoreLoop (o : ι) (conditions : List TreeCondition)
    (state : AnalysisTree ι κ × List (Option κ)) : AnalysisTree ι κ × List (Option κ) :=
  conditions.foldl (fun state tc => state.2.foldl (s.ignoreStep o tc) state) state

/-- `observable.ignored = True`. -/
def markIgnored (ignored : ι → Bool) (o : ι) : ι → Bool := Function.update ignored o true

def parentScoped (conditions : List TreeCondition) : List TreeCondition :=
  conditions.filter (·.scope = .parent)

def applyIgnore (conditions : List TreeCondition) (o : ι) (marked : MarkedTree ι κ) :
    MarkedTree ι κ :=
  if parentScoped conditions = [] then { marked with ignored := markIgnored marked.ignored o }
  else
    let (tree, remaining) :=
      s.ignoreLoop o (parentScoped conditions) (marked.tree, s.parentAnalyses marked.tree o)
    { tree, ignored := if remaining = [] then markIgnored marked.ignored o else marked.ignored }

/-! ## §2 The loops -/

/-- The tree after some analyses have lost the observable. -/
structure Loses (s : Scene ι κ) (o : ι) (t t' : AnalysisTree ι κ) (lost : Option κ → Prop) :
    Prop where
  store : t'.store = t.store
  slots : t'.slots = t.slots
  gone : ∀ a, lost a → t'.childrenOf a = (t.childrenOf a).eraseP (s.objects.equal · o)
  kept : ∀ a, ¬ lost a → t'.childrenOf a = t.childrenOf a

variable {s} {t t' t'' : AnalysisTree ι κ} {o : ι} {a : Option κ} {tc : TreeCondition}
  {conditions : List TreeCondition} {remaining : List (Option κ)} {lost lost' : Option κ → Prop}

theorem Loses.refl (s : Scene ι κ) (o : ι) (t : AnalysisTree ι κ) :
    s.Loses o t t fun _ => False :=
  ⟨rfl, rfl, fun _ h => h.elim, fun _ _ => rfl⟩

theorem Loses.trans (h : s.Loses o t t' lost) (h' : s.Loses o t' t'' lost')
    (hdisjoint : ∀ a, lost a → ¬ lost' a) : s.Loses o t t'' fun a => lost a ∨ lost' a where
  store := h'.store.trans h.store
  slots := h'.slots.trans h.slots
  gone a ha := by
    rcases ha with ha | ha
    · rw [h'.kept a (hdisjoint a ha), h.gone a ha]
    · rw [h'.gone a ha, h.kept a fun hlost => hdisjoint a hlost ha]
  kept a ha := by
    rw [h'.kept a fun hlost => ha (.inr hlost), h.kept a fun hlost => ha (.inl hlost)]

theorem Loses.congr (h : s.Loses o t t' lost) (heq : ∀ a, lost' a ↔ lost a) :
    s.Loses o t t' lost' :=
  ⟨h.store, h.slots, fun a ha => h.gone a ((heq a).mp ha), fun a ha => h.kept a fun hlost =>
    ha ((heq a).mpr hlost)⟩

theorem Loses.allAnalysis_eq (h : s.Loses o t t' lost) : allAnalysis t' = allAnalysis t := by
  unfold allAnalysis AnalysisTree.allNonRootAnalysis AnalysisTree.analysesOf
  rw [h.store, h.slots]

theorem loses_removeChild (s : Scene ι κ) (t : AnalysisTree ι κ) (parent : Option κ) (o : ι) :
    s.Loses o t (s.removeChild t parent o) (· = parent) := by
  cases parent with
  | none =>
    refine ⟨rfl, rfl, ?_, ?_⟩
    · rintro _ rfl
      rfl
    · intro a ha
      cases a with
      | none => exact absurd rfl ha
      | some a => rfl
  | some parent =>
    refine ⟨rfl, rfl, ?_, ?_⟩
    · rintro _ rfl
      exact update_self ..
    · intro a ha
      cases a with
      | none => rfl
      | some a => exact update_of_ne (fun h => ha (congrArg some h)) ..

theorem foldl_ignoreStep (s : Scene ι κ) (o : ι) (tc : TreeCondition) (t : AnalysisTree ι κ)
    (before parents : List (Option κ)) (hnodup : (before ++ parents).Nodup)
    (hlisted : ∀ a ∈ parents, s.lists t a o = true) :
    ∃ t', parents.foldl (s.ignoreStep o tc) (t, before ++ parents) =
        (t', before ++ parents.filter (¬ s.Hit tc ·)) ∧
      s.Loses o t t' fun a => a ∈ parents ∧ s.Hit tc a := by
  induction parents generalizing t before with
  | nil => exact ⟨t, rfl, (Loses.refl s o t).congr (by simp)⟩
  | cons parent parents ih =>
    obtain ⟨hparent, hrest⟩ := forall_mem_cons.mp hlisted
    have hnew : parent ∉ before ∧ parent ∉ parents := by
      rw [nodup_append, nodup_cons] at hnodup
      exact ⟨fun h => hnodup.2.2 parent h parent mem_cons_self rfl, hnodup.2.1.1⟩
    rw [foldl_cons]
    by_cases hhit : s.Hit tc parent
    · have herase : (before ++ parent :: parents).erase parent = before ++ parents := by
        rw [erase_append_right _ hnew.1, erase_cons_head]
      have hstep : s.ignoreStep o tc (t, before ++ parent :: parents) parent =
          (s.removeChild t parent o, before ++ parents) := by
        rw [ignoreStep, if_pos hhit, if_pos hparent, herase]
      have hloses := s.loses_removeChild t parent o
      have hlisted' : ∀ a ∈ parents, s.lists (s.removeChild t parent o) a o = true := by
        intro a ha
        have hne : a ≠ parent := fun h => hnew.2 (h ▸ ha)
        simpa only [lists, hloses.kept a hne] using hrest a ha
      obtain ⟨t', heq, hloses'⟩ := ih (s.removeChild t parent o) before
        (hnodup.sublist ((sublist_cons_self parent parents).append_left before))
        hlisted'
      refine ⟨t', ?_, (hloses.trans hloses' ?_).congr ?_⟩
      · rw [hstep, heq]
        simp [hhit]
      · rintro a rfl ⟨ha, -⟩
        exact hnew.2 ha
      · intro a
        rw [mem_cons]
        constructor
        · rintro ⟨rfl | ha, h⟩
          · exact .inl rfl
          · exact .inr ⟨ha, h⟩
        · rintro (rfl | ⟨ha, h⟩)
          · exact ⟨.inl rfl, hhit⟩
          · exact ⟨.inr ha, h⟩
    · have hstep : s.ignoreStep o tc (t, before ++ parent :: parents) parent =
          (t, (before ++ [parent]) ++ parents) := by
        rw [ignoreStep, if_neg hhit, append_assoc, singleton_append]
      obtain ⟨t', heq, hloses⟩ := ih t (before ++ [parent]) (by simpa using hnodup) hrest
      refine ⟨t', ?_, hloses.congr fun a => ?_⟩
      · rw [hstep, heq]
        simp [hhit]
      · rw [mem_cons]
        constructor
        · rintro ⟨rfl | ha, h⟩
          · exact absurd h hhit
          · exact ⟨ha, h⟩
        · rintro ⟨ha, h⟩
          exact ⟨.inr ha, h⟩

theorem foldl_ignoreStep_of_not_hit (state : AnalysisTree ι κ × List (Option κ))
    (h : ∀ a ∈ remaining, ¬ s.Hit tc a) :
    remaining.foldl (s.ignoreStep o tc) state = state := by
  induction remaining with
  | nil => rfl
  | cons parent remaining ih =>
    obtain ⟨hparent, hrest⟩ := forall_mem_cons.mp h
    rw [foldl_cons, ignoreStep, if_neg hparent]
    exact ih hrest

def Targeted (s : Scene ι κ) (conditions : List TreeCondition) (a : Option κ) : Prop :=
  ∃ tc ∈ conditions, s.Hit tc a

instance (conditions : List TreeCondition) (a : Option κ) : Decidable (s.Targeted conditions a) :=
  inferInstanceAs (Decidable (∃ tc ∈ conditions, s.Hit tc a))

theorem targeted_cons : s.Targeted (tc :: conditions) a ↔ s.Hit tc a ∨ s.Targeted conditions a := by
  simp [Targeted]

theorem ignoreLoop_spec (s : Scene ι κ) (o : ι) (conditions : List TreeCondition)
    (t : AnalysisTree ι κ) (remaining : List (Option κ)) (hnodup : remaining.Nodup)
    (hlisted : ∀ a ∈ remaining, s.lists t a o = true) :
    ∃ t', s.ignoreLoop o conditions (t, remaining) =
        (t', remaining.filter (¬ s.Targeted conditions ·)) ∧
      s.Loses o t t' fun a => a ∈ remaining ∧ s.Targeted conditions a := by
  induction conditions generalizing t remaining with
  | nil =>
    refine ⟨t, ?_, (Loses.refl s o t).congr (by simp [Targeted])⟩
    simp [ignoreLoop, Targeted]
  | cons tc conditions ih =>
    obtain ⟨t₁, heq₁, hloses₁⟩ := s.foldl_ignoreStep o tc t [] remaining hnodup hlisted
    have hlisted₁ : ∀ a ∈ remaining.filter (¬ s.Hit tc ·), s.lists t₁ a o = true := by
      intro a ha
      obtain ⟨ha, hnot⟩ := mem_filter.mp ha
      have hkept := hloses₁.kept a fun h => of_decide_eq_true hnot h.2
      simpa only [lists, hkept] using hlisted a ha
    obtain ⟨t₂, heq₂, hloses₂⟩ := ih t₁ _ (hnodup.filter _) hlisted₁
    refine ⟨t₂, ?_, (hloses₁.trans hloses₂ ?_).congr fun a => ?_⟩
    · rw [ignoreLoop, foldl_cons]
      simp only [nil_append] at heq₁
      rw [heq₁]
      refine heq₂.trans (congrArg _ ?_)
      rw [filter_filter]
      apply filter_congr
      intro a _
      simp [targeted_cons, not_or, Bool.and_comm]
    · rintro a ⟨-, hhit⟩ ⟨ha, -⟩
      exact of_decide_eq_true (mem_filter.mp ha).2 hhit
    · rw [targeted_cons, mem_filter, decide_eq_true_eq]
      tauto

theorem ignoreLoop_of_not_targeted (state : AnalysisTree ι κ × List (Option κ))
    (h : ∀ a ∈ state.2, ¬ s.Targeted conditions a) : s.ignoreLoop o conditions state = state := by
  induction conditions with
  | nil => rfl
  | cons tc conditions ih =>
    rw [ignoreLoop, foldl_cons, foldl_ignoreStep_of_not_hit state fun a ha hhit =>
      h a ha (targeted_cons.mpr (.inl hhit))]
    exact ih fun a ha htargeted => h a ha (targeted_cons.mpr (.inr htargeted))

/-! ## §3 The action as a whole -/

/-- Each analysis is in the tree once, and lists the observable once at most, as `add_observable`
sees to. -/
structure Tidy (s : Scene ι κ) (t : AnalysisTree ι κ) (o : ι) : Prop where
  nodup : (allAnalysis t).Nodup
  once : ∀ a, (t.childrenOf a).countP (s.objects.equal · o) ≤ 1

theorem eraseP_eq_filter {α : Type*} {p : α → Bool} {l : List α} (h : l.countP p ≤ 1) :
    l.eraseP p = l.filter (! p ·) := by
  induction l with
  | nil => rfl
  | cons a l ih =>
    cases hpa : p a with
    | true =>
      rw [countP_cons_of_pos hpa] at h
      have hnone : ∀ b ∈ l, ¬ p b = true := countP_eq_zero.mp (by omega)
      rw [eraseP_cons_of_pos hpa, filter_cons_of_neg (by simp [hpa])]
      exact (filter_eq_self.mpr fun b hb => by simpa using hnone b hb).symm
    | false =>
      rw [countP_cons_of_neg (by simp [hpa])] at h
      rw [eraseP_cons_of_neg (by simp [hpa]), filter_cons_of_pos (by simp [hpa]), ih h]

theorem lists_filter {l : List ι} : (l.filter (! s.objects.equal · o)).any (s.objects.equal · o) =
    false := by
  simp [any_eq_false]

theorem Loses.parentAnalyses_eq (htidy : s.Tidy t o) (h : s.Loses o t t' lost)
    (hlost : ∀ a, Decidable (lost a)) :
    s.parentAnalyses t' o = (s.parentAnalyses t o).filter fun a => ¬ lost a := by
  rw [parentAnalyses, parentAnalyses, h.allAnalysis_eq, filter_filter]
  apply filter_congr
  intro a _
  by_cases ha : lost a
  · simp only [lists, h.gone a ha, eraseP_eq_filter (htidy.once a), lists_filter, ha, not_true,
      decide_false, Bool.false_and]
  · simp only [lists, h.kept a ha, ha, not_false_eq_true, decide_true, Bool.true_and]

/-- What the action does: the parent analyses that are targeted lose the observable, which is marked
when no parent analysis is left; and the action has nothing left to do. -/
theorem applyIgnore_spec (s : Scene ι κ) (conditions : List TreeCondition) (o : ι)
    (marked : MarkedTree ι κ) (htidy : s.Tidy marked.tree o)
    (hscoped : parentScoped conditions ≠ []) :
    s.Loses o marked.tree (s.applyIgnore conditions o marked).tree (fun a =>
        a ∈ s.parentAnalyses marked.tree o ∧ s.Targeted (parentScoped conditions) a) ∧
      (∀ o', (s.applyIgnore conditions o marked).ignored o' = (marked.ignored o' ||
        (o' = o && (s.parentAnalyses (s.applyIgnore conditions o marked).tree o).isEmpty))) ∧
      s.applyIgnore conditions o (s.applyIgnore conditions o marked) =
        s.applyIgnore conditions o marked := by
  obtain ⟨t', heq, hloses⟩ := s.ignoreLoop_spec o (parentScoped conditions) marked.tree
    (s.parentAnalyses marked.tree o) (htidy.nodup.filter _) fun a ha => (mem_filter.mp ha).2
  have happly : s.applyIgnore conditions o marked =
      { tree := t'
        ignored := if (s.parentAnalyses marked.tree o).filter
            (¬ s.Targeted (parentScoped conditions) ·) = []
          then markIgnored marked.ignored o else marked.ignored } := by
    simp only [applyIgnore, if_neg hscoped, heq]
  have hparents : s.parentAnalyses t' o =
      (s.parentAnalyses marked.tree o).filter (¬ s.Targeted (parentScoped conditions) ·) := by
    rw [hloses.parentAnalyses_eq htidy fun _ => inferInstance]
    apply filter_congr
    intro a ha
    simp [ha]
  rw [happly]
  refine ⟨hloses, fun o' => ?_, ?_⟩
  · show (if _ = [] then _ else _ : ι → Bool) o' = _
    rw [hparents]
    split
    · next hempty =>
      rw [hempty]
      by_cases ho : o' = o
      · subst ho
        simp [markIgnored]
      · simp [markIgnored, ho]
    · next hnonempty =>
      have hleft : ((s.parentAnalyses marked.tree o).filter
          (¬ s.Targeted (parentScoped conditions) ·)).isEmpty = false :=
        Bool.eq_false_iff.mpr fun h => hnonempty (List.isEmpty_iff.mp h)
      rw [hleft, Bool.and_false, Bool.or_false]
  · have hidle : s.ignoreLoop o (parentScoped conditions) (t', s.parentAnalyses t' o) =
        (t', s.parentAnalyses t' o) := by
      apply ignoreLoop_of_not_targeted
      intro a ha
      rw [hparents] at ha
      exact of_decide_eq_true (mem_filter.mp ha).2
    simp only [applyIgnore, if_neg hscoped, hidle]
    rw [hparents]
    split
    · simp only [markIgnored, update_idem]
    · rfl

/-! ## §4 What the conditions say -/

/-- A single analysis satisfies a condition: it passes the checks, or it does not if the condition
is negated. -/
def satisfies (s : Scene ι κ) (t : AnalysisTree ι κ) (tc : TreeCondition) (a : Option κ) : Bool :=
  if tc.negate then !tc.matchesAnalysis s t a else tc.matchesAnalysis s t a

def Condemned (s : Scene ι κ) (t : AnalysisTree ι κ) (conditions : List TreeCondition)
    (a : Option κ) : Prop :=
  ∃ tc ∈ parentScoped conditions, s.satisfies t tc a = true

/-- The observable is detached from the parent analyses that satisfy a parent-scoped condition, and
from no others; it is marked when no parent analysis is left; and the action changes nothing when
it runs again. -/
structure SurgicallyIgnored (s : Scene ι κ) (conditions : List TreeCondition) (o : ι)
    (marked after : MarkedTree ι κ) : Prop where
  detached : ∀ a ∈ s.parentAnalyses marked.tree o, s.Condemned marked.tree conditions a →
    after.tree.childrenOf a = (marked.tree.childrenOf a).filter (! s.objects.equal · o)
  kept : ∀ a, ¬ (a ∈ s.parentAnalyses marked.tree o ∧ s.Condemned marked.tree conditions a) →
    after.tree.childrenOf a = marked.tree.childrenOf a
  ignored : ∀ o', after.ignored o' =
    (marked.ignored o' || (o' = o && (s.parentAnalyses after.tree o).isEmpty))
  again : s.applyIgnore conditions o after = after

theorem filter_ne_of_lists (h : s.lists t a o = true) :
    (t.childrenOf a).filter (! s.objects.equal · o) ≠ t.childrenOf a := by
  intro heq
  rw [lists, ← heq, lists_filter] at h
  cases h

/-- **Surgical ignore** does what the conditions of the rule say exactly when, among the parent
analyses, those whose module path is the type of a parent-scoped condition are those that satisfy
one. -/
theorem surgically_ignored_iff (s : Scene ι κ) (conditions : List TreeCondition) (o : ι)
    (marked : MarkedTree ι κ) (htidy : s.Tidy marked.tree o)
    (hscoped : parentScoped conditions ≠ []) :
    s.SurgicallyIgnored conditions o marked (s.applyIgnore conditions o marked) ↔
      ∀ a ∈ s.parentAnalyses marked.tree o,
        (s.Targeted (parentScoped conditions) a ↔ s.Condemned marked.tree conditions a) := by
  obtain ⟨hloses, hignored, hagain⟩ := s.applyIgnore_spec conditions o marked htidy hscoped
  constructor
  · intro h a ha
    have hlists : s.lists marked.tree a o = true := (mem_filter.mp ha).2
    constructor
    · intro htargeted
      by_contra hnot
      have hsame := h.kept a fun hcondemned => hnot hcondemned.2
      rw [hloses.gone a ⟨ha, htargeted⟩, eraseP_eq_filter (htidy.once a)] at hsame
      exact filter_ne_of_lists hlists hsame
    · intro hcondemned
      by_contra hnot
      have hdetached := h.detached a ha hcondemned
      rw [hloses.kept a fun htargeted => hnot htargeted.2] at hdetached
      exact filter_ne_of_lists hlists hdetached.symm
  · intro h
    refine ⟨fun a ha hcondemned => ?_, fun a hnot => ?_, hignored, hagain⟩
    · rw [hloses.gone a ⟨ha, (h a ha).mpr hcondemned⟩, eraseP_eq_filter (htidy.once a)]
    · exact hloses.kept a fun ⟨ha, htargeted⟩ => hnot ⟨ha, (h a ha).mp htargeted⟩

end Scene

/-! ## §5 Two emails -/

section Examples

open AnalysisTree Scene

def twoEmails : AnalysisTree Nat Nat :=
  { (AnalysisTree.new : AnalysisTree Nat Nat) with
    store := [0, 1, 2]
    rootObservables := [0, 1]
    slots := fun o => if o < 2 then [(⟨"saq.modules.email.rfc822:EmailAnalysis", none⟩, some o)]
      else []
    observables := fun _ => [2] }

/-- The first email is from an outside address, the second from an inside one. -/
def emailScene : Scene Nat Nat where
  objects :=
    { type := fun o => if o < 2 then "email" else "email_address"
      value := fun o => some (if o = 2 then "bob@example.com" else toString o)
      time := fun _ => none
      filePath := fun _ => none
      compareKey := fun _ value => value
      observableLimits := fun _ => none
      modulePath := fun _ => ⟨"saq.modules.email.rfc822:EmailAnalysis", none⟩ }
  observableOf a := a
  modulePath a :=
    if a.isSome then "saq.modules.email.rfc822:EmailAnalysis" else "saq.analysis.root:RootAnalysis"
  details a :=
    .dict [("from", .str (if a = some 0 then "soc@third-party.com" else "alice@example.com"))]
  getattr _ _ := none
  isSubtype type supertype := type = supertype
  quote := Value.plainQuote

def fromOutside : TreeCondition where
  analysisType := "saq.modules.email.rfc822:EmailAnalysis"
  scope := .parent
  detailsMatch := [("from", (· == "soc@third-party.com"))]
  observableMatch := []
  producesObservableType := none
  producesObservableValue := none
  negate := false
  matchCount := none

/-- The rule matches, and the recipient is also detached from the email from inside. -/
theorem both_emails_lose_recipient :
    fromOutside.evaluate emailScene twoEmails none 0 2 = some true ∧
      ¬ emailScene.SurgicallyIgnored [fromOutside] 2 ⟨twoEmails, fun _ => false⟩
        (emailScene.applyIgnore [fromOutside] 2 ⟨twoEmails, fun _ => false⟩) := by
  refine ⟨by decide, fun h => ?_⟩
  have hcondemned : ¬ emailScene.Condemned twoEmails [fromOutside] (some 1) := by
    rintro ⟨tc, htc, hsatisfies⟩
    obtain rfl : tc = fromOutside := by simpa [parentScoped, fromOutside] using htc
    exact absurd hsatisfies (by decide)
  have hkept := h.kept (some 1) fun hboth => hcondemned hboth.2
  exact absurd hkept (by decide)

/-- A condition on the type only: the recipient is detached from both emails. -/
theorem both_emails_surgically_ignored :
    emailScene.SurgicallyIgnored [{ fromOutside with detailsMatch := [] }] 2
      ⟨twoEmails, fun _ => false⟩
      (emailScene.applyIgnore [{ fromOutside with detailsMatch := [] }] 2
        ⟨twoEmails, fun _ => false⟩) := by
  have htidy : emailScene.Tidy twoEmails 2 := by
    refine ⟨by decide, fun a => ?_⟩
    cases a with
    | none => decide
    | some a => exact Nat.le_refl 1
  refine (surgically_ignored_iff emailScene _ 2 ⟨twoEmails, fun _ => false⟩ htidy (by decide)).mpr ?_
  intro a ha
  have hparents : a = some 0 ∨ a = some 1 := by simpa using (show a ∈ [some 0, some 1] from ha)
  rcases hparents with rfl | rfl <;>
    exact ⟨fun _ => ⟨_, mem_singleton_self _, by decide⟩,
      fun _ => ⟨_, mem_singleton_self _, by decide, by decide⟩⟩

end Examples

end Ace3.ObservableModifier
