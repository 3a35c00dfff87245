import Ace3.ObservableModifier.TreeCondition
import Mathlib.Data.Set.Card

/-!
# Scopes of Tree Conditions

The walks through the tree come to an end, whatever cycles and shared observables it has, and yield
each analysis of their scope once, so that a condition with a `match_count` counts analyses.
-/

set_option linter.unusedSectionVars false

namespace Ace3.ObservableModifier

open List
open Relation Analysis Lib Lib.Json

variable {ι κ : Type*} [DecidableEq ι] [DecidableEq κ]

namespace Scene

/-! ## §1 Scopes -/

/-- The analyses above an observable: its parents, and the parents of their observables. -/
inductive Ancestor (s : Scene ι κ) (t : AnalysisTree ι κ) (o : ι) : Option κ → Prop
  | parent {a : Option κ} (h : a ∈ s.parents t o) : Ancestor s t o a
  | above {a b : Option κ} (h : Ancestor s t o a) (hb : b ∈ s.parentsAbove t a) : Ancestor s t o b

def Sibling (s : Scene ι κ) (t : AnalysisTree ι κ) (o : ι) (a : κ) : Prop :=
  ∃ parent ∈ s.parents t o, ∃ o', s.observable? parent = some o' ∧ a ∈ t.analysesOf o'

def Descendant (t : AnalysisTree ι κ) (o : ι) (a : κ) : Prop :=
  ∃ o', TransGen t.Leads o o' ∧ a ∈ t.analysesOf o'

def InScope (s : Scene ι κ) (t : AnalysisTree ι κ) (o : ι) : Scope → Option κ → Prop
  | .ancestors, a => s.Ancestor t o a
  | .descendants, a => ∃ a', a = some a' ∧ Descendant t o a'
  | .parent, a => a ∈ s.parents t o
  | .siblings, a => ∃ a', a = some a' ∧ s.Sibling t o a'
  | .self, a => ∃ a', a = some a' ∧ a' ∈ t.analysesOf o
  | .global, a => a ∈ allAnalysis t

def Attached (s : Scene ι κ) (t : AnalysisTree ι κ) : Prop :=
  ∀ o ∈ t.store, ∀ a ∈ t.analysesOf o, s.observableOf a = o

variable {s : Scene ι κ} {t : AnalysisTree ι κ} {o o' : ι} {a b : κ} {steps : Nat}

theorem mem_allAnalysis_some : some a ∈ allAnalysis t ↔ a ∈ t.allNonRootAnalysis := by
  simp [allAnalysis]

theorem parents_subset (s : Scene ι κ) (t : AnalysisTree ι κ) (o : ι) :
    s.parents t o ⊆ allAnalysis t :=
  fun _ ha => mem_of_mem_filter ha

/-! ## §2 Ancestors -/

theorem parentsAbove_subset (s : Scene ι κ) (t : AnalysisTree ι κ) (a : Option κ) :
    s.parentsAbove t a ⊆ allAnalysis t := by
  unfold parentsAbove
  split
  · exact nil_subset _
  · exact s.parents_subset t _

theorem ancestor_iff {a : Option κ} : s.Ancestor t o a ↔
    ∃ p ∈ (s.parents t o).reverse, ReflTransGen (StackWalk.Edge (s.parentsAbove t)) p a := by
  simp only [mem_reverse]
  constructor
  · intro h
    induction h with
    | parent h => exact ⟨_, h, .refl⟩
    | above _ hb ih =>
      obtain ⟨p, hp, hpa⟩ := ih
      exact ⟨p, hp, hpa.tail hb⟩
  · rintro ⟨p, hp, hpa⟩
    induction hpa with
    | refl => exact .parent hp
    | tail _ hb ih => exact .above ih hb

theorem ancestorAnalyses_spec (s : Scene ι κ) (t : AnalysisTree ι κ) (o : ι) :
    ∃ bound, ∀ steps, bound ≤ steps → ∃ out, s.ancestorAnalyses t steps o = some out ∧ out.Nodup ∧
      ∀ a, a ∈ out ↔ s.Ancestor t o a := by
  refine ⟨StackWalk.budget (s.parentsAbove t) (allAnalysis t) [] (s.parents t o).reverse + 1,
    fun steps hsteps => ?_⟩
  have hstack : (s.parents t o).reverse ⊆ allAnalysis t := fun a ha =>
    s.parents_subset t o (mem_reverse.mp ha)
  obtain ⟨out, hout⟩ := StackWalk.exists_walk (fun a _ => s.parentsAbove_subset t a) hstack hsteps
  obtain ⟨hnodup, hmem⟩ := StackWalk.walk_spec hout
  exact ⟨out, hout, hnodup, fun a => (hmem a).trans ancestor_iff.symm⟩

theorem Ancestor.mem_allAnalysis {a : Option κ} (h : s.Ancestor t o a) : a ∈ allAnalysis t := by
  cases h with
  | parent h => exact s.parents_subset t o h
  | above _ hb => exact s.parentsAbove_subset t _ hb

/-! ## §3 Siblings -/

/-- The loop over the parents yields the analyses of their observables. An observable is skipped
only when its analyses were yielded. -/
theorem foldl_siblingStep (s : Scene ι κ) (t : AnalysisTree ι κ) (parents : List (Option κ))
    (state : List ι × List κ) (hnodup : state.2.Nodup)
    (hvisited : ∀ o ∈ state.1, ∀ a ∈ t.analysesOf o, a ∈ state.2) :
    (parents.foldl (s.siblingStep t) state).2.Nodup ∧
      ∀ a, a ∈ (parents.foldl (s.siblingStep t) state).2 ↔ a ∈ state.2 ∨
        ∃ parent ∈ parents, ∃ o, s.observable? parent = some o ∧ a ∈ t.analysesOf o := by
  induction parents generalizing state with
  | nil => exact ⟨hnodup, by simp⟩
  | cons parent parents ih =>
    simp only [foldl_cons, mem_cons, exists_eq_or_imp]
    cases hobservable : s.observable? parent with
    | none =>
      have hstep : s.siblingStep t state parent = state := by simp only [siblingStep, hobservable]
      rw [hstep]
      simpa using ih state hnodup hvisited
    | some o =>
      simp only [Option.some.injEq, exists_eq_left']
      by_cases ho : o ∈ state.1
      · have hstep : s.siblingStep t state parent = state := by
          simp only [siblingStep, hobservable, if_pos ho]
        rw [hstep]
        obtain ⟨hnodup', hmem⟩ := ih state hnodup hvisited
        refine ⟨hnodup', fun a => (hmem a).trans ?_⟩
        constructor
        · exact fun h => h.imp_right .inr
        · rintro (h | h | h)
          · exact .inl h
          · exact .inl (hvisited o ho a h)
          · exact .inr h
      · have hstep : s.siblingStep t state parent =
            (state.1 ++ [o], (t.analysesOf o).foldl addNew state.2) := by
          simp only [siblingStep, hobservable, if_neg ho]
        rw [hstep]
        obtain ⟨hnodup', hmem⟩ := ih (state.1 ++ [o], (t.analysesOf o).foldl addNew state.2)
          (nodup_foldl_addNew _ hnodup) fun o' ho' a ha => by
            rw [mem_foldl_addNew]
            rcases mem_append.mp ho' with ho' | ho'
            · exact .inl (hvisited o' ho' a ha)
            · exact .inr (mem_singleton.mp ho' ▸ ha)
        refine ⟨hnodup', fun a => (hmem a).trans ?_⟩
        rw [mem_foldl_addNew, or_assoc]

theorem siblingAnalyses_spec (s : Scene ι κ) (t : AnalysisTree ι κ) (o : ι) :
    (s.siblingAnalyses t o).Nodup ∧ ∀ a, a ∈ s.siblingAnalyses t o ↔ s.Sibling t o a := by
  obtain ⟨hnodup, hmem⟩ := s.foldl_siblingStep t (s.parents t o) ([], []) nodup_nil nofun
  refine ⟨hnodup, fun a => (hmem a).trans ?_⟩
  simp [Sibling]

theorem Sibling.mem_allNonRootAnalysis (hattached : s.Attached t) (h : s.Sibling t o a) :
    a ∈ t.allNonRootAnalysis := by
  obtain ⟨parent, hparent, o', ho', ha⟩ := h
  cases parent with
  | none => cases ho'
  | some p =>
    obtain ⟨o₁, ho₁, hp⟩ := AnalysisTree.mem_allNonRootAnalysis.mp
      (mem_allAnalysis_some.mp (s.parents_subset t o hparent))
    obtain rfl : s.observableOf p = o' := Option.some.inj ho'
    rw [hattached o₁ ho₁ p hp] at ha
    exact AnalysisTree.mem_allNonRootAnalysis.mpr ⟨o₁, ho₁, ha⟩

/-! ## §4 Descendants -/

theorem mem_analysesBelow : b ∈ analysesBelow t a ↔ ∃ o ∈ t.observables a, b ∈ t.analysesOf o :=
  mem_flatMap

theorem edge_observablesBelow : StackWalk.Edge (observablesBelow t) o o' ↔ t.Leads o o' :=
  mem_flatMap

theorem reached_iff : (∃ a ∈ t.analysesOf o, ReflTransGen (StackWalk.Edge (analysesBelow t)) a b) ↔
    ∃ o', ReflTransGen t.Leads o o' ∧ b ∈ t.analysesOf o' := by
  constructor
  · rintro ⟨a, ha, hab⟩
    induction hab with
    | refl => exact ⟨o, .refl, ha⟩
    | tail _ hedge ih =>
      obtain ⟨o₁, hpath, hb⟩ := ih
      obtain ⟨o₂, hproduced, hc⟩ := mem_analysesBelow.mp hedge
      exact ⟨o₂, hpath.tail ⟨_, hb, hproduced⟩, hc⟩
  · rintro ⟨o', hpath, hb⟩
    induction hpath generalizing b with
    | refl => exact ⟨b, hb, .refl⟩
    | tail _ hleads ih =>
      obtain ⟨c, hc, hproduced⟩ := hleads
      obtain ⟨a, ha, hac⟩ := ih hc
      exact ⟨a, ha, hac.tail (mem_analysesBelow.mpr ⟨_, hproduced, hb⟩)⟩

theorem descendant_iff : Descendant t o b ↔
    ∃ a ∈ ((t.analysesOf o).flatMap (analysesBelow t)).reverse,
      ReflTransGen (StackWalk.Edge (analysesBelow t)) a b := by
  simp only [mem_reverse, mem_flatMap, mem_analysesBelow]
  constructor
  · rintro ⟨o', hpath, hb⟩
    obtain ⟨o₁, ⟨a, ha, hproduced⟩, hpath⟩ := TransGen.head'_iff.mp hpath
    obtain ⟨c, hc, hcb⟩ := reached_iff.mpr ⟨o', hpath, hb⟩
    exact ⟨c, ⟨a, ha, o₁, hproduced, hc⟩, hcb⟩
  · rintro ⟨c, ⟨a, ha, o₁, hproduced, hc⟩, hcb⟩
    obtain ⟨o', hpath, hb⟩ := reached_iff.mp ⟨c, hc, hcb⟩
    exact ⟨o', TransGen.head' ⟨a, ha, hproduced⟩ hpath, hb⟩

theorem Descendant.mem_allNonRootAnalysis (hclosed : t.Closed) (ho : o ∈ t.store)
    (h : Descendant t o a) : a ∈ t.allNonRootAnalysis := by
  obtain ⟨o', hpath, ha⟩ := h
  exact AnalysisTree.mem_allNonRootAnalysis.mpr
    ⟨o', hclosed.mem_of_path ho hpath.to_reflTransGen, ha⟩

theorem analysesBelow_subset (hclosed : t.Closed) (ha : a ∈ t.allNonRootAnalysis) :
    analysesBelow t a ⊆ t.allNonRootAnalysis := by
  intro b hb
  obtain ⟨o, ho, hb⟩ := mem_analysesBelow.mp hb
  exact AnalysisTree.mem_allNonRootAnalysis.mpr ⟨o, hclosed.analyses a ha o ho, hb⟩

theorem descendantAnalyses_spec (hclosed : t.Closed) (ho : o ∈ t.store) :
    ∃ bound, ∀ steps, bound ≤ steps → ∃ out, descendantAnalyses t steps o = some out ∧
      out.Nodup ∧ ∀ a, a ∈ out ↔ Descendant t o a := by
  refine ⟨StackWalk.budget (analysesBelow t) t.allNonRootAnalysis []
    ((t.analysesOf o).flatMap (analysesBelow t)).reverse + 1, fun steps hsteps => ?_⟩
  have hstack : ((t.analysesOf o).flatMap (analysesBelow t)).reverse ⊆ t.allNonRootAnalysis :=
    fun a ha => Descendant.mem_allNonRootAnalysis hclosed ho (descendant_iff.mpr ⟨a, ha, .refl⟩)
  obtain ⟨out, hout⟩ :=
    StackWalk.exists_walk (fun a ha => analysesBelow_subset hclosed ha) hstack hsteps
  obtain ⟨hnodup, hmem⟩ := StackWalk.walk_spec hout
  exact ⟨out, hout, hnodup, fun a => (hmem a).trans descendant_iff.symm⟩

theorem descendantObservables_spec (hclosed : t.Closed) (ho : o ∈ t.store) :
    ∃ bound, ∀ steps, bound ≤ steps → ∃ out, descendantObservables t steps o = some out ∧
      out.Nodup ∧ ∀ o', o' ∈ out ↔ TransGen t.Leads o o' := by
  have hbelow : ∀ o ∈ t.store, observablesBelow t o ⊆ t.store := fun o ho o' ho' =>
    hclosed.mem_of_leads ho (edge_observablesBelow.mp ho')
  refine ⟨StackWalk.budget (observablesBelow t) t.store [] (observablesBelow t o).reverse + 1,
    fun steps hsteps => ?_⟩
  obtain ⟨out, hout⟩ := StackWalk.exists_walk hbelow
    (fun o' ho' => hbelow o ho (mem_reverse.mp ho')) hsteps
  obtain ⟨hnodup, hmem⟩ := StackWalk.walk_spec hout
  refine ⟨out, hout, hnodup, fun o' => (hmem o').trans ?_⟩
  have hedge : StackWalk.Edge (observablesBelow t) = t.Leads := by
    funext o o'
    exact propext edge_observablesBelow
  simp only [mem_reverse, hedge, TransGen.head'_iff]
  exact exists_congr fun o₁ => and_congr_left' edge_observablesBelow

end Scene

/-! ## §5 Counting -/

theorem countP_eq_ncard {α : Type*} {l : List α} {p : α → Prop} (test : α → Bool)
    (hnodup : l.Nodup) (hmem : ∀ a, a ∈ l ↔ p a) :
    l.countP test = Set.ncard {a | p a ∧ test a = true} := by
  classical
  have hset : {a | p a ∧ test a = true} = ((l.filter test).toFinset : Set α) := by
    ext a
    simp [hmem]
  rw [hset, Set.ncard_coe_finset, toFinset_card_of_nodup (hnodup.filter _),
    countP_eq_length_filter]

namespace TreeCondition

open Scene

variable {tc : TreeCondition} {s : Scene ι κ} {t : AnalysisTree ι κ} {o : ι} {steps count : Nat}
  {typeIndex : Option (List String)}

def ScopeWalked (scope : Scope) : Prop :=
  scope = .ancestors ∨ scope = .siblings ∨ scope = .descendants

def Indexed (s : Scene ι κ) (t : AnalysisTree ι κ) (typeIndex : Option (List String)) : Prop :=
  ∀ types ∈ typeIndex, ∀ a ∈ allAnalysis t, s.modulePath a ∈ types

theorem InScope.mem_allAnalysis (hclosed : t.Closed) (hattached : s.Attached t) (ho : o ∈ t.store)
    {scope : Scope} (hscope : ScopeWalked scope) {a : Option κ} (h : s.InScope t o scope a) :
    a ∈ allAnalysis t := by
  rcases hscope with rfl | rfl | rfl
  · exact Ancestor.mem_allAnalysis h
  · obtain ⟨a', rfl, h⟩ := h
    exact mem_allAnalysis_some.mpr (h.mem_allNonRootAnalysis hattached)
  · obtain ⟨a', rfl, h⟩ := h
    exact mem_allAnalysis_some.mpr (h.mem_allNonRootAnalysis hclosed ho)

theorem analysesInScope_spec (hclosed : t.Closed) (ho : o ∈ t.store) {scope : Scope}
    (hscope : ScopeWalked scope) :
    ∃ bound, ∀ steps, bound ≤ steps → ∀ tc : TreeCondition, tc.scope = scope →
      ∃ out, tc.analysesInScope s t steps o = some out ∧ out.Nodup ∧
        ∀ a, a ∈ out ↔ s.InScope t o scope a := by
  have hsome : ∀ {l : List κ} {p : κ → Prop}, (∀ a, a ∈ l ↔ p a) →
      ∀ a, a ∈ l.map some ↔ ∃ a', a = some a' ∧ p a' := by
    intro l p h a
    simp only [mem_map, h]
    exact exists_congr fun a' => ⟨fun ⟨ha', heq⟩ => ⟨heq.symm, ha'⟩, fun ⟨heq, ha'⟩ => ⟨ha', heq.symm⟩⟩
  have hnodupSome : ∀ {l : List κ}, l.Nodup → (l.map some).Nodup := fun h =>
    h.map (Option.some_injective κ)
  rcases hscope with rfl | rfl | rfl
  · obtain ⟨bound, hbound⟩ := s.ancestorAnalyses_spec t o
    refine ⟨bound, fun steps hsteps tc htc => ?_⟩
    simp only [analysesInScope, htc]
    exact hbound steps hsteps
  · refine ⟨0, fun steps _ tc htc => ?_⟩
    simp only [analysesInScope, htc]
    obtain ⟨hnodup, hmem⟩ := s.siblingAnalyses_spec t o
    exact ⟨_, rfl, hnodupSome hnodup, hsome hmem⟩
  · obtain ⟨bound, hbound⟩ := descendantAnalyses_spec hclosed ho
    refine ⟨bound, fun steps hsteps tc htc => ?_⟩
    obtain ⟨out, hout, hnodup, hmem⟩ := hbound steps hsteps
    simp only [analysesInScope, htc, hout, Option.map_some]
    exact ⟨_, rfl, hnodupSome hnodup, hsome hmem⟩

noncomputable def matchesInScope (tc : TreeCondition) (s : Scene ι κ) (t : AnalysisTree ι κ)
    (o : ι) : Nat :=
  if tc.ofObservables then
    Set.ncard {below | TransGen t.Leads o below ∧ tc.checkObservable s (some below) = true}
  else Set.ncard {a | s.InScope t o tc.scope a ∧ tc.matchesAnalysis s t a = true}

theorem matchesInScope_of_absent (hclosed : t.Closed) (hattached : s.Attached t) (ho : o ∈ t.store)
    (hindex : Indexed s t typeIndex) (hscope : ScopeWalked tc.scope) (htype : tc.analysisType ≠ "")
    (habsent : typeIndex.any (tc.analysisType ∉ ·) = true) : tc.matchesInScope s t o = 0 := by
  cases typeIndex with
  | none => cases habsent
  | some types =>
  have hnot : tc.analysisType ∉ types := of_decide_eq_true habsent
  have hobservables : tc.ofObservables = false := by simp [ofObservables, htype]
  rw [matchesInScope, if_neg (by simp [hobservables])]
  have hempty : {a | s.InScope t o tc.scope a ∧ tc.matchesAnalysis s t a = true} = ∅ := by
    refine Set.eq_empty_iff_forall_notMem.mpr ?_
    rintro a ⟨hin, hmatches⟩
    have hpath : s.modulePath a = tc.analysisType := by
      simp only [matchesAnalysis, Bool.and_eq_true, Bool.or_eq_true, decide_eq_true_eq, htype,
        false_or] at hmatches
      exact hmatches.1.1.1
    have hmem : s.modulePath a ∈ types := hindex types rfl a
      (InScope.mem_allAnalysis hclosed hattached ho hscope hin)
    exact hnot (hpath ▸ hmem)
  rw [hempty, Set.ncard_empty]

/-- The walks from an observable end, and yield each analysis of their scope once and nothing else.
A condition with a `match_count` in one of these scopes holds, before it is negated, when that many
analyses in the scope match, or that many observables below if it is a condition on these. -/
structure CountedOnce (s : Scene ι κ) (t : AnalysisTree ι κ) (o : ι) (steps : Nat) : Prop where
  ancestors : ∃ out, s.ancestorAnalyses t steps o = some out ∧ out.Nodup ∧
    ∀ a, a ∈ out ↔ s.Ancestor t o a
  siblings : (s.siblingAnalyses t o).Nodup ∧ ∀ a, a ∈ s.siblingAnalyses t o ↔ s.Sibling t o a
  descendants : ∃ out, descendantAnalyses t steps o = some out ∧ out.Nodup ∧
    ∀ a, a ∈ out ↔ Descendant t o a
  counted : ∀ (tc : TreeCondition) (count : Nat) (typeIndex : Option (List String)),
    ScopeWalked tc.scope → tc.matchCount = some count → Indexed s t typeIndex →
    ∃ holds : Bool, (holds = true ↔ tc.matchesInScope s t o = count) ∧
      tc.evaluate s t typeIndex steps o = some (if tc.negate then !holds else holds)

/-- **Tree scopes count each analysis once**, whatever the shape of the tree. -/
theorem scopes_counted_once (hclosed : t.Closed) (hattached : s.Attached t) (ho : o ∈ t.store) :
    ∃ bound, ∀ steps, bound ≤ steps → CountedOnce s t o steps := by
  obtain ⟨bound₁, hancestors⟩ := s.ancestorAnalyses_spec t o
  obtain ⟨bound₂, hdescendants⟩ := descendantAnalyses_spec hclosed ho
  obtain ⟨bound₃, hobservables⟩ := descendantObservables_spec hclosed ho
  have hscopes : ∀ scope, ScopeWalked scope → _ := fun scope hscope =>
    analysesInScope_spec (s := s) hclosed ho hscope
  obtain ⟨bound₄, hup⟩ := hscopes .ancestors (.inl rfl)
  obtain ⟨bound₅, hsiblings⟩ := hscopes .siblings (.inr (.inl rfl))
  obtain ⟨bound₆, hdown⟩ := hscopes .descendants (.inr (.inr rfl))
  refine ⟨bound₁ + bound₂ + bound₃ + bound₄ + bound₅ + bound₆, fun steps hsteps =>
    ⟨hancestors steps (by omega), s.siblingAnalyses_spec t o, hdescendants steps (by omega), ?_⟩⟩
  intro tc count typeIndex hscope hcount hindex
  by_cases hgate : tc.analysisType ≠ "" ∧ typeIndex.any (tc.analysisType ∉ ·) = true
  · -- the gate answers without a walk
    refine ⟨decide (count = 0), ?_, ?_⟩
    · rw [matchesInScope_of_absent hclosed hattached ho hindex hscope hgate.1 hgate.2,
        decide_eq_true_eq]
      exact eq_comm
    · simp only [evaluate, evaluateInner, if_pos hgate, hcount, Option.map_some,
        Option.some.injEq]
  by_cases hof : tc.ofObservables = true
  · obtain ⟨out, hout, hnodup, hmem⟩ := hobservables steps (by omega)
    refine ⟨decide (out.countP (fun below => tc.checkObservable s (some below)) = count), ?_, ?_⟩
    · rw [decide_eq_true_eq, matchesInScope, if_pos hof, countP_eq_ncard _ hnodup hmem]
    · simp only [evaluate, evaluateInner, if_neg hgate, if_pos hof, hout, Option.map_some, outcome,
        hcount]
  · have hlisted : ∃ out, tc.analysesInScope s t steps o = some out ∧ out.Nodup ∧
        ∀ a, a ∈ out ↔ s.InScope t o tc.scope a := by
      rcases hscope with h | h | h
      · exact h ▸ hup steps (by omega) tc h
      · exact h ▸ hsiblings steps (by omega) tc h
      · exact h ▸ hdown steps (by omega) tc h
    obtain ⟨out, hout, hnodup, hmem⟩ := hlisted
    refine ⟨decide (out.countP (tc.matchesAnalysis s t) = count), ?_, ?_⟩
    · rw [decide_eq_true_eq, matchesInScope, if_neg hof, countP_eq_ncard _ hnodup hmem]
    · simp only [evaluate, evaluateInner, if_neg hgate, if_neg hof, hout, Option.map_some, outcome,
        hcount]

end TreeCondition

/-! ## §6 A condition on observables -/

section Examples

open TreeCondition AnalysisTree

def foundUrl : AnalysisTree Bool Unit :=
  { (AnalysisTree.new : AnalysisTree Bool Unit) with
    store := [true, false]
    rootObservables := [true]
    slots := fun o => if o then [(⟨"saq.modules.url:UrlAnalysis", none⟩, some ())] else []
    observables := fun _ => [false] }

def urlScene : Scene Bool Unit where
  objects := twoUrls
  observableOf _ := true
  modulePath a := if a.isSome then "saq.modules.url:UrlAnalysis" else "saq.analysis:RootAnalysis"
  details _ := .dict []
  getattr o name := if name = "value" then twoUrls.value o else none
  isSubtype type supertype := type = supertype
  quote := Value.plainQuote

/-- Exactly one observable below looks like the other url. -/
def oneBelow : TreeCondition where
  analysisType := ""
  scope := .descendants
  detailsMatch := []
  observableMatch := [("value", (· == "http://b/"))]
  producesObservableType := none
  producesObservableValue := none
  negate := false
  matchCount := some 1

/-- The condition holds, and there is no analysis below. -/
theorem observables_below_are_counted :
    ¬ (oneBelow.evaluate urlScene foundUrl none 4 true = some true ↔
      Set.ncard {a | urlScene.InScope foundUrl true oneBelow.scope a ∧
        oneBelow.matchesAnalysis urlScene foundUrl a = true} = 1) := by
  intro h
  have hnone : {a | urlScene.InScope foundUrl true oneBelow.scope a ∧
      oneBelow.matchesAnalysis urlScene foundUrl a = true} = ∅ := by
    refine Set.eq_empty_iff_forall_notMem.mpr ?_
    rintro _ ⟨⟨a, rfl, o', hpath, ha⟩, -⟩
    obtain ⟨o, -, b, -, ho'⟩ := TransGen.tail'_iff.mp hpath
    obtain rfl : o' = false := mem_singleton.mp ho'
    cases ha
  have hcard := h.mp (by decide)
  rw [hnone, Set.ncard_empty] at hcard
  cases hcard

/-- The walks from the url. -/
theorem foundUrl_counted_once :
    ∃ bound, ∀ steps, bound ≤ steps → CountedOnce urlScene foundUrl true steps := by
  apply scopes_counted_once
  · exact ⟨by decide, by decide⟩
  · unfold Scene.Attached
    decide
  · decide

end Examples

end Ace3.ObservableModifier
