import Ace3.Analysis.TreeRegistry
import Ace3.Lib.StableSort
import Ace3.Lib.Traversal

/-!
# Detection Paths

Whether something on the way from an object of the tree down to the root has a detection point
(`saq/analysis/search.py`, `saq/analysis/analysis_tree/analysis_tree_analytics.py`).
-/

namespace Ace3.Analysis

open List
open Relation Lib.Traversal Lib.StableSort

variable {ι κ : Type*} [DecidableEq ι] [DecidableEq κ]

/-! ## §1 Searching down to the root -/

/-- An `Analysis` or `Observable`. No analysis stands for the root. -/
inductive TreeNode (ι κ : Type*) where
  | observable (o : ι)
  | analysis (a : Option κ)
  deriving DecidableEq

/-- The `RootAnalysis`. -/
abbrev TreeNode.root : TreeNode ι κ := .analysis none

/-- `node == other`. Analyses are told by their uuids. -/
def TreeNode.equal (n : TreeObjects ι κ) : TreeNode ι κ → TreeNode ι κ → Bool
  | .observable o, .observable o' => n.equal o o'
  | .analysis a, .analysis a' => a = a'
  | _, _ => false

namespace AnalysisTree

variable (n : TreeObjects ι κ) (t : AnalysisTree ι κ)

def allAnalysis : List (Option κ) := none :: t.allNonRootAnalysis.map some

/-- What refers to an object, once for each reference: the analyses that list the observable, or
the observables that have the analysis. -/
def referrers : TreeNode ι κ → List (TreeNode ι κ)
  | .observable o => t.allAnalysis.flatMap fun a =>
      ((t.childrenOf a).filter fun child => n.equal o child).map fun _ => .analysis a
  | .analysis a => t.store.flatMap fun o =>
      ((t.analysesOf o).filter fun analysis => some analysis = a).map fun _ => .observable o

/-- `target in visited`, or the end is reached. -/
def stopsAt (visited : List (TreeNode ι κ)) (target : TreeNode ι κ) : Bool :=
  visited.any (target.equal n) || target = .root

/-- `recurse_down`: what the callback is called for, in this order. The recursion goes at most as
deep as there are objects. -/
def recurseDown (target : TreeNode ι κ) : Option (List (TreeNode ι κ)) :=
  (traverse (t.referrers n) (stopsAt n)
    (t.store.length + t.allNonRootAnalysis.length + 3) [] target).map (·.2)

/-- `search_down`: the first object for which the callback is true. -/
def searchDown (target : TreeNode ι κ) (callback : TreeNode ι κ → Bool) :
    Option (Option (TreeNode ι κ)) :=
  (t.recurseDown n target).map (·.find? callback)

/-- `is_on_detection_path`, where the objects are known that have detection points. -/
def isOnDetectionPath (hasDetectionPoints : TreeNode ι κ → Bool) (target : TreeNode ι κ) :
    Option Bool :=
  if hasDetectionPoints target then some true
  else
    (t.searchDown n target fun obj =>
      if obj = .root then false else hasDetectionPoints obj).map (·.isSome)

/-! ## §2 References -/

variable {n t} {o o' : ι} {a : Option κ} {node : TreeNode ι κ}

omit [DecidableEq κ] in
theorem equal_trans {o'' : ι} (h : n.equal o o' = true) (h' : n.equal o' o'' = true) :
    n.equal o o'' = true := by
  unfold TreeObjects.equal at h h' ⊢
  by_cases hfile : n.type o = fFile
  · rw [if_pos hfile] at h
    obtain ⟨hfile', hvalue, hpath⟩ := of_decide_eq_true h
    rw [if_pos hfile'] at h'
    obtain ⟨hfile'', hvalue', hpath'⟩ := of_decide_eq_true h'
    rw [if_pos hfile]
    exact decide_eq_true ⟨hfile'', hvalue.trans hvalue', hpath.trans hpath'⟩
  · rw [if_neg hfile] at h ⊢
    rcases of_decide_eq_true h with rfl | ⟨htype, htime, hvalue⟩
    · rwa [if_neg hfile] at h'
    · rw [htype, if_neg hfile] at h'
      rcases of_decide_eq_true h' with rfl | ⟨htype', htime', hvalue'⟩
      · exact h
      · exact decide_eq_true (.inr ⟨htype', htime.trans htime', hvalue.trans hvalue'⟩)

theorem mem_referrers_observable : TreeNode.analysis a ∈ t.referrers n (.observable o) ↔
    a ∈ t.allAnalysis ∧ ∃ child ∈ t.childrenOf a, n.equal o child = true := by
  simp only [referrers, mem_flatMap, mem_map, mem_filter]
  constructor
  · rintro ⟨a', ha', child, ⟨hchild, hequal⟩, heq⟩
    cases heq
    exact ⟨ha', child, hchild, hequal⟩
  · rintro ⟨ha, child, hchild, hequal⟩
    exact ⟨a, ha, child, ⟨hchild, hequal⟩, rfl⟩

theorem mem_referrers_analysis : TreeNode.observable o ∈ t.referrers n (.analysis a) ↔
    o ∈ t.store ∧ ∃ analysis ∈ t.analysesOf o, some analysis = a := by
  simp only [referrers, mem_flatMap, mem_map, mem_filter, decide_eq_true_eq]
  constructor
  · rintro ⟨o', ho', analysis, ⟨hmem, ha⟩, heq⟩
    cases heq
    exact ⟨ho', analysis, hmem, ha⟩
  · rintro ⟨ho, analysis, hmem, ha⟩
    exact ⟨o, ho, analysis, ⟨hmem, ha⟩, rfl⟩

theorem referrers_shape (h : node ∈ t.referrers n (.observable o)) : ∃ a, node = .analysis a := by
  simp only [referrers, mem_flatMap, mem_map] at h
  obtain ⟨a, -, child, -, rfl⟩ := h
  exact ⟨a, rfl⟩

theorem referrers_shape' (h : node ∈ t.referrers n (.analysis a)) : ∃ o, node = .observable o := by
  simp only [referrers, mem_flatMap, mem_map] at h
  obtain ⟨o, -, analysis, -, rfl⟩ := h
  exact ⟨o, rfl⟩

theorem referrers_of_equal {node' : TreeNode ι κ} (h : node.equal n node' = true) :
    t.referrers n node ⊆ t.referrers n node' := by
  intro x hx
  cases node with
  | observable o =>
    cases node' with
    | observable o' =>
      obtain ⟨a, rfl⟩ := referrers_shape hx
      rw [mem_referrers_observable] at hx ⊢
      obtain ⟨ha, child, hchild, hequal⟩ := hx
      exact ⟨ha, child, hchild, equal_trans (TreeObjects.equal_symm h) hequal⟩
    | analysis a => cases h
  | analysis a =>
    cases node' with
    | observable o => cases h
    | analysis a' =>
      obtain rfl : a = a' := of_decide_eq_true h
      exact hx

theorem skips_stopsAt : Skips (t.referrers n) (stopsAt n) where
  covered visited target h := by
    rw [stopsAt, Bool.or_eq_true, any_eq_true, decide_eq_true_eq] at h
    rcases h with ⟨x, hx, hequal⟩ | rfl
    · exact .inr ⟨x, hx, referrers_of_equal hequal⟩
    · refine .inl (eq_nil_iff_forall_not_mem.mpr fun x hx => ?_)
      obtain ⟨o, rfl⟩ := referrers_shape' hx
      obtain ⟨-, analysis, -, ha⟩ := mem_referrers_analysis.mp hx
      cases ha
  remembered visited target h := by
    rw [stopsAt, Bool.or_eq_true, any_eq_true]
    refine .inl ⟨target, h, ?_⟩
    cases target with
    | observable o => exact n.equal_self o
    | analysis a => exact decide_eq_true rfl

/-! ## §3 The answer -/

theorem recurseDown_spec (n : TreeObjects ι κ) (t : AnalysisTree ι κ) (target : TreeNode ι κ) :
    ∃ called, t.recurseDown n target = some called ∧
      ∀ node, node ∈ called ↔ TransGen (Edge (t.referrers n)) target node := by
  have hnext : ∀ node node', Edge (t.referrers n) node node' →
      node' ∈ target :: (t.store.map TreeNode.observable ++ t.allAnalysis.map TreeNode.analysis) := by
    intro node node' h
    rw [Edge] at h
    cases node with
    | observable o =>
      obtain ⟨a, rfl⟩ := referrers_shape h
      simp [(mem_referrers_observable.mp h).1]
    | analysis a =>
      obtain ⟨o, rfl⟩ := referrers_shape' h
      simp [(mem_referrers_analysis.mp h).1]
  have hdepth : (target :: (t.store.map TreeNode.observable ++
      t.allAnalysis.map TreeNode.analysis)).length <
        t.store.length + t.allNonRootAnalysis.length + 3 := by
    simp [allAnalysis]
    omega
  obtain ⟨visited, calls, heq, hcalls⟩ :=
    traverse_calls skips_stopsAt hnext (mem_cons_self ..) hdepth
  exact ⟨calls, by rw [recurseDown, heq]; rfl, hcalls⟩

/-- The search ends, and it answers whether the object, or one of its ancestors other than the
root, has a detection point. -/
theorem on_detection_path_iff (n : TreeObjects ι κ) (t : AnalysisTree ι κ)
    (hasDetectionPoints : TreeNode ι κ → Bool) (target : TreeNode ι κ) :
    ∃ answer, t.isOnDetectionPath n hasDetectionPoints target = some answer ∧
      (answer = true ↔ hasDetectionPoints target = true ∨
        ∃ node, TransGen (Edge (t.referrers n)) target node ∧ node ≠ .root ∧
          hasDetectionPoints node = true) := by
  rw [isOnDetectionPath]
  by_cases htarget : hasDetectionPoints target = true
  · rw [if_pos htarget]
    exact ⟨true, rfl, by simp [htarget]⟩
  · rw [if_neg htarget]
    obtain ⟨called, heq, hcalled⟩ := recurseDown_spec n t target
    refine ⟨_, by rw [searchDown, heq]; rfl, ?_⟩
    rw [List.find?_isSome]
    constructor
    · rintro ⟨node, hnode, hdetected⟩
      split at hdetected
      · cases hdetected
      · rename_i hroot
        exact .inr ⟨node, (hcalled node).mp hnode, hroot, hdetected⟩
    · rintro (h | ⟨node, hnode, hroot, hdetected⟩)
      · exact absurd h htarget
      · exact ⟨node, (hcalled node).mpr hnode, by rw [if_neg hroot]; exact hdetected⟩

end AnalysisTree

end Ace3.Analysis
