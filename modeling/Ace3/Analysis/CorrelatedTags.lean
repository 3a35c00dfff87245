import Ace3.Analysis.DetectionPath
import Mathlib.Data.Finset.Insert

/-!
# Correlated Tags

`CorrelatedTagAnalyzer.execute_post_analysis` (`saq/modules/tag.py`): the tags of a definition are
carried from the objects that have them to what these descend from.
-/

namespace Ace3.Analysis

open List
open Relation Lib.Traversal

variable {ι κ τ : Type*} [DecidableEq ι] [DecidableEq κ] [DecidableEq τ]

/-! ## §1 The loops -/

/-- The tags are a set that is not empty, in the order in which it is iterated over. -/
structure CorrelatedTagDefinition (τ : Type*) where
  text : String
  tags : List τ
  nodup : tags.Nodup
  nonempty : tags ≠ []

/-- `tag_map`, and the objects that were given the detection point of the definition. -/
structure Correlation (ι κ τ : Type*) where
  tagMap : TreeNode ι κ → Finset τ := fun _ => ∅
  detected : List (TreeNode ι κ) := []

/-- `callback`, within the iteration for a tag and an object that has it. -/
def Correlation.callback (d : CorrelatedTagDefinition τ) (tag : τ) (o : TreeNode ι κ)
    (s : Correlation ι κ τ) (obj : TreeNode ι κ) : Correlation ι κ τ :=
  if obj = .root then s
  else
    let tags := insert tag (s.tagMap obj)
    { tagMap := Function.update s.tagMap obj tags
      detected := if tags = d.tags.toFinset ∧ o ∉ s.detected then s.detected ++ [o]
        else s.detected }

namespace AnalysisTree

variable (n : TreeObjects ι κ) (t : AnalysisTree ι κ) (hasTag : TreeNode ι κ → τ → Bool)

/-- `root.all` -/
def all : List (TreeNode ι κ) :=
  t.allAnalysis.map .analysis ++ t.store.map .observable

def correlateTag (d : CorrelatedTagDefinition τ) (objects : List (TreeNode ι κ))
    (s : Correlation ι κ τ) (tag : τ) : Option (Correlation ι κ τ) :=
  objects.foldlM (fun s o =>
    if o = .root ∨ hasTag o tag = false then some s
    else (t.recurseDown n o).map fun called => called.foldl (Correlation.callback d tag o) s) s

/-- What `execute_post_analysis` does for one definition. -/
def correlate (d : CorrelatedTagDefinition τ) (objects : List (TreeNode ι κ)) :
    Option (List (TreeNode ι κ)) :=
  (d.tags.foldlM (t.correlateTag n hasTag d objects) {}).map (·.detected)

/-- `execute_post_analysis`: the objects with a new detection point, for each definition. -/
def executePostAnalysis (definitions : List (CorrelatedTagDefinition τ)) :
    Option (List (String × List (TreeNode ι κ))) :=
  definitions.mapM fun d => (t.correlate n hasTag d t.all).map (d.text, ·)

/-! ## §2 What descends from an object -/

def Tagged (tag : τ) (o : TreeNode ι κ) : Prop :=
  o ∈ t.all ∧ o ≠ .root ∧ hasTag o tag = true

def Below (o obj : TreeNode ι κ) : Prop :=
  TransGen (Edge (t.referrers n)) o obj

/-- Each of the tags is on the object or on one that descends from it. -/
def CommonAncestor (d : CorrelatedTagDefinition τ) (obj : TreeNode ι κ) : Prop :=
  obj ≠ .root ∧ ∀ tag ∈ d.tags, ∃ o, t.Tagged hasTag tag o ∧ (o = obj ∨ t.Below n o obj)

/-- Each of the tags is on an object that descends from this one. -/
def StrictAncestor (d : CorrelatedTagDefinition τ) (obj : TreeNode ι κ) : Prop :=
  obj ≠ .root ∧ ∀ tag ∈ d.tags, ∃ o, t.Tagged hasTag tag o ∧ t.Below n o obj

/-! ## §3 What one tag does -/

variable {n t hasTag} {d : CorrelatedTagDefinition τ}

/-- What the calls for one object do: the tag comes to each of the ancestors, and where one of
these has all tags then, the object is detected. -/
theorem foldl_callback (d : CorrelatedTagDefinition τ) (s : Correlation ι κ τ) (tag : τ)
    (o : TreeNode ι κ) (called : List (TreeNode ι κ)) :
    let s' := called.foldl (Correlation.callback d tag o) s
    (∀ obj, s'.tagMap obj =
      if obj ∈ called ∧ obj ≠ .root then insert tag (s.tagMap obj) else s.tagMap obj) ∧
    ∀ o', o' ∈ s'.detected ↔ o' ∈ s.detected ∨ o' = o ∧ ∃ obj ∈ called, obj ≠ .root ∧
      insert tag (s.tagMap obj) = d.tags.toFinset := by
  induction called generalizing s with
  | nil => simp
  | cons first called ih =>
    obtain ⟨hmap, hdetected⟩ := ih (Correlation.callback d tag o s first)
    rw [foldl_cons]
    have hfirst : ∀ obj, (Correlation.callback d tag o s first).tagMap obj =
        if obj = first ∧ obj ≠ .root then insert tag (s.tagMap obj) else s.tagMap obj := by
      intro obj
      unfold Correlation.callback
      by_cases hroot : first = .root
      · rw [if_pos hroot, if_neg]
        rintro ⟨rfl, hne⟩
        exact hne hroot
      · rw [if_neg hroot]
        by_cases heq : obj = first
        · subst heq
          simp [hroot]
        · simp [heq]
    -- inserting the tag once more does not matter
    have hinsert : ∀ obj, insert tag ((Correlation.callback d tag o s first).tagMap obj) =
        insert tag (s.tagMap obj) := by
      intro obj
      rw [hfirst]
      split
      · exact Finset.insert_idem ..
      · rfl
    refine ⟨fun obj => ?_, fun o' => ?_⟩
    · rw [hmap, hinsert, hfirst]
      grind
    · rw [hdetected]
      simp only [hinsert]
      unfold Correlation.callback
      grind

theorem correlateTag_spec (n : TreeObjects ι κ) (t : AnalysisTree ι κ)
    (hasTag : TreeNode ι κ → τ → Bool) (d : CorrelatedTagDefinition τ) (s : Correlation ι κ τ)
    (tag : τ) (objects : List (TreeNode ι κ)) :
    ∃ s', t.correlateTag n hasTag d objects s tag = some s' ∧
      (∀ obj tag', tag' ∈ s'.tagMap obj ↔ tag' ∈ s.tagMap obj ∨ tag' = tag ∧ obj ≠ .root ∧
        ∃ o ∈ objects, o ≠ .root ∧ hasTag o tag = true ∧ t.Below n o obj) ∧
      ∀ o, o ∈ s'.detected ↔ o ∈ s.detected ∨ o ∈ objects ∧ o ≠ .root ∧ hasTag o tag = true ∧
        ∃ obj, t.Below n o obj ∧ obj ≠ .root ∧ insert tag (s.tagMap obj) = d.tags.toFinset := by
  induction objects generalizing s with
  | nil => exact ⟨s, rfl, by simp, by simp⟩
  | cons first objects ih =>
    rw [correlateTag, foldlM_cons]
    by_cases hskip : first = .root ∨ hasTag first tag = false
    · obtain ⟨s', heq, hmap, hdetected⟩ := ih s
      refine ⟨s', by rw [if_pos hskip]; exact heq, fun obj tag' => ?_, fun o => ?_⟩
      · rw [hmap]
        grind
      · rw [hdetected]
        grind
    · rw [if_neg hskip]
      obtain ⟨called, hcalled, hbelow⟩ := recurseDown_spec n t first
      obtain ⟨hmap₁, hdetected₁⟩ := foldl_callback d s tag first called
      obtain ⟨s', heq, hmap, hdetected⟩ :=
        ih (called.foldl (Correlation.callback d tag first) s)
      rw [hcalled]
      refine ⟨s', heq, fun obj tag' => ?_, fun o => ?_⟩
      · have hmem : tag' ∈ (called.foldl (Correlation.callback d tag first) s).tagMap obj ↔
            tag' ∈ s.tagMap obj ∨ tag' = tag ∧ obj ≠ .root ∧ t.Below n first obj := by
          have hiff := hbelow obj
          rw [hmap₁]
          split
          · rw [Finset.mem_insert]
            grind [Below]
          · grind [Below]
        rw [hmap, hmem]
        grind
      · rw [hdetected, hdetected₁]
        have hinsert : ∀ obj, insert tag
            ((called.foldl (Correlation.callback d tag first) s).tagMap obj) =
              insert tag (s.tagMap obj) := by
          intro obj
          rw [hmap₁]
          split
          · exact Finset.insert_idem ..
          · rfl
        simp only [hinsert, hbelow]
        unfold Below
        grind

/-- After some of the tags the map holds these where they came to, and nothing is detected as long
as a tag is missing. -/
theorem foldlM_correlateTag (n : TreeObjects ι κ) (t : AnalysisTree ι κ)
    (hasTag : TreeNode ι κ → τ → Bool) (objects : List (TreeNode ι κ)) (tags : List τ)
    (hmissing : ∃ tag ∈ d.tags, tag ∉ tags) :
    ∃ s, tags.foldlM (t.correlateTag n hasTag d objects) {} = some s ∧ s.detected = [] ∧
      ∀ obj tag, tag ∈ s.tagMap obj ↔ tag ∈ tags ∧ obj ≠ .root ∧
        ∃ o ∈ objects, o ≠ .root ∧ hasTag o tag = true ∧ t.Below n o obj := by
  induction tags using List.reverseRecOn with
  | nil => exact ⟨{}, rfl, rfl, by simp⟩
  | append_singleton tags tag ih =>
    obtain ⟨missing, hmem, hnot⟩ := hmissing
    have hbefore : missing ∉ tags := fun h => hnot (mem_append_left _ h)
    obtain ⟨s, heq, hnone, hmap⟩ := ih ⟨missing, hmem, hbefore⟩
    obtain ⟨s', heq', hmap', hdetected⟩ :=
      correlateTag_spec n t hasTag d s tag objects
    refine ⟨s', by rw [foldlM_append, heq]; simpa using heq', ?_, fun obj tag' => ?_⟩
    · refine eq_nil_iff_forall_not_mem.mpr fun o ho => ?_
      rcases (hdetected o).mp ho with hold | ⟨-, -, -, obj, -, -, hfull⟩
      · rw [hnone] at hold
        cases hold
      · have hin : missing ∈ insert tag (s.tagMap obj) := by
          rw [hfull]
          exact mem_toFinset.mpr hmem
        rcases Finset.mem_insert.mp hin with rfl | hin
        · exact hnot (by simp)
        · exact hbefore ((hmap obj missing).mp hin).1
    · rw [hmap', hmap]
      grind

/-- What is detected: the objects with the tag that comes last, as far as they descend from one
that each of the tags comes to. -/
theorem correlate_spec (n : TreeObjects ι κ) (t : AnalysisTree ι κ)
    (hasTag : TreeNode ι κ → τ → Bool) (d : CorrelatedTagDefinition τ)
    {objects : List (TreeNode ι κ)} (hobjects : ∀ o, o ∈ objects ↔ o ∈ t.all) :
    ∃ detected, t.correlate n hasTag d objects = some detected ∧
      ∀ o, o ∈ detected ↔ t.Tagged hasTag (d.tags.getLast d.nonempty) o ∧
        ∃ obj, t.StrictAncestor n hasTag d obj ∧ t.Below n o obj := by
  obtain ⟨tags, last, htags⟩ : ∃ tags last, d.tags = tags ++ [last] :=
    ⟨_, _, (dropLast_append_getLast d.nonempty).symm⟩
  have hlast : d.tags.getLast d.nonempty = last := by simp [htags]
  have hmissing : last ∉ tags := by
    have hnodup := d.nodup
    rw [htags, nodup_append] at hnodup
    intro hmem
    exact hnodup.2.2 last hmem last (by simp) rfl
  obtain ⟨s, heq, hnone, hmap⟩ := foldlM_correlateTag n t hasTag objects tags (d := d)
    ⟨last, by simp [htags], hmissing⟩
  obtain ⟨s', heq', -, hdetected⟩ := correlateTag_spec n t hasTag d s last objects
  refine ⟨s'.detected, ?_, fun o => ?_⟩
  · unfold correlate
    rw [htags, foldlM_append, heq]
    simpa using congrArg (Option.map Correlation.detected) heq'
  · rw [hdetected, hnone, hlast, Tagged, hobjects]
    -- the last tag comes to the object from the one that is detected
    have hfull : ∀ obj, t.Below n o obj → o ∈ t.all → o ≠ .root → hasTag o last = true →
        ((obj ≠ .root ∧ insert last (s.tagMap obj) = d.tags.toFinset) ↔
          t.StrictAncestor n hasTag d obj) := by
      intro obj hbelow ho hne htag
      rw [StrictAncestor, Finset.ext_iff]
      simp only [Finset.mem_insert, hmap, mem_toFinset, htags, mem_append,
        mem_singleton, Tagged]
      grind
    grind

/-! ## §4 Common ancestors -/

end AnalysisTree

end Ace3.Analysis
