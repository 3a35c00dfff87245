import Mathlib.Data.List.Infix

/-!
# Masking Words

Words over an alphabet in which one letter, the star, only stands in masks. Occurrences of a word
are replaced by the mask from left to right, as `str.replace` does.
-/

namespace Ace3.Lib.Masking

open List

variable {α : Type*}

/-! ## §1 Replacing a word -/

section Definitions

variable [DecidableEq α]

/-- The rest of a replacement, of whose text the first letters still belong to an occurrence. -/
def replaceFrom (mask word : List α) : Nat → List α → List α
  | _, [] => []
  | skip + 1, _ :: text => replaceFrom mask word skip text
  | 0, letter :: text =>
    if word <+: letter :: text then mask ++ replaceFrom mask word (word.length - 1) text
    else letter :: replaceFrom mask word 0 text

def replace (mask word text : List α) : List α := replaceFrom mask word 0 text

def maskWord (mask text word : List α) : List α :=
  if word ≠ [] ∧ word <:+: text then replace mask word text else text

def maskWords (mask : List α) (words : List (List α)) (text : List α) : List α :=
  words.foldl (maskWord mask) text

end Definitions

variable {star : α} {mask word other text : List α}

theorem infix_of_append_mask (hmask : ∀ letter ∈ mask, letter = star) (hstar : star ∉ word)
    (hword : word ≠ []) (h : word <:+: mask ++ text) : word <:+: text := by
  induction mask with
  | nil => exact h
  | cons letter mask ih =>
    have hmask' : ∀ letter ∈ mask, letter = star :=
      fun letter hletter => hmask letter (mem_cons_of_mem _ hletter)
    rcases infix_cons_iff.mp h with hfront | hlater
    · -- the first letter of the word would be a star
      cases word with
      | nil => exact absurd rfl hword
      | cons first word =>
        obtain ⟨rfl, -⟩ := cons_prefix_cons.mp hfront
        exact absurd (hmask first mem_cons_self ▸ mem_cons_self) hstar
    · exact ih hmask' hlater

/-! ## §2 What occurs afterwards -/

section Replace

variable [DecidableEq α] (hmask : ∀ letter ∈ mask, letter = star) (hne : mask ≠ [])

include hmask hne in
theorem prefix_of_replace (hstar : star ∉ other) (h : other <+: replace mask word text) :
    other <+: text := by
  induction text generalizing other with
  | nil => exact h
  | cons letter text ih =>
    unfold replace replaceFrom at h
    split at h
    · -- the new text starts with a star
      cases other with
      | nil => exact nil_prefix
      | cons first other =>
        obtain ⟨first', mask', rfl⟩ := exists_cons_of_ne_nil hne
        rw [cons_append] at h
        obtain ⟨rfl, -⟩ := cons_prefix_cons.mp h
        exact absurd (hmask first mem_cons_self ▸ mem_cons_self) hstar
    · cases other with
      | nil => exact nil_prefix
      | cons first other =>
        obtain ⟨rfl, hrest⟩ := cons_prefix_cons.mp h
        have hstar' : star ∉ other := fun hmem => hstar (mem_cons_of_mem _ hmem)
        exact cons_prefix_cons.mpr ⟨rfl, ih hstar' hrest⟩

include hmask hne in
theorem infix_of_replaceFrom (hstar : star ∉ other) (hother : other ≠ []) (skip : Nat)
    (h : other <:+: replaceFrom mask word skip text) : other <:+: text := by
  induction text generalizing skip with
  | nil =>
    cases skip <;> exact h
  | cons letter text ih =>
    cases skip with
    | succ skip => exact (ih skip h).trans (suffix_cons letter text).isInfix
    | zero =>
      have hwhole : other <+: replace mask word (letter :: text) → other <:+: letter :: text :=
        fun hstart => (prefix_of_replace hmask hne hstar hstart).isInfix
      unfold replaceFrom at h
      split at h
      · have hrest := infix_of_append_mask hmask hstar hother h
        exact (ih _ hrest).trans (suffix_cons letter text).isInfix
      · rename_i hword
        rcases infix_cons_iff.mp h with hstart | hrest
        · apply hwhole
          unfold replace replaceFrom
          rwa [if_neg hword]
        · exact (ih 0 hrest).trans (suffix_cons letter text).isInfix

include hmask hne in
theorem not_infix_replaceFrom (hstar : star ∉ word) (hword : word ≠ []) (skip : Nat) :
    ¬ word <:+: replaceFrom mask word skip text := by
  induction text generalizing skip with
  | nil =>
    intro h
    cases skip <;> exact hword (eq_nil_of_infix_nil h)
  | cons letter text ih =>
    intro h
    cases skip with
    | succ skip => exact ih skip h
    | zero =>
      unfold replaceFrom at h
      split at h
      · exact ih _ (infix_of_append_mask hmask hstar hword h)
      · rename_i hnone
        rcases infix_cons_iff.mp h with hstart | hrest
        · apply hnone
          apply prefix_of_replace hmask hne hstar
          show word <+: replace mask word (letter :: text)
          unfold replace replaceFrom
          rwa [if_neg hnone]
        · exact ih 0 hrest

end Replace

/-! ## §3 Masking a list of words -/

section Words

variable [DecidableEq α] (hmask : ∀ letter ∈ mask, letter = star) (hne : mask ≠ [])

include hmask hne in
theorem infix_of_maskWords {words : List (List α)} (hstar : star ∉ other) (hother : other ≠ [])
    (h : other <:+: maskWords mask words text) : other <:+: text := by
  induction words generalizing text with
  | nil => exact h
  | cons word words ih =>
    have hbefore : other <:+: maskWord mask text word := ih h
    unfold maskWord at hbefore
    split at hbefore
    · exact infix_of_replaceFrom hmask hne hstar hother 0 hbefore
    · exact hbefore

include hmask hne in
theorem not_infix_maskWords {words : List (List α)} (hwords : ∀ word ∈ words, star ∉ word)
    (hmem : word ∈ words) (hword : word ≠ []) : ¬ word <:+: maskWords mask words text := by
  induction words generalizing text with
  | nil => cases hmem
  | cons first words ih =>
    intro h
    rcases mem_cons.mp hmem with rfl | hmem
    · -- it is replaced now, and does not come back later
      have hstar := hwords word mem_cons_self
      have hnow : word <:+: maskWord mask text word := infix_of_maskWords hmask hne hstar hword h
      unfold maskWord at hnow
      split at hnow
      · exact not_infix_replaceFrom hmask hne hstar hword 0 hnow
      · rename_i hnone
        exact hnone ⟨hword, hnow⟩
    · exact ih (fun word hword => hwords word (mem_cons_of_mem _ hword)) hmem h

end Words

end Ace3.Lib.Masking
