import Ace3.Lib.Masking

/-!
# Expanding a Token

A token stands for a longer text and is replaced by it from left to right, as `str.replace` does.
Where the token does not occur in the texts around it, and the letters next to it are none of its
own, the expansion of a whole is put together from the expansions of its parts.
-/

namespace Ace3.Lib.Tokens

open Masking

variable {α : Type*} [DecidableEq α] {mask word text rest : List α} {letter : α}

/-! ## §1 Reading over -/

theorem replaceFrom_append :
    replaceFrom mask word text.length (text ++ rest) = replace mask word rest := by
  induction text with
  | nil => rfl
  | cons letter text ih => exact ih

theorem replace_word_append (hword : word ≠ []) :
    replace mask word (word ++ rest) = mask ++ replace mask word rest := by
  obtain ⟨first, others, rfl⟩ := List.exists_cons_of_ne_nil hword
  have hstart : first :: others <+: first :: (others ++ rest) :=
    List.prefix_append (first :: others) rest
  rw [List.cons_append, replace, replaceFrom, if_pos hstart]
  exact congrArg (mask ++ ·) replaceFrom_append

theorem replace_cons (h : ¬ word <+: letter :: rest) :
    replace mask word (letter :: rest) = letter :: replace mask word rest := by
  rw [replace, replaceFrom, if_neg h]
  rfl

theorem replace_of_not_infix (h : ¬ word <:+: text) : replace mask word text = text := by
  induction text with
  | nil => rfl
  | cons letter text ih =>
    rw [replace_cons fun hstart => h hstart.isInfix,
      ih fun hlater => h (hlater.trans (List.suffix_cons letter text).isInfix)]

/-! ## §2 Up to a foreign letter -/

omit [DecidableEq α] in
theorem prefix_of_append_cons (hletter : letter ∉ word) (h : word <+: text ++ letter :: rest) :
    word <+: text := by
  induction text generalizing word with
  | nil =>
    cases word with
    | nil => exact List.nil_prefix
    | cons first word =>
      obtain ⟨rfl, _⟩ := List.cons_prefix_cons.mp h
      exact absurd List.mem_cons_self hletter
  | cons next text ih =>
    cases word with
    | nil => exact List.nil_prefix
    | cons first word =>
      obtain ⟨rfl, hrest⟩ := List.cons_prefix_cons.mp h
      have hother : letter ∉ word := fun hmem => hletter (List.mem_cons_of_mem _ hmem)
      exact List.cons_prefix_cons.mpr ⟨rfl, ih hother hrest⟩

theorem replace_append_cons (hnone : ¬ word <:+: text) (hletter : letter ∉ word) :
    replace mask word (text ++ letter :: rest) = text ++ letter :: replace mask word rest := by
  induction text with
  | nil =>
    refine replace_cons fun hstart => hnone ?_
    have hbefore : word <+: [] := prefix_of_append_cons hletter hstart
    exact hbefore.isInfix
  | cons next text ih =>
    have hlater : ¬ word <:+: text := fun h =>
      hnone (h.trans (List.suffix_cons next text).isInfix)
    rw [List.cons_append, replace_cons, ih hlater, List.cons_append]
    intro hstart
    have hbefore : word <+: next :: text := prefix_of_append_cons hletter hstart
    exact hnone hbefore.isInfix

end Ace3.Lib.Tokens
