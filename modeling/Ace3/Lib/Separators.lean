import Mathlib.Data.List.Basic

/-!
# Separators

Text that is cut at the first place where a separator stands.
-/

namespace Ace3.Lib

variable {α : Type*} [DecidableEq α] {sep : α} {xs ys us vs text : List α}

/-- What stands before the first separator and, if there is one, what stands behind it. -/
def partition (sep : α) : List α → List α × Option (List α)
  | [] => ([], none)
  | x :: xs =>
    if x = sep then ([], some xs) else (x :: (partition sep xs).1, (partition sep xs).2)

instance lawfulBEqText : LawfulBEq (List Char) := inferInstance

theorem partition_append_cons (h : sep ∉ xs) :
    partition sep (xs ++ sep :: us) = (xs, some us) := by
  induction xs with
  | nil => simp [partition]
  | cons x xs ih =>
    obtain ⟨hx, hxs⟩ := not_or.mp (List.mem_cons.not.mp h)
    simp [partition, Ne.symm hx, ih hxs]

theorem eq_append_cons_of_partition (h : partition sep text = (xs, some us)) :
    text = xs ++ sep :: us := by
  induction text generalizing xs with
  | nil => simp [partition] at h
  | cons x text ih =>
    rw [partition] at h
    split at h
    next hx =>
      simp only [Prod.mk.injEq, Option.some.injEq] at h
      obtain ⟨rfl, rfl⟩ := h
      rw [hx, List.nil_append]
    next =>
      simp only [Prod.mk.injEq] at h
      obtain ⟨rfl, hrest⟩ := h
      rw [List.cons_append, ← ih (Prod.ext rfl hrest)]

theorem append_cons_inj (hxs : sep ∉ xs) (hys : sep ∉ ys) :
    xs ++ sep :: us = ys ++ sep :: vs ↔ xs = ys ∧ us = vs := by
  constructor
  · intro h
    have hcut := congrArg (partition sep) h
    rw [partition_append_cons hxs, partition_append_cons hys] at hcut
    simpa using hcut
  · rintro ⟨rfl, rfl⟩
    rfl

theorem mem_intercalate {x : α} {parts : List (List α)} (h : x ∈ [sep].intercalate parts) :
    x = sep ∨ ∃ part ∈ parts, x ∈ part := by
  induction parts with
  | nil => simp at h
  | cons part parts ih =>
    by_cases hnil : parts = []
    · subst hnil
      exact .inr ⟨part, by simp, by simpa using h⟩
    · rw [List.intercalate_cons_of_ne_nil hnil] at h
      simp only [List.mem_append, List.mem_singleton] at h
      rcases h with (h | h) | h
      · exact .inr ⟨part, by simp, h⟩
      · exact .inl h
      · obtain rfl | ⟨found, hfound, hx⟩ := ih h
        · exact .inl rfl
        · exact .inr ⟨found, by simp [hfound], hx⟩

end Ace3.Lib
