import Mathlib.Data.List.DropRight
import Mathlib.Data.List.Infix

/-!
# Trimming the Ends of a List

`trimEnds front back` drops what `front` accepts from the front of a list, then what `back`
accepts from its end.
-/

namespace Ace3.Lib.Trim

open List

variable {α : Type*} {front back : α → Bool} {xs ys zs : List α}

/-! ## §1 Trimming -/

def trimEnds (front back : α → Bool) (xs : List α) : List α :=
  (xs.dropWhile front).rdropWhile back

structure Trimmed (front back : α → Bool) (xs : List α) : Prop where
  head : ∀ x ∈ xs.head?, front x = false
  last : ∀ x ∈ xs.getLast?, back x = false

theorem trimEnds_inside : trimEnds front back xs <:+: xs :=
  ( rdropWhile_prefix back _).isInfix.trans (dropWhile_suffix front).isInfix

theorem trimmed_trimEnds (front back : α → Bool) (xs : List α) :
    Trimmed front back (trimEnds front back xs) where
  head x hx := by
    -- what is left is a beginning of the list without its front
    have hhead : x ∈ (xs.dropWhile front).head? := by
      obtain ⟨rest, hrest⟩ := rdropWhile_prefix back (xs.dropWhile front)
      cases hleft : trimEnds front back xs with
      | nil => simp [hleft] at hx
      | cons y ys =>
        have hy : y = x := by simpa [hleft] using hx
        rw [← hrest, show (xs.dropWhile front).rdropWhile back = y :: ys from hleft, hy]
        simp
    cases hdrop : xs.dropWhile front with
    | nil => simp [hdrop] at hhead
    | cons y ys =>
      have hy : y = x := by simpa [hdrop] using hhead
      subst hy
      have := head_dropWhile_not front (l := xs) (by simp [hdrop])
      simpa [hdrop] using this
  last x hx := by
    obtain ⟨hne, rfl⟩ := List.mem_getLast?_eq_getLast hx
    exact Bool.eq_false_iff.mpr (rdropWhile_last_not back (xs.dropWhile front) hne)

theorem trimEnds_eq_self_iff : trimEnds front back xs = xs ↔ Trimmed front back xs := by
  constructor
  · intro h
    exact h ▸ trimmed_trimEnds front back xs
  · intro h
    have hfront : xs.dropWhile front = xs := by
      cases xs with
      | nil => rfl
      | cons x xs => simp [h.head x (by simp)]
    rw [trimEnds, hfront, rdropWhile_eq_self_iff]
    intro hne
    simp [h.last _ (List.getLast?_eq_some_getLast hne)]

theorem Trimmed.trimEnds_eq (h : Trimmed front back xs) : trimEnds front back xs = xs :=
  trimEnds_eq_self_iff.mpr h

@[simp] theorem trimEnds_trimEnds : trimEnds front back (trimEnds front back xs) =
    trimEnds front back xs :=
  (trimmed_trimEnds front back xs).trimEnds_eq

@[simp] theorem trimEnds_nil : trimEnds front back [] = [] := rfl

theorem eq_of_infix_of_infix (h : ys <:+: zs) (h' : zs <:+: ys) : ys = zs :=
  h.eq_of_length (Nat.le_antisymm h.length_le h'.length_le)

theorem mem_trimEnds_of_not {x : α} (hx : x ∈ xs) (hfront : front x = false)
    (hback : back x = false) : x ∈ trimEnds front back xs := by
  have hmem : x ∈ xs.dropWhile front := by
    rw [← takeWhile_append_dropWhile (p := front) (l := xs)] at hx
    rcases mem_append.mp hx with h | h
    · simp [mem_takeWhile_imp h] at hfront
    · exact h
  rw [← rdropWhile_append_rtakeWhile (p := back) (l := xs.dropWhile front)] at hmem
  rcases mem_append.mp hmem with h | h
  · exact h
  · simp [mem_rtakeWhile_imp h] at hback

/-! ## §2 One predicate for both ends -/

variable {blank : α → Bool}

theorem exists_eq_append_trimEnds (blank : α → Bool) (xs : List α) :
    ∃ ys zs, xs = ys ++ trimEnds blank blank xs ++ zs ∧ (∀ y ∈ ys, blank y = true) ∧
      ∀ z ∈ zs, blank z = true := by
  refine ⟨xs.takeWhile blank, (xs.dropWhile blank).rtakeWhile blank, ?_,
    fun y hy => mem_takeWhile_imp hy, fun z hz => mem_rtakeWhile_imp hz⟩
  rw [append_assoc, trimEnds, rdropWhile_append_rtakeWhile,
    takeWhile_append_dropWhile]

theorem trimEnds_append (hys : ∀ y ∈ ys, blank y = true) (hzs : ∀ z ∈ zs, blank z = true)
    (hxs : Trimmed blank blank xs) : trimEnds blank blank (ys ++ xs ++ zs) = xs := by
  have hback : ∀ zs : List α, (∀ z ∈ zs, blank z = true) →
      (xs ++ zs).rdropWhile blank = xs.rdropWhile blank := by
    intro zs
    induction zs using List.reverseRecOn with
    | nil => simp
    | append_singleton zs z ih =>
      intro h
      rw [← append_assoc, rdropWhile_concat_pos _ _ _ (h z (by simp))]
      exact ih fun z hz => h z (by simp [hz])
  rw [trimEnds, append_assoc, dropWhile_append_of_pos hys]
  cases xs with
  | nil =>
    have hnil : ([] ++ zs).dropWhile blank = [] := by simpa using hzs
    rw [hnil, rdropWhile_nil]
  | cons x xs =>
    rw [cons_append, dropWhile_cons_of_neg (by simp [hxs.head x (by simp)]),
      ← cons_append, hback zs hzs, rdropWhile_eq_self_iff]
    intro hne
    simp [hxs.last _ (List.getLast?_eq_some_getLast hne)]

end Ace3.Lib.Trim
