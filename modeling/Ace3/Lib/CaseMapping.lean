import Ace3.Lib.Trim

/-!
# Lower Case

A full case mapping sees the letters around a letter and may turn it into several, but it leaves
plain characters (blanks, punctuation) alone and does not see past them.
-/

namespace Ace3.Lib.CaseMapping

open List
open Lib.Trim

/-! ## §1 Plain characters -/

/-- A mapping to lower case over the plain characters `plain`. -/
structure Lowering (α : Type*) (plain : α → Bool) where
  lower : List α → List α
  lower_nil : lower [] = []
  lower_ne_nil : ∀ xs, xs ≠ [] → lower xs ≠ []
  /-- The letters on one side of a plain character do not matter on the other. -/
  lower_append_cons : ∀ xs x ys, plain x = true → lower (xs ++ x :: ys) = lower xs ++ x :: lower ys
  /-- No letter becomes a plain character. -/
  mem_of_mem_lower : ∀ xs x, plain x = true → x ∈ lower xs → x ∈ xs
  /-- What is in lower case stays as it is, piece by piece. -/
  lower_of_infix : ∀ xs ys, ys <:+: lower xs → lower ys = ys

def Lowering.ofLetters {α : Type*} {plain : α → Bool} (letter : α → α)
    (hplain : ∀ x, plain x = true → letter x = x)
    (hletter : ∀ x, plain (letter x) = true → plain x = true)
    (hagain : ∀ x, letter (letter x) = letter x) : Lowering α plain where
  lower := List.map letter
  lower_nil := rfl
  lower_ne_nil xs h := by simpa using h
  lower_append_cons xs x ys hx := by simp [hplain x hx]
  mem_of_mem_lower xs x hx h := by
    obtain ⟨y, hy, rfl⟩ := mem_map.mp h
    rwa [hplain y (hletter y hx)]
  lower_of_infix xs ys h := by
    have hfixed : ∀ y ∈ ys, letter y = y := by
      intro y hy
      obtain ⟨x, -, rfl⟩ := mem_map.mp (h.subset hy)
      exact hagain x
    rw [map_congr_left hfixed, map_id']

namespace Lowering

variable {α : Type*} {plain : α → Bool} (l : Lowering α plain) {x : α} {xs ys zs : List α}

@[simp] theorem lower_eq_nil_iff : l.lower xs = [] ↔ xs = [] :=
  ⟨fun h => by_contra fun hne => l.lower_ne_nil xs hne h, fun h => h ▸ l.lower_nil⟩

theorem mem_lower_iff (hx : plain x = true) : x ∈ l.lower xs ↔ x ∈ xs := by
  constructor
  · exact l.mem_of_mem_lower xs x hx
  · intro h
    obtain ⟨before, after, rfl⟩ := append_of_mem h
    simp [l.lower_append_cons before x after hx]

theorem head?_lower_iff [DecidableEq α] (hx : plain x = true) :
    (l.lower xs).head? = some x ↔ xs.head? = some x := by
  constructor
  · intro h
    have hmem : x ∈ xs := (l.mem_lower_iff hx).mp (mem_of_head? h)
    -- nothing stands before the first occurrence, since that would become something else
    obtain ⟨before, after, rfl, hbefore⟩ := eq_append_cons_of_mem hmem
    rw [l.lower_append_cons before x after hx] at h
    cases hlower : l.lower before with
    | nil => simp [l.lower_eq_nil_iff.mp hlower]
    | cons y ys =>
      have hy : y = x := by simpa [hlower] using h
      have : x ∈ l.lower before := by simp [hlower, hy]
      exact absurd ((l.mem_lower_iff hx).mp this) hbefore
  · intro h
    obtain ⟨after, rfl⟩ : ∃ after, xs = x :: after := by
      cases xs with
      | nil => simp at h
      | cons y ys => exact ⟨ys, by simpa using h⟩
    have := l.lower_append_cons [] x after hx
    rw [nil_append] at this
    simp [this, l.lower_nil]

theorem getLast?_lower_iff [DecidableEq α] (hx : plain x = true) :
    (l.lower xs).getLast? = some x ↔ xs.getLast? = some x := by
  constructor
  · intro h
    have hmem : x ∈ xs := (l.mem_lower_iff hx).mp (mem_of_getLast? h)
    obtain ⟨after, before, hxs, hafter⟩ := eq_append_cons_of_mem (mem_reverse.mpr hmem)
    obtain rfl : xs = before.reverse ++ x :: after.reverse := by
      rw [← reverse_reverse xs, hxs]
      simp
    rw [l.lower_append_cons before.reverse x after.reverse hx] at h
    rcases (l.lower after.reverse).eq_nil_or_concat with hlower | ⟨ys, y, hlower⟩
    · simp [reverse_eq_nil_iff.mp (l.lower_eq_nil_iff.mp hlower)]
    · rw [hlower, concat_eq_append, ← cons_append, ← append_assoc,
        List.getLast?_concat] at h
      have hy : y = x := Option.some.inj h
      have : x ∈ l.lower after.reverse := by simp [hlower, hy]
      exact absurd (mem_reverse.mp ((l.mem_lower_iff hx).mp this)) hafter
  · intro h
    obtain ⟨before, rfl⟩ := List.getLast?_eq_some_iff.mp h
    rw [l.lower_append_cons before x [] hx]
    simp [l.lower_nil]

theorem lower_append (hys : ∀ y ∈ ys, plain y = true) (hzs : ∀ z ∈ zs, plain z = true) :
    l.lower (ys ++ xs ++ zs) = ys ++ l.lower xs ++ zs := by
  have hfront : ∀ ys xs : List α, (∀ y ∈ ys, plain y = true) →
      l.lower (ys ++ xs) = ys ++ l.lower xs := by
    intro ys
    induction ys with
    | nil => simp
    | cons y ys ih =>
      intro xs h
      have := l.lower_append_cons [] y (ys ++ xs) (h y (by simp))
      rw [nil_append, l.lower_nil, nil_append, ih xs fun z hz => h z (by simp [hz])]
        at this
      exact this
  have hback : ∀ zs xs : List α, (∀ z ∈ zs, plain z = true) →
      l.lower (xs ++ zs) = l.lower xs ++ zs := by
    intro zs xs h
    cases zs with
    | nil => simp
    | cons z zs =>
      have hplain : l.lower zs = zs := by
        have := hfront zs [] fun x hx => h x (by simp [hx])
        simpa [l.lower_nil] using this
      rw [l.lower_append_cons xs z zs (h z (by simp)), hplain]
  rw [hback zs (ys ++ xs) hzs, hfront ys xs hys]

/-! ## §2 The ends of a text -/

section Ends

variable [DecidableEq α] {front back blank : α → Bool}

theorem trimmed_lower_iff (hfront : ∀ x, front x = true → plain x = true)
    (hback : ∀ x, back x = true → plain x = true) :
    Trimmed front back (l.lower xs) ↔ Trimmed front back xs := by
  constructor
  · intro h
    refine ⟨fun x hx => Bool.eq_false_iff.mpr fun hf => ?_,
      fun x hx => Bool.eq_false_iff.mpr fun hb => ?_⟩
    · have := h.head x ((l.head?_lower_iff (hfront x hf)).mpr hx)
      simp [hf] at this
    · have := h.last x ((l.getLast?_lower_iff (hback x hb)).mpr hx)
      simp [hb] at this
  · intro h
    refine ⟨fun x hx => Bool.eq_false_iff.mpr fun hf => ?_,
      fun x hx => Bool.eq_false_iff.mpr fun hb => ?_⟩
    · have := h.head x ((l.head?_lower_iff (hfront x hf)).mp hx)
      simp [hf] at this
    · have := h.last x ((l.getLast?_lower_iff (hback x hb)).mp hx)
      simp [hb] at this

theorem trimEnds_lower (hblank : ∀ x, blank x = true → plain x = true) :
    trimEnds blank blank (l.lower xs) = l.lower (trimEnds blank blank xs) := by
  obtain ⟨ys, zs, hxs, hys, hzs⟩ := exists_eq_append_trimEnds blank xs
  have htrimmed : Trimmed blank blank (l.lower (trimEnds blank blank xs)) :=
    (l.trimmed_lower_iff hblank hblank).mpr (trimmed_trimEnds blank blank xs)
  calc trimEnds blank blank (l.lower xs)
      = trimEnds blank blank (ys ++ l.lower (trimEnds blank blank xs) ++ zs) := by
        conv_lhs => rw [hxs]
        rw [l.lower_append (fun y hy => hblank y (hys y hy)) fun z hz => hblank z (hzs z hz)]
    _ = l.lower (trimEnds blank blank xs) := trimEnds_append hys hzs htrimmed

end Ends

end Lowering

end Ace3.Lib.CaseMapping
