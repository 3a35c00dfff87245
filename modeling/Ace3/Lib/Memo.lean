import Mathlib.Logic.Function.Basic

/-!
# Tables of Answers

A table keeps, under the key of a question, the answer that the question once had. Questions
without a key neither ask nor fill it. A table is justified by the questions asked so far if each of
its answers is the answer to one of them, with that key. It answers a question rightly where the
earlier questions with its key have the same answer.
-/

namespace Ace3.Lib.Memo

open Function

variable {Q K A : Type*} {key : Q → Option K} {answer : Q → A → Prop} {asked asked' : Q → Prop}
  {table : K → Option A}

/-! ## §1 Justified tables -/

def Justified (key : Q → Option K) (answer : Q → A → Prop) (asked : Q → Prop)
    (table : K → Option A) : Prop :=
  ∀ k a, table k = some a → ∃ q, asked q ∧ key q = some k ∧ answer q a

theorem justified_empty : Justified key answer asked fun _ => none := fun _ _ h => by cases h

/-! ## §2 What keeps a table justified -/

theorem Justified.mono (h : Justified key answer asked table) (hasked : ∀ q, asked q → asked' q) :
    Justified key answer asked' table := by
  intro k a ha
  obtain ⟨q, hq, hkey, hanswer⟩ := h k a ha
  exact ⟨q, hasked q hq, hkey, hanswer⟩

theorem Justified.put [DecidableEq K] (h : Justified key answer asked table) {q : Q} {k : K} {a : A}
    (hq : asked q) (hkey : key q = some k) (ha : answer q a) :
    Justified key answer asked (Function.update table k (some a)) := by
  intro k' a' ha'
  by_cases hk : k' = k
  · subst hk
    rw [update_self] at ha'
    cases ha'
    exact ⟨q, hq, hkey, ha⟩
  · rw [update_of_ne hk] at ha'
    exact h k' a' ha'

theorem Justified.drop [DecidableEq K] (h : Justified key answer asked table) (k : K) :
    Justified key answer asked (Function.update table k none) := by
  intro k' a' ha'
  by_cases hk : k' = k
  · subst hk
    rw [update_self] at ha'
    cases ha'
  · rw [update_of_ne hk] at ha'
    exact h k' a' ha'

/-! ## §3 Answers out of a justified table -/

theorem Justified.answer_of_eq_some (h : Justified key answer asked table) {q : Q} {k : K} {a : A}
    (ha : table k = some a)
    (hsame : ∀ q', asked q' → key q' = some k → ∀ a, answer q' a → answer q a) : answer q a := by
  obtain ⟨q', hq', hkey, hanswer⟩ := h k a ha
  exact hsame q' hq' hkey a hanswer

end Ace3.Lib.Memo
