import Mathlib.Data.List.Basic

/-!
# The First Elements of Classes

A list without the elements whose key an earlier element has. What is left depends on the classes
of the key only, not on the keys.
-/

namespace Ace3.Lib.Firsts

open List

variable {α κ κ' σ : Type*} [DecidableEq κ] [DecidableEq κ']

/-! ## §1 First elements -/

/-- The elements of the list whose key no earlier element has, where `before` came earlier. -/
def firstsAfter (key : α → κ) (before : List α) : List α → List α
  | [] => []
  | a :: l =>
    if key a ∈ before.map key then firstsAfter key before l
    else a :: firstsAfter key (a :: before) l

def firsts (key : α → κ) (l : List α) : List α := firstsAfter key [] l

/-! ## §2 Classes -/

variable {l : List α}

theorem firsts_congr {key : α → κ} {key' : α → κ'}
    (h : ∀ a ∈ l, ∀ b ∈ l, key a = key b ↔ key' a = key' b) : firsts key l = firsts key' l := by
  have hafter : ∀ l' before : List α, l' ⊆ l → before ⊆ l →
      firstsAfter key before l' = firstsAfter key' before l' := by
    intro l'
    induction l' with
    | nil => exact fun _ _ _ => rfl
    | cons a l' ih =>
      intro before hl' hbefore
      obtain ⟨ha, hl'⟩ := cons_subset.mp hl'
      have hmem : key a ∈ before.map key ↔ key' a ∈ before.map key' := by
        simp only [mem_map]
        exact exists_congr fun b => and_congr_right fun hb => h b (hbefore hb) a ha
      rw [firstsAfter, firstsAfter, ih before hl' hbefore,
        ih (a :: before) hl' (cons_subset.mpr ⟨ha, hbefore⟩)]
      simp only [hmem]
  exact hafter l [] (List.Subset.refl l) (nil_subset l)

/-! ## §3 Loops -/

/-- A loop that leaves out the elements whose key it has seen, and ends where there is no key; the
state so far is returned either way. -/
def loopNew (key : α → Option κ) (body : σ → α → σ) : List κ → σ → List α → Except σ σ
  | _, state, [] => .ok state
  | seen, state, a :: l =>
    match key a with
    | none => .error state
    | some k =>
      if k ∈ seen then loopNew key body seen state l
      else loopNew key body (k :: seen) (body state a) l

variable {key : α → Option κ} {body : σ → α → σ}

theorem loopNew_eq_ok (h : ∀ a ∈ l, (key a).isSome) (state : σ) :
    loopNew key body [] state l = .ok ((firsts key l).foldl body state) := by
  have hloop : ∀ (l before : List α) (seen : List κ) (state : σ), (∀ a ∈ l, (key a).isSome) →
      before.map key = seen.map some →
        loopNew key body seen state l = .ok ((firstsAfter key before l).foldl body state) := by
    intro l
    induction l with
    | nil => exact fun _ _ _ _ _ => rfl
    | cons a l ih =>
      intro before seen state hkeys hseen
      obtain ⟨ha, hkeys⟩ := forall_mem_cons.mp hkeys
      obtain ⟨k, hk⟩ := Option.isSome_iff_exists.mp ha
      have hmem : key a ∈ before.map key ↔ k ∈ seen := by
        rw [hk, hseen]
        exact mem_map_of_injective fun _ _ => Option.some.inj
      simp only [loopNew, hk]
      by_cases hold : k ∈ seen
      · rw [if_pos hold, firstsAfter, if_pos (hmem.mpr hold)]
        exact ih before seen state hkeys hseen
      · rw [if_neg hold, firstsAfter, if_neg (mt hmem.mp hold), foldl_cons]
        apply ih (a :: before) (k :: seen) (body state a) hkeys
        rw [map_cons, map_cons, hseen, hk]
  exact hloop l [] [] state h rfl

theorem isSome_of_loopNew {seen : List κ} {state last : σ}
    (h : loopNew key body seen state l = .ok last) : ∀ a ∈ l, (key a).isSome := by
  induction l generalizing seen state with
  | nil => exact fun _ ha => absurd ha not_mem_nil
  | cons a l ih =>
    rw [loopNew] at h
    cases hk : key a with
    | none =>
      rw [hk] at h
      cases h
    | some k =>
      rw [forall_mem_cons, hk]
      refine ⟨rfl, ?_⟩
      simp only [hk] at h
      split at h
      · exact ih h
      · exact ih h

/-! ## §4 Elements and those before them -/

/-- Each element of the list is in the relation to those before it, where `done` came earlier. -/
def EachAfter (P : List α → α → Prop) (done todo : List α) : Prop :=
  ∀ before a after, todo = before ++ a :: after → P (done ++ before) a

variable {P : List α → α → Prop} {done todo : List α} {a : α}

theorem eachAfter_nil (P : List α → α → Prop) (done : List α) : EachAfter P done [] :=
  fun _ _ _ heq => absurd heq.symm (append_ne_nil_of_right_ne_nil _ (cons_ne_nil _ _))

theorem eachAfter_cons_iff :
    EachAfter P done (a :: todo) ↔ P done a ∧ EachAfter P (done ++ [a]) todo := by
  constructor
  · intro hall
    refine ⟨?_, fun before b after heq => ?_⟩
    · have hfirst := hall [] a todo rfl
      rwa [append_nil] at hfirst
    · have hrest := hall (a :: before) b after (by rw [heq]; rfl)
      rwa [append_assoc, singleton_append]
  · rintro ⟨hfirst, hrest⟩ before b after heq
    cases before with
    | nil =>
      obtain ⟨rfl, -⟩ := List.cons.inj heq
      rwa [append_nil]
    | cons b' before =>
      obtain ⟨rfl, hrest'⟩ := List.cons.inj heq
      have hlater := hrest before b after hrest'
      rwa [append_assoc, singleton_append] at hlater

/-! ## §5 Searches by key -/

/-- A search by its key finds each element with the property, if no such element comes after another
one of its class. -/
theorem find?_key_iff_pairwise {key : α → κ} {p : α → Prop} (hnodup : l.Nodup) :
    (∀ a ∈ l, p a → l.find? (key · = key a) = some a) ↔
      l.Pairwise fun b a => key b = key a → ¬ p a := by
  induction l with
  | nil => simp
  | cons b l ih =>
    obtain ⟨hb, hnodup⟩ := nodup_cons.mp hnodup
    rw [pairwise_cons, ← ih hnodup, forall_mem_cons]
    have hfirst : ∀ a, key b = key a → (b :: l).find? (key · = key a) = some b := by
      intro a hkey
      simp [hkey]
    have hrest : ∀ a, ¬ key b = key a →
        (b :: l).find? (key · = key a) = l.find? (key · = key a) := by
      intro a hkey
      simp [hkey]
    constructor
    · rintro ⟨-, hfind⟩
      refine ⟨fun a ha hkey hp => ?_, fun a ha hp => ?_⟩
      -- the search stops at `b`, which is another element than `a`
      · have hfound := hfind a ha hp
        rw [hfirst a hkey] at hfound
        exact hb (Option.some.inj hfound ▸ ha)
      · have hfound := hfind a ha hp
        by_cases hkey : key b = key a
        · rw [hfirst a hkey] at hfound
          exact absurd (Option.some.inj hfound ▸ ha) hb
        · rwa [hrest a hkey] at hfound
    · rintro ⟨hnone, hfind⟩
      refine ⟨fun _ => hfirst b rfl, fun a ha hp => ?_⟩
      rw [hrest a fun hkey => hnone a ha hkey hp]
      exact hfind a ha hp

end Ace3.Lib.Firsts
