import Mathlib.Data.List.Forall2

/-!
# Maps and Filters That May Fail

`List.mapM` and `List.filterM` with functions that may fail: when there is a result, and what it
is.
-/

namespace Ace3.Lib.FallibleMap

open List

/-! ## §1 Options -/

section Option

variable {α β : Type*} {f : α → Option β} {l : List α} {l' : List β}

theorem mapM_eq_some_iff :
    l.mapM f = some l' ↔ List.Forall₂ (fun a b => f a = some b) l l' := by
  induction l generalizing l' with
  | nil => simp [eq_comm]
  | cons a l ih =>
    simp only [mapM_cons, Option.bind_eq_bind, Option.bind_eq_some_iff, ih,
      forall₂_cons_left_iff, Option.pure_def, Option.some.injEq]
    constructor
    · rintro ⟨b, hb, rest, hrest, rfl⟩
      exact ⟨b, rest, hb, hrest, rfl⟩
    · rintro ⟨b, rest, hb, hrest, rfl⟩
      exact ⟨b, hb, rest, hrest, rfl⟩

theorem exists_mapM_iff : (∃ l', l.mapM f = some l') ↔ ∀ a ∈ l, ∃ b, f a = some b := by
  simp only [mapM_eq_some_iff]
  induction l with
  | nil => simp
  | cons a l ih =>
    rw [forall_mem_cons, ← ih]
    constructor
    · rintro ⟨l', h⟩
      cases h with
      | cons hb hrest => exact ⟨⟨_, hb⟩, _, hrest⟩
    · rintro ⟨⟨b, hb⟩, l', hrest⟩
      exact ⟨b :: l', List.Forall₂.cons hb hrest⟩

theorem mapM_eq_some_map {g : α → β} (h : ∀ a, f a = some (g a)) (l : List α) :
    l.mapM f = some (l.map g) := by
  induction l with
  | nil => rfl
  | cons a l ih =>
    rw [mapM_cons, h, ih]
    rfl

theorem mem_mapM_iff {b : β} (h : l.mapM f = some l') : b ∈ l' ↔ ∃ a ∈ l, f a = some b := by
  have hresults := mapM_eq_some_iff.mp h
  clear h
  induction hresults with
  | nil => simp
  | cons hb _ ih =>
    rw [mem_cons, exists_mem_cons_iff, hb, Option.some_inj, eq_comm]
    exact or_congr_right ih

theorem exists_of_mapM {a : α} (h : l.mapM f = some l') (ha : a ∈ l) :
    ∃ b ∈ l', f a = some b := by
  obtain ⟨b, hb⟩ := exists_mapM_iff.mp ⟨l', h⟩ a ha
  exact ⟨b, (mem_mapM_iff h).mpr ⟨a, ha, hb⟩, hb⟩

end Option

/-! ## §2 Exceptions -/

section Except

variable {ε α β : Type} {l : List α}

private theorem filterAuxM_eq_ok {f : α → Except ε Bool} {p : α → Bool}
    (h : ∀ a ∈ l, f a = .ok (p a)) (acc : List α) :
    l.filterAuxM f acc = .ok ((l.filter p).reverse ++ acc) := by
  induction l generalizing acc with
  | nil => rfl
  | cons a l ih =>
    have hrest := ih fun b hb => h b (mem_cons_of_mem _ hb)
    simp only [List.filterAuxM, h a mem_cons_self, bind, Except.bind, hrest]
    cases hp : p a <;> simp [hp]

theorem filterM_eq_ok {f : α → Except ε Bool} {p : α → Bool} (h : ∀ a ∈ l, f a = .ok (p a)) :
    l.filterM f = .ok (l.filter p) := by
  simp [List.filterM, filterAuxM_eq_ok h, bind, Except.bind, pure, Except.pure]

theorem mapM_eq_ok {f : α → Except ε β} {g : α → β} (h : ∀ a ∈ l, f a = .ok (g a)) :
    l.mapM f = .ok (l.map g) := by
  induction l with
  | nil => rfl
  | cons a l ih =>
    have hrest := ih fun b hb => h b (mem_cons_of_mem _ hb)
    simp [mapM_cons, h a mem_cons_self, hrest, bind, Except.bind, pure, Except.pure]

theorem foldlM_cons_eq_ok_iff {f : β → α → Except ε β} {a : α} {b result : β} :
    (a :: l).foldlM f b = .ok result ↔ ∃ next, f b a = .ok next ∧ l.foldlM f next = .ok result := by
  rw [foldlM_cons]
  constructor
  · intro h
    cases hnext : f b a with
    | error error =>
      rw [hnext] at h
      cases h
    | ok next =>
      rw [hnext] at h
      exact ⟨next, rfl, h⟩
  · rintro ⟨next, hnext, h⟩
    rw [hnext]
    exact h

theorem foldlM_invariant {p : β → Prop} {f : β → α → Except ε β}
    (hstep : ∀ b a next, a ∈ l → p b → f b a = .ok next → p next) {b result : β} (hb : p b)
    (h : l.foldlM f b = .ok result) : p result := by
  induction l generalizing b with
  | nil =>
    cases h
    exact hb
  | cons a l ih =>
    obtain ⟨next, hnext, hrest⟩ := foldlM_cons_eq_ok_iff.mp h
    exact ih (fun b a next ha => hstep b a next (mem_cons_of_mem _ ha))
      (hstep b a next mem_cons_self hb hnext) hrest

theorem forall₂_of_mapM {f : α → Except ε β} {results : List β} (h : l.mapM f = .ok results) :
    List.Forall₂ (fun a b => f a = .ok b) l results := by
  induction l generalizing results with
  | nil =>
    cases h
    exact .nil
  | cons a l ih =>
    rw [mapM_cons] at h
    cases ha : f a with
    | error error =>
      rw [ha] at h
      cases h
    | ok first =>
      cases hrest : l.mapM f with
      | error error =>
        rw [ha, hrest] at h
        cases h
      | ok rest =>
        rw [ha, hrest] at h
        cases h
        exact .cons ha (ih hrest)

theorem exists_of_mem_mapM {f : α → Except ε β} {results : List β} {result : β}
    (h : l.mapM f = .ok results) (hresult : result ∈ results) : ∃ a ∈ l, f a = .ok result := by
  have hresults := forall₂_of_mapM h
  clear h
  induction hresults with
  | nil => cases hresult
  | cons ha _ ih => grind

theorem exists_result_of_mapM {f : α → Except ε β} {results : List β} {a : α}
    (h : l.mapM f = .ok results) (ha : a ∈ l) : ∃ result ∈ results, f a = .ok result := by
  have hresults := forall₂_of_mapM h
  clear h
  induction hresults with
  | nil => cases ha
  | cons hb _ ih => grind

end Except

end Ace3.Lib.FallibleMap
