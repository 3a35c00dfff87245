import Mathlib.Data.List.Nodup
import Mathlib.Order.Lattice

/-!
# Stable Sorting by a Key

A stable sort keeps elements with equal keys in the order in which they stood. On a list without
repetitions this determines the result, pair by pair.
-/

namespace Ace3.Lib.StableSort

open List

variable {α κ : Type*} [LinearOrder κ] {key : α → κ} {l : List α} {a b : α}

/-! ## §1 Sorting -/

/-- The elements by ascending key; equal keys stay in their order. -/
def sortBy (key : α → κ) (l : List α) : List α :=
  l.mergeSort fun a b => key a ≤ key b

theorem sortBy_perm (key : α → κ) (l : List α) : (sortBy key l).Perm l :=
  mergeSort_perm l _

@[simp] theorem mem_sortBy : a ∈ sortBy key l ↔ a ∈ l :=
  (sortBy_perm key l).mem_iff

theorem pairwise_sortBy (key : α → κ) (l : List α) :
    (sortBy key l).Pairwise fun a b => key a ≤ key b := by
  have hsorted := @pairwise_mergeSort _ (fun a b => decide (key a ≤ key b))
    (fun a b c hab hbc => by simpa using le_trans (by simpa using hab) (by simpa using hbc))
    (fun a b => by simpa using le_total (key a) (key b)) l
  exact hsorted.imp fun h => by simpa using h

theorem sortBy_map {β : Type*} (f : β → α) (l : List β) :
    sortBy key (l.map f) = (sortBy (key ∘ f) l).map f :=
  (map_mergeSort (f := f) (r := fun a b => decide (key (f a) ≤ key (f b)))
    (s := fun a b => decide (key a ≤ key b)) fun _ _ _ _ => rfl).symm

/-! ## §2 Which comes first -/

theorem pair_sublist_total (ha : a ∈ l) (hb : b ∈ l) (hne : a ≠ b) :
    [a, b].Sublist l ∨ [b, a].Sublist l := by
  induction l with
  | nil => cases ha
  | cons c l ih =>
    rcases mem_cons.mp ha with rfl | hrest
    · have hrest := (mem_cons.mp hb).resolve_left hne.symm
      exact .inl (.cons_cons a (singleton_sublist.mpr hrest))
    · rcases mem_cons.mp hb with rfl | hrest'
      · exact .inr (.cons_cons b (singleton_sublist.mpr hrest))
      · exact (ih hrest hrest').imp (.cons c) (.cons c)

theorem not_pair_sublist_swap (hnodup : l.Nodup) (h : [a, b].Sublist l) : ¬ [b, a].Sublist l := by
  induction l with
  | nil => cases h
  | cons c l ih =>
    intro hswap
    obtain ⟨hc, hnodup⟩ := nodup_cons.mp hnodup
    cases h with
    | cons _ h =>
      cases hswap with
      | cons _ hswap => exact ih hnodup h hswap
      | cons_cons _ _ => exact hc (h.subset (by simp))
    | cons_cons _ h =>
      cases hswap with
      | cons _ hswap => exact hc (hswap.subset (by simp))
      | cons_cons _ _ => exact hc (h.subset (by simp))

theorem pair_sublist_sortBy_iff (hnodup : l.Nodup) (ha : a ∈ l) (hb : b ∈ l) (hne : a ≠ b) :
    [a, b].Sublist (sortBy key l) ↔ key a < key b ∨ key a = key b ∧ [a, b].Sublist l := by
  have hsorted : (sortBy key l).Nodup := (sortBy_perm key l).nodup_iff.mpr hnodup
  have hascends {c d : α} (h : [c, d].Sublist (sortBy key l)) : key c ≤ key d := by
    have hpair := (pairwise_sortBy key l).sublist h
    simpa using hpair
  -- the sort is stable: what stood in ascending order is not swapped
  have hstable {c d : α} (hkey : key c ≤ key d) (h : [c, d].Sublist l) :
      [c, d].Sublist (sortBy key l) := by
    apply pair_sublist_mergeSort _ _ _ h
    · intro x y z hxy hyz
      simpa using le_trans (by simpa using hxy) (by simpa using hyz)
    · intro x y
      simpa using le_total (key x) (key y)
    · simpa using hkey
  constructor
  · intro h
    rcases (hascends h).lt_or_eq with hlt | heq
    · exact .inl hlt
    · refine .inr ⟨heq, (pair_sublist_total ha hb hne).resolve_right fun hswap => ?_⟩
      exact not_pair_sublist_swap hsorted h (hstable heq.ge hswap)
  · rintro (hlt | ⟨heq, h⟩)
    · have hmem {c : α} (hc : c ∈ l) : c ∈ sortBy key l := mem_sortBy.mpr hc
      refine (pair_sublist_total (hmem ha) (hmem hb) hne).resolve_right fun hswap => ?_
      exact absurd (hascends hswap) (not_le.mpr hlt)
    · exact hstable heq.le h

theorem sortBy_eq_of_perm {l' : List α} (hdistinct : (l.map key).Nodup) (h : l.Perm l') :
    sortBy key l = sortBy key l' := by
  have hinj : ∀ a ∈ l, ∀ b ∈ l, key a = key b → a = b := inj_on_of_nodup_map hdistinct
  refine List.Perm.eq_of_pairwise ?_ (pairwise_sortBy key l) (pairwise_sortBy key l')
    ((sortBy_perm key l).trans (h.trans (sortBy_perm key l').symm))
  intro a b ha hb hab hba
  have hb : b ∈ l := h.mem_iff.mpr (mem_sortBy.mp hb)
  exact hinj a (mem_sortBy.mp ha) b hb (le_antisymm hab hba)

theorem sortBy_filter (hdistinct : (l.map key).Nodup) (p : α → Bool) :
    sortBy key (l.filter p) = (sortBy key l).filter p := by
  have hinj : ∀ a ∈ l, ∀ b ∈ l, key a = key b → a = b := inj_on_of_nodup_map hdistinct
  refine List.Perm.eq_of_pairwise ?_ (pairwise_sortBy key _) ((pairwise_sortBy key l).filter p)
    ((sortBy_perm key _).trans ((sortBy_perm key l).symm.filter p))
  intro a b ha hb hab hba
  have ha : a ∈ l := mem_of_mem_filter (mem_sortBy.mp ha)
  have hb : b ∈ l := mem_sortBy.mp (mem_of_mem_filter hb)
  exact hinj a ha b hb (le_antisymm hab hba)

theorem mem_take_sortBy_iff {n : ℕ} (hdistinct : (l.map key).Nodup) :
    a ∈ (sortBy key l).take n ↔ a ∈ l ∧ l.countP (fun b => key b < key a) < n := by
  rw [← (sortBy_perm key l).countP_eq]
  have hnodup : ((sortBy key l).map key).Nodup :=
    ((sortBy_perm key l).map key).nodup_iff.mpr hdistinct
  by_cases ha : a ∈ l
  · obtain ⟨before, after, hsplit⟩ := append_of_mem (mem_sortBy.mpr ha : a ∈ sortBy key l)
    have hsorted := pairwise_sortBy key l
    rw [hsplit, pairwise_append, pairwise_cons] at hsorted
    rw [hsplit, map_append, map_cons, nodup_append] at hnodup
    -- exactly what stands before it is smaller
    have hbefore : before.countP (fun b => key b < key a) = before.length := by
      refine countP_eq_length.mpr fun b hb => decide_eq_true ?_
      refine lt_of_le_of_ne (hsorted.2.2 b hb a mem_cons_self) ?_
      exact hnodup.2.2 _ (mem_map_of_mem hb) _ mem_cons_self
    have hafter : (a :: after).countP (fun b => key b < key a) = 0 := by
      refine countP_eq_zero.mpr fun b hb => ?_
      rcases mem_cons.mp hb with rfl | hb
      · simp
      · simpa using hsorted.2.1.1 b hb
    have hnot : a ∉ before := fun hb =>
      hnodup.2.2 _ (mem_map_of_mem hb) _ mem_cons_self rfl
    rw [hsplit, countP_append, hbefore, hafter, take_append, mem_append]
    constructor
    · rintro (h | h)
      · exact absurd (mem_of_mem_take h) hnot
      · refine ⟨ha, ?_⟩
        by_contra hle
        rw [Nat.sub_eq_zero_of_le (by omega), take_zero] at h
        cases h
    · rintro ⟨-, hlt⟩
      obtain ⟨k, hk⟩ : ∃ k, n - before.length = k + 1 := ⟨n - before.length - 1, by omega⟩
      rw [hk]
      exact .inr (by simp)
  · exact ⟨fun h => absurd (mem_sortBy.mp (mem_of_mem_take h)) ha, fun h => absurd h.1 ha⟩

/-! ## §3 Elements in order -/

theorem sortBy_of_pairwise (h : l.Pairwise fun a b => key a ≤ key b) : sortBy key l = l :=
  mergeSort_of_pairwise (h.imp fun hle => decide_eq_true hle)

theorem filter_mergeSort {le : α → α → Bool} (trans : ∀ a b c, le a b → le b c → le a c)
    (total : ∀ a b, le a b || le b a) {p : α → Bool}
    (hordered : (l.filter p).Pairwise fun a b => le a b) :
    (l.mergeSort le).filter p = l.filter p := by
  have hsublist : (l.filter p).Sublist (l.mergeSort le) :=
    sublist_mergeSort trans total hordered filter_sublist
  have hfiltered : (l.filter p).Sublist ((l.mergeSort le).filter p) := by
    have h := hsublist.filter p
    simpa only [filter_filter, Bool.and_self] using h
  -- both have the same length, since sorting only permutes
  have hlength : (l.filter p).length = ((l.mergeSort le).filter p).length :=
    ((mergeSort_perm l le).filter p).length_eq.symm
  exact (hfiltered.eq_of_length hlength).symm

end Ace3.Lib.StableSort
