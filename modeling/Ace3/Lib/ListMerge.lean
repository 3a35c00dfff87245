import Ace3.Lib.OrderedDict
import Mathlib.Data.List.Basic
import Mathlib.Tactic.SplitIfs

/-!
# Merging Lists with Identities

A list is merged into another one: an element with the identity of an element of the base list
takes its place, and any other one comes last if there is no equal one yet. Elements are equal when
they are of one class, and not every element has an identity.
-/

set_option linter.unusedSectionVars false

namespace Ace3.Lib.ListMerge

open List

variable {α β ι : Type*} [DecidableEq β] [DecidableEq ι]

/-! ## §1 Places -/

def lastAt (identity : α → Option ι) (i : ι) : List α → Option Nat
  | [] => none
  | a :: l =>
    match lastAt identity i l with
    | some n => some (n + 1)
    | none => if identity a = some i then some 0 else none

variable {identity : α → Option ι} {cls : α → β} {i j : ι} {l l' : List α} {a : α} {n : Nat}

theorem lastAt_congr (h : l.map identity = l'.map identity) :
    lastAt identity i l = lastAt identity i l' := by
  induction l generalizing l' with
  | nil =>
    cases l' with
    | nil => rfl
    | cons _ _ => cases h
  | cons a l ih =>
    cases l' with
    | nil => cases h
    | cons a' l' =>
      obtain ⟨ha, hl⟩ := List.cons.inj h
      rw [lastAt, lastAt, ih hl, ha]

theorem getElem_of_lastAt (h : lastAt identity i l = some n) :
    ∃ a, l[n]? = some a ∧ identity a = some i := by
  induction l generalizing n with
  | nil => cases h
  | cons a l ih =>
    rw [lastAt] at h
    cases hlast : lastAt identity i l with
    | some m =>
      simp only [hlast, Option.some.injEq] at h
      obtain ⟨b, hb, hid⟩ := ih hlast
      exact ⟨b, h ▸ hb, hid⟩
    | none =>
      simp only [hlast] at h
      split_ifs at h with hid
      exact ⟨a, Option.some.inj h ▸ rfl, hid⟩

theorem lastAt_eq_none_iff : lastAt identity i l = none ↔ ∀ a ∈ l, identity a ≠ some i := by
  induction l with
  | nil => simp [lastAt]
  | cons a l ih =>
    rw [forall_mem_cons, ← ih, lastAt]
    cases lastAt identity i l with
    | some n => simp
    | none => by_cases hid : identity a = some i <;> simp [hid]

theorem lastAt_append_of_ne (h : identity a ≠ some i) :
    lastAt identity i (l ++ [a]) = lastAt identity i l := by
  induction l with
  | nil => simp [lastAt, h]
  | cons b l ih => rw [cons_append, lastAt, lastAt, ih]

theorem lastAt_append_self (h : identity a = some i) :
    lastAt identity i (l ++ [a]) = some l.length := by
  induction l with
  | nil => simp [lastAt, h]
  | cons b l ih => rw [cons_append, lastAt, ih, length_cons]

theorem map_set (h : (l[n]?).map identity = some (identity a)) :
    (l.set n a).map identity = l.map identity := by
  rw [List.map_set]
  apply ext_getElem?
  intro m
  rw [List.getElem?_set]
  split_ifs with hm hlt
  · rw [← hm, List.getElem?_map, h]
  · rw [← hm, List.getElem?_map]
    rw [length_map, Nat.not_lt] at hlt
    rw [List.getElem?_eq_none hlt, Option.map_none]
  · rfl

/-! ## §2 The merge -/

/-- One element is merged into the list; `slots` are the places of the identities in the base. -/
def mergeItem (identity : α → Option ι) (cls : α → β) (slots : ι → Option Nat) (result : List α)
    (a : α) : List α :=
  match (identity a).bind slots with
  | some n => result.set n a
  | none => if result.any fun e => cls e = cls a then result else result ++ [a]

/-- The elements are merged into the base, one after the other. -/
def merge (identity : α → Option ι) (cls : α → β) (base items : List α) : List α :=
  items.foldl (mergeItem identity cls fun i => lastAt identity i base) base

variable {slots : ι → Option Nat} {base items merged : List α}

theorem mergeItem_cases (identity : α → Option ι) (cls : α → β) (slots : ι → Option Nat)
    (result : List α) (a : α) :
    (∃ i n, identity a = some i ∧ slots i = some n ∧
      mergeItem identity cls slots result a = result.set n a) ∨
    (∀ i, identity a = some i → slots i = none) ∧
      ((∃ e ∈ result, cls e = cls a) ∧ mergeItem identity cls slots result a = result ∨
        (¬ ∃ e ∈ result, cls e = cls a) ∧
          mergeItem identity cls slots result a = result ++ [a]) := by
  unfold mergeItem
  cases hslot : (identity a).bind slots with
  | some n =>
    obtain ⟨i, hi, hn⟩ := Option.bind_eq_some_iff.mp hslot
    exact Or.inl ⟨i, n, hi, hn, rfl⟩
  | none =>
    right
    refine ⟨fun i hi => by rwa [hi] at hslot, ?_⟩
    simp only
    split_ifs with hany
    · obtain ⟨e, he, hcls⟩ := any_eq_true.mp hany
      exact Or.inl ⟨⟨e, he, of_decide_eq_true hcls⟩, rfl⟩
    · refine Or.inr ⟨?_, rfl⟩
      rintro ⟨e, he, hcls⟩
      exact hany (any_eq_true.mpr ⟨e, he, decide_eq_true hcls⟩)

/-! ## §3 What is in a merged list -/

def Placed (identity : α → Option ι) (slots : ι → Option Nat) (result : List α) : Prop :=
  ∀ i n, slots i = some n → lastAt identity i result = some n

theorem Placed.map_set (hplaced : Placed identity slots l) (hi : identity a = some i)
    (hn : slots i = some n) : (l.set n a).map identity = l.map identity := by
  obtain ⟨b, hb, hid⟩ := getElem_of_lastAt (hplaced i n hn)
  exact ListMerge.map_set (by rw [hb, Option.map_some, hid, hi])

theorem Placed.mergeItem (hplaced : Placed identity slots l) (a : α) :
    Placed identity slots (mergeItem identity cls slots l a) := by
  intro j m hm
  obtain ⟨i, n, hi, hn, heq⟩ | ⟨hnone, ⟨-, heq⟩ | ⟨-, heq⟩⟩ := mergeItem_cases identity cls slots l a
  · rw [heq, lastAt_congr (hplaced.map_set hi hn)]
    exact hplaced j m hm
  · rw [heq]
    exact hplaced j m hm
  · rw [heq, lastAt_append_of_ne fun hj => ?_]
    · exact hplaced j m hm
    · rw [hnone j hj] at hm
      cases hm

theorem mem_merge_of_mem_base {b : α} (hb : b ∈ base) :
    b ∈ merge identity cls base items ∨
      ∃ a ∈ items, identity b ≠ none ∧ identity a = identity b := by
  have hfold : ∀ result : List α, Placed identity (fun i => lastAt identity i base) result →
      b ∈ result → b ∈ items.foldl (mergeItem identity cls fun i => lastAt identity i base) result ∨
        ∃ a ∈ items, identity b ≠ none ∧ identity a = identity b := by
    induction items with
    | nil => exact fun result _ hmem => Or.inl hmem
    | cons a items ih =>
      intro result hplaced hmem
      have hlater : b ∈ mergeItem identity cls (fun i => lastAt identity i base) result a →
          b ∈ (a :: items).foldl (mergeItem identity cls fun i => lastAt identity i base) result ∨
            ∃ v ∈ a :: items, identity b ≠ none ∧ identity v = identity b := by
        intro hmem'
        rcases ih _ (hplaced.mergeItem a) hmem' with hkept | ⟨v, hv, hid⟩
        · exact Or.inl hkept
        · exact Or.inr ⟨v, mem_cons_of_mem a hv, hid⟩
      obtain ⟨i, n, hi, hn, heq⟩ | ⟨-, ⟨-, heq⟩ | ⟨-, heq⟩⟩ :=
        mergeItem_cases identity cls (fun i => lastAt identity i base) result a
      · by_cases hid : identity b = some i
        · exact Or.inr ⟨a, mem_cons_self, by rw [hid]; simp, hi.trans hid.symm⟩
        · -- the slot has another element than `b`
          apply hlater
          rw [heq]
          obtain ⟨m, hm⟩ := mem_iff_getElem?.mp hmem
          have hne : n ≠ m := by
            rintro rfl
            obtain ⟨e, he, hide⟩ := getElem_of_lastAt (hplaced i n hn)
            rw [hm] at he
            exact hid (Option.some.inj he ▸ hide)
          exact mem_iff_getElem?.mpr ⟨m, by rw [List.getElem?_set_ne hne, hm]⟩
      · exact hlater (by rwa [heq])
      · exact hlater (by rw [heq]; exact mem_append_left _ hmem)
  exact hfold base (fun i n hn => hn) hb

theorem mem_or_mem_of_mem_merge {e : α} (he : e ∈ merge identity cls base items) :
    e ∈ base ∨ e ∈ items := by
  have hfold : ∀ result : List α,
      e ∈ items.foldl (mergeItem identity cls fun i => lastAt identity i base) result →
        e ∈ result ∨ e ∈ items := by
    clear he
    induction items with
    | nil => exact fun result hmem => Or.inl hmem
    | cons a items ih =>
      intro result hmem
      have hstep : e ∈ mergeItem identity cls (fun i => lastAt identity i base) result a →
          e ∈ result ∨ e = a := by
        obtain ⟨i, n, -, -, heq⟩ | ⟨-, ⟨-, heq⟩ | ⟨-, heq⟩⟩ :=
          mergeItem_cases identity cls (fun i => lastAt identity i base) result a
        · rw [heq]
          exact mem_or_eq_of_mem_set
        · rw [heq]
          exact Or.inl
        · rw [heq, mem_append, mem_singleton]
          exact id
      rcases ih _ hmem with hmem | hmem
      · exact (hstep hmem).imp_right fun heq : e = a => heq ▸ mem_cons_self
      · exact Or.inr (mem_cons_of_mem a hmem)
  exact hfold base he

/-- No two different elements of the list have one identity. -/
def OneEach (identity : α → Option ι) (cls : α → β) (items : List α) : Prop :=
  ∀ v ∈ items, ∀ w ∈ items, identity v ≠ none → identity v = identity w → cls v = cls w

def Respects (identity : α → Option ι) (cls : α → β) : Prop :=
  ∀ v w, cls v = cls w → identity v = identity w

/-- The elements merged so far are in the list, and each is equal to the last of its identity. -/
structure Merged (identity : α → Option ι) (cls : α → β) (base done result : List α) : Prop where
  placed : Placed identity (fun i => lastAt identity i base) result
  source : ∀ e ∈ result, e ∈ base ∨ e ∈ done
  present : ∀ v ∈ done, ∃ e ∈ result, cls e = cls v
  last : ∀ v ∈ done, ∀ i, identity v = some i →
    ∃ n e, lastAt identity i result = some n ∧ result[n]? = some e ∧ cls e = cls v

theorem Merged.nil : Merged identity cls base [] base where
  placed _ _ hn := hn
  source _ he := Or.inl he
  present _ hv := absurd hv not_mem_nil
  last _ hv := absurd hv not_mem_nil

variable {done result : List α}

theorem Merged.replace (hmerged : Merged identity cls base done result)
    (hrespects : Respects identity cls) (hone : OneEach identity cls (done ++ [a]))
    (hi : identity a = some i) (hn : lastAt identity i base = some n) :
    Merged identity cls base (done ++ [a]) (result.set n a) := by
  have hmap := hmerged.placed.map_set hi hn
  obtain ⟨old, hold, hidold⟩ := getElem_of_lastAt (hmerged.placed i n hn)
  have hlt : n < result.length := (List.getElem?_eq_some_iff.mp hold).1
  have hself : (result.set n a)[n]? = some a := by rw [List.getElem?_set_self hlt]
  -- what has the identity of `a` is equal to it
  have hsame : ∀ v ∈ done, identity v = some i → cls a = cls v := fun v hv hid =>
    hone a (mem_append_right _ (mem_singleton_self a)) v (mem_append_left _ hv)
      (by rw [hi]; simp) (hi.trans hid.symm)
  refine ⟨fun j m hm => ?_, fun e he => ?_, fun v hv => ?_, fun v hv j hj => ?_⟩
  · rw [lastAt_congr hmap]
    exact hmerged.placed j m hm
  · rcases mem_or_eq_of_mem_set he with he | rfl
    · exact (hmerged.source e he).imp_right (mem_append_left _)
    · exact Or.inr (mem_append_right _ (mem_singleton_self e))
  · rcases mem_append.mp hv with hv | hv
    · obtain ⟨e, he, hcls⟩ := hmerged.present v hv
      obtain ⟨m, hm⟩ := mem_iff_getElem?.mp he
      by_cases hnm : n = m
      · -- `v` was in the slot, so it has the identity of `a`
        subst hnm
        rw [hold] at hm
        obtain rfl := Option.some.inj hm
        exact ⟨a, mem_of_getElem? hself, hsame v hv ((hrespects _ _ hcls).symm.trans hidold)⟩
      · exact ⟨e, mem_of_getElem? ((List.getElem?_set_ne hnm).trans hm), hcls⟩
    · obtain rfl := mem_singleton.mp hv
      exact ⟨v, mem_of_getElem? hself, rfl⟩
  · rw [lastAt_congr hmap]
    by_cases hji : j = i
    · subst hji
      refine ⟨n, a, hmerged.placed j n hn, hself, ?_⟩
      rcases mem_append.mp hv with hv | hv
      · exact hsame v hv hj
      · rw [mem_singleton.mp hv]
    · rcases mem_append.mp hv with hv | hv
      · obtain ⟨m, e, hm, he, hcls⟩ := hmerged.last v hv j hj
        have hnm : n ≠ m := by
          rintro rfl
          rw [hold] at he
          obtain rfl := Option.some.inj he
          obtain ⟨e', he', hid'⟩ := getElem_of_lastAt hm
          rw [hold] at he'
          obtain rfl := Option.some.inj he'
          exact hji (Option.some.inj (hid'.symm.trans hidold))
        exact ⟨m, e, hm, (List.getElem?_set_ne hnm).trans he, hcls⟩
      · rw [mem_singleton.mp hv, hi] at hj
        exact absurd (Option.some.inj hj).symm hji

theorem Merged.append (hmerged : Merged identity cls base done result)
    (hone : OneEach identity cls (done ++ [a]))
    (hslot : ∀ i, identity a = some i → lastAt identity i base = none) :
    Merged identity cls base (done ++ [a]) (result ++ [a]) := by
  have hself : a ∈ result ++ [a] := mem_append_right _ (mem_singleton_self a)
  refine ⟨fun j m hm => ?_, fun e he => ?_, fun v hv => ?_, fun v hv j hj => ?_⟩
  · rw [lastAt_append_of_ne fun hj => ?_]
    · exact hmerged.placed j m hm
    · have hnone := hslot j hj
      simp only [hnone, reduceCtorEq] at hm
  · rcases mem_append.mp he with he | he
    · exact (hmerged.source e he).imp_right (mem_append_left _)
    · exact Or.inr (mem_append_right _ he)
  · rcases mem_append.mp hv with hv | hv
    · obtain ⟨e, he, hcls⟩ := hmerged.present v hv
      exact ⟨e, mem_append_left _ he, hcls⟩
    · exact ⟨a, hself, by rw [mem_singleton.mp hv]⟩
  · by_cases ha : identity a = some j
    · refine ⟨result.length, a, lastAt_append_self ha, by simp, ?_⟩
      exact hone a (mem_append_right _ (mem_singleton_self a)) v hv (by rw [ha]; simp)
        (ha.trans hj.symm)
    · rcases mem_append.mp hv with hv | hv
      · obtain ⟨m, e, hm, he, hcls⟩ := hmerged.last v hv j hj
        refine ⟨m, e, (lastAt_append_of_ne ha).trans hm, ?_, hcls⟩
        rw [List.getElem?_append_left (List.getElem?_eq_some_iff.mp he).1, he]
      · exact absurd (mem_singleton.mp hv ▸ hj) ha

theorem Merged.skip (hmerged : Merged identity cls base done result)
    (hrespects : Respects identity cls) (hone : OneEach identity cls (done ++ [a]))
    (hslot : ∀ i, identity a = some i → lastAt identity i base = none)
    (hfound : ∃ e ∈ result, cls e = cls a) : Merged identity cls base (done ++ [a]) result := by
  refine ⟨hmerged.placed, fun e he => (hmerged.source e he).imp_right (mem_append_left _),
    fun v hv => ?_, fun v hv j hj => ?_⟩
  · rcases mem_append.mp hv with hv | hv
    · exact hmerged.present v hv
    · exact mem_singleton.mp hv ▸ hfound
  · rcases mem_append.mp hv with hv | hv
    · exact hmerged.last v hv j hj
    · obtain rfl := mem_singleton.mp hv
      obtain ⟨e, he, hcls⟩ := hfound
      have hide := (hrespects _ _ hcls).trans hj
      cases hlast : lastAt identity j result with
      | none => exact absurd hide (lastAt_eq_none_iff.mp hlast e he)
      | some n =>
        obtain ⟨b, hb, hidb⟩ := getElem_of_lastAt hlast
        refine ⟨n, b, rfl, hb, ?_⟩
        -- no element of the base has this identity
        rcases hmerged.source b (mem_of_getElem? hb) with hbase | hdone
        · exact absurd hidb (lastAt_eq_none_iff.mp (hslot j hj) b hbase)
        · exact hone b (mem_append_left _ hdone) v
            (mem_append_right _ (mem_singleton_self v)) (by rw [hidb]; simp)
            (hidb.trans hj.symm)

theorem merged_foldl (hrespects : Respects identity cls) (hmerged : Merged identity cls base done result)
    (hone : OneEach identity cls (done ++ items)) :
    Merged identity cls base (done ++ items)
      (items.foldl (mergeItem identity cls fun i => lastAt identity i base) result) := by
  induction items generalizing done result with
  | nil => simpa using hmerged
  | cons a items ih =>
    rw [append_cons] at hone ⊢
    have hpart : OneEach identity cls (done ++ [a]) := fun v hv w hw =>
      hone v (mem_append_left _ hv) w (mem_append_left _ hw)
    refine ih ?_ hone
    obtain ⟨i, n, hi, hn, heq⟩ | ⟨hslot, ⟨hfound, heq⟩ | ⟨-, heq⟩⟩ :=
      mergeItem_cases identity cls (fun i => lastAt identity i base) result a
    · rw [heq]
      exact hmerged.replace hrespects hpart hi hn
    · rw [heq]
      exact hmerged.skip hrespects hpart hslot hfound
    · rw [heq]
      exact hmerged.append hpart hslot

theorem merged_merge (hrespects : Respects identity cls) (hone : OneEach identity cls items)
    (base : List α) : Merged identity cls base items (merge identity cls base items) :=
  merged_foldl hrespects Merged.nil hone

/-! ## §4 Merging again -/

/-- The list has every element already, as the last of its identity. -/
structure Settled (identity : α → Option ι) (cls : α → β) (base items : List α) : Prop where
  last : ∀ v ∈ items, ∀ i, identity v = some i →
    ∃ n e, lastAt identity i base = some n ∧ base[n]? = some e ∧ cls e = cls v
  present : ∀ v ∈ items, ∃ e ∈ base, cls e = cls v

theorem map_foldl_of_settled (hsettled : Settled identity cls base items)
    (hresult : result.map cls = base.map cls) :
    (items.foldl (mergeItem identity cls fun i => lastAt identity i base) result).map cls =
      base.map cls := by
  induction items generalizing result with
  | nil => exact hresult
  | cons a items ih =>
    refine ih ⟨fun v hv => hsettled.last v (mem_cons_of_mem a hv),
      fun v hv => hsettled.present v (mem_cons_of_mem a hv)⟩ ?_
    obtain ⟨i, n, hi, hn, heq⟩ | ⟨-, ⟨-, heq⟩ | ⟨hnew, -⟩⟩ :=
      mergeItem_cases identity cls (fun i => lastAt identity i base) result a
    · -- the slot has an equal element
      obtain ⟨m, e, hm, he, hcls⟩ := hsettled.last a mem_cons_self i hi
      obtain rfl : m = n := Option.some.inj (hm.symm.trans hn)
      rw [heq, List.map_set, hresult, ← hcls]
      apply ext_getElem?
      intro k
      rw [List.getElem?_set]
      split_ifs with hk hlt
      · rw [← hk, List.getElem?_map, he, Option.map_some]
      · rw [← hk]
        exact (List.getElem?_eq_none (Nat.not_lt.mp hlt)).symm
      · rfl
    · rw [heq, hresult]
    · obtain ⟨e, he, hcls⟩ := hsettled.present a mem_cons_self
      obtain ⟨e', he', hcls'⟩ := mem_map.mp (hresult ▸ mem_map_of_mem he)
      exact absurd ⟨e', he', hcls'.trans hcls⟩ hnew

theorem map_merge_merge (hrespects : Respects identity cls) (hone : OneEach identity cls items)
    (base : List α) :
    (merge identity cls (merge identity cls base items) items).map cls =
      (merge identity cls base items).map cls := by
  have hmerged := merged_merge hrespects hone base
  exact map_foldl_of_settled ⟨hmerged.last, hmerged.present⟩ rfl

theorem map_merge_self (hone : OneEach identity cls items) :
    (merge identity cls items items).map cls = items.map cls := by
  refine map_foldl_of_settled ⟨fun v hv i hi => ?_, fun v hv => ⟨v, hv, rfl⟩⟩ rfl
  cases hlast : lastAt identity i items with
  | none => exact absurd hi (lastAt_eq_none_iff.mp hlast v hv)
  | some n =>
    obtain ⟨e, he, hid⟩ := getElem_of_lastAt hlast
    exact ⟨n, e, rfl, he, hone e (mem_of_getElem? he) v hv (by rw [hid]; simp)
      (hid.trans hi.symm)⟩

end Ace3.Lib.ListMerge
