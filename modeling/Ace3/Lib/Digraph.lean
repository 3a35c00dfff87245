import Mathlib.Logic.Relation
import Mathlib.Data.List.Chain
import Mathlib.Data.List.Perm.Subperm
import Mathlib.Data.Fintype.Card
import Mathlib.Data.Set.Finite.List

/-!
# Directed Graphs as Relations

A graph is a relation `r : α → α → Prop` on its nodes. This file collects what the
developments above it need about acyclic graphs with finitely many nodes:
-/

namespace Ace3.Lib.Digraph

open List
open Relation

variable {α : Type*} {r s : α → α → Prop}

/-! ## §1 Acyclic relations -/

def Acyclic (r : α → α → Prop) : Prop :=
  ∀ a, ¬ TransGen r a a

theorem Acyclic.mono (hs : Acyclic s) (hrs : ∀ a b, r a b → s a b) : Acyclic r :=
  fun a h => hs a (TransGen.mono hrs a a h)

theorem acyclic_of_no_edge (h : ∀ a b, ¬ r a b) : Acyclic r := by
  intro a hcycle
  obtain ⟨b, hab, -⟩ := TransGen.head'_iff.mp hcycle
  exact h a b hab

theorem acyclic_of_rank (rank : α → Nat) (h : ∀ a b, r a b → rank a < rank b) : Acyclic r := by
  intro a hcycle
  have key (b : α) (hab : TransGen r a b) : rank a < rank b := by
    induction hab with
    | single hab => exact h _ _ hab
    | tail _ hbc ih => exact ih.trans (h _ _ hbc)
  exact Nat.lt_irrefl _ (key a hcycle)

/-! ## §2 Adding one edge -/

/-- The graph `r` with the edge from `a` to `b` added. -/
def InsertEdge (r : α → α → Prop) (a b : α) : α → α → Prop :=
  fun x y => r x y ∨ (x = a ∧ y = b)

theorem transGen_insertEdge {a b x y : α} (h : TransGen (InsertEdge r a b) x y) :
    TransGen r x y ∨ (ReflTransGen r x a ∧ ReflTransGen r b y) := by
  induction h with
  | single hxy =>
    rcases hxy with hxy | ⟨rfl, rfl⟩
    · exact .inl (.single hxy)
    · exact .inr ⟨.refl, .refl⟩
  | tail _ hyz ih =>
    rcases hyz with hyz | ⟨rfl, rfl⟩
    · rcases ih with ih | ⟨hxa, hby⟩
      · exact .inl (ih.tail hyz)
      · exact .inr ⟨hxa, hby.tail hyz⟩
    · -- the last edge of the path is the new one: whatever came before reaches its source
      rcases ih with ih | ⟨hxa, -⟩
      · exact .inr ⟨ih.to_reflTransGen, .refl⟩
      · exact .inr ⟨hxa, .refl⟩

theorem acyclic_insertEdge_iff {a b : α} :
    Acyclic (InsertEdge r a b) ↔ Acyclic r ∧ ¬ ReflTransGen r b a := by
  constructor
  · intro h
    refine ⟨h.mono fun _ _ => Or.inl, fun hba => h a ?_⟩
    have hnew : InsertEdge r a b a b := .inr ⟨rfl, rfl⟩
    exact TransGen.head' hnew (ReflTransGen.mono (fun _ _ => Or.inl) b a hba)
  · rintro ⟨hr, hba⟩ c hcycle
    rcases transGen_insertEdge hcycle with h | ⟨hca, hbc⟩
    · exact hr c h
    · exact hba (hbc.trans hca)

/-! ## §3 Paths of an acyclic graph -/

theorem Acyclic.nodup_of_isChain (hr : Acyclic r) {path : List α} (h : path.IsChain r) :
    path.Nodup := by
  have hpath : path.IsChain (TransGen r) := h.imp fun _ _ => TransGen.single
  refine (isChain_iff_pairwise.mp hpath).imp ?_
  rintro a b hab rfl
  exact hr a hab

theorem Acyclic.length_le_of_isChain (hr : Acyclic r) {path support : List α}
    (h : path.IsChain r) (hsub : path ⊆ support) : path.length ≤ support.length :=
  (subperm_of_subset (hr.nodup_of_isChain h) hsub).length_le

theorem exists_cycle_of_predecessor {nodes : List α} {a : α} (ha : a ∈ nodes)
    (hpred : ∀ b ∈ nodes, ∃ b' ∈ nodes, r b' b) : ∃ b ∈ nodes, TransGen r b b := by
  by_contra hno
  -- without a cycle, the paths among these nodes are a well-founded order
  let path : { b // b ∈ nodes } → { b // b ∈ nodes } → Prop := fun b b' => TransGen r b.1 b'.1
  have htrans : IsTrans { b // b ∈ nodes } path := ⟨fun _ _ _ h h' => TransGen.trans h h'⟩
  have hirrefl : Std.Irrefl path := ⟨fun b h => hno ⟨b.1, b.2, h⟩⟩
  have hfinite : Finite { b // b ∈ nodes } := (finite_toSet nodes).to_subtype
  have hwf : WellFounded path := Finite.wellFounded_of_trans_of_irrefl path
  obtain ⟨b, -, hmin⟩ := hwf.has_min Set.univ ⟨⟨a, ha⟩, trivial⟩
  obtain ⟨b', hb', hstep⟩ := hpred b.1 b.2
  exact hmin ⟨b', hb'⟩ trivial (.single hstep)

/-! ## §4 Following a successor function -/

section Follow

variable {ε : Type*}

/-- `while node: if stop(node): return True; node = next(node)` and then `return False`,
with `fuel` iterations; the loop that would go on gives the error `diverges`. -/
def scan (next : α → Option α) (stop : α → Except ε Bool) (diverges : ε) :
    Nat → Option α → Except ε Bool
  | _, none => .ok false
  | 0, some _ => .error diverges
  | fuel + 1, some a => do
    if ← stop a then return true
    scan next stop diverges fuel (next a)

/-- The nodes that `while node: ...; node = next(node)` visits, within `fuel` iterations. -/
def chain (next : α → Option α) : Nat → Option α → Option (List α)
  | _, none => some []
  | 0, some _ => none
  | fuel + 1, some a => (chain next fuel (next a)).map (a :: ·)

@[simp] theorem chain_none (next : α → Option α) (fuel : Nat) : chain next fuel none = some [] := by
  cases fuel <;> rfl

@[simp] theorem chain_zero_some (next : α → Option α) (a : α) :
    chain next 0 (some a) = none := rfl

@[simp] theorem chain_succ_some (next : α → Option α) (fuel : Nat) (a : α) :
    chain next (fuel + 1) (some a) = (chain next fuel (next a)).map (a :: ·) := rfl

variable {next : α → Option α}

variable {visited : List α} {fuel : Nat} {start : Option α}

theorem chain_next_mem (h : chain next fuel start = some visited) {a : α} (ha : a ∈ visited) {b : α}
    (hab : next a = some b) : b ∈ visited := by
  induction fuel generalizing start visited with
  | zero =>
    cases start with
    | none => simp at h; subst h; cases ha
    | some _ => simp at h
  | succ fuel ih =>
    cases start with
    | none => simp at h; subst h; cases ha
    | some c =>
      simp only [chain_succ_some, Option.map_eq_some_iff] at h
      obtain ⟨rest, hrest, rfl⟩ := h
      rcases mem_cons.mp ha with rfl | ha
      · rw [hab] at hrest
        have hb : b ∈ rest := by
          cases fuel with
          | zero => simp at hrest
          | succ fuel =>
            simp only [chain_succ_some, Option.map_eq_some_iff] at hrest
            obtain ⟨_, _, rfl⟩ := hrest
            exact mem_cons_self
        exact mem_cons_of_mem _ hb
      · exact mem_cons_of_mem _ (ih hrest ha)

theorem chain_start_mem {a : α} (h : chain next fuel (some a) = some visited) : a ∈ visited := by
  cases fuel with
  | zero => simp at h
  | succ fuel =>
    simp only [chain_succ_some, Option.map_eq_some_iff] at h
    obtain ⟨_, _, rfl⟩ := h
    exact mem_cons_self

theorem chain_reaches_mem (h : chain next fuel start = some visited) {a b : α} (ha : a ∈ visited)
    (hab : ReflTransGen (fun x y => next x = some y) a b) : b ∈ visited := by
  induction hab with
  | refl => exact ha
  | tail _ hbc ih => exact chain_next_mem h ih hbc

theorem reaches_of_mem_chain {a : α} (h : chain next fuel (some a) = some visited) {b : α}
    (hb : b ∈ visited) :
    ReflTransGen (fun x y => next x = some y) a b := by
  induction fuel generalizing a visited with
  | zero => simp at h
  | succ fuel ih =>
    simp only [chain_succ_some, Option.map_eq_some_iff] at h
    obtain ⟨rest, hrest, rfl⟩ := h
    rcases mem_cons.mp hb with rfl | hb
    · exact .refl
    · cases hnext : next a with
      | none =>
        rw [hnext] at hrest
        simp at hrest
        subst hrest
        cases hb
      | some c =>
        rw [hnext] at hrest
        exact ReflTransGen.head hnext (ih hrest hb)

theorem isChain_of_chain (hnext : ∀ a b, next a = some b → r a b)
    (h : chain next fuel start = some visited) :
    visited.IsChain r := by
  induction fuel generalizing start visited with
  | zero =>
    cases start with
    | none => simp at h; subst h; exact .nil
    | some _ => simp at h
  | succ fuel ih =>
    cases start with
    | none => simp at h; subst h; exact .nil
    | some a =>
      simp only [chain_succ_some, Option.map_eq_some_iff] at h
      obtain ⟨rest, hrest, rfl⟩ := h
      cases hna : next a with
      | none => rw [hna] at hrest; simp at hrest; subst hrest; exact .singleton a
      | some b =>
        have hr := ih hrest
        rw [hna] at hrest
        cases fuel with
        | zero => simp at hrest
        | succ fuel =>
          simp only [chain_succ_some, Option.map_eq_some_iff] at hrest
          obtain ⟨tail, _, rfl⟩ := hrest
          exact .cons_cons (hnext a b hna) hr

/-- The successor function can be followed `n` times from a node. -/
def Walks (next : α → Option α) : Nat → α → Prop
  | 0, _ => True
  | n + 1, a => ∃ b, next a = some b ∧ Walks next n b

theorem walks_iff_of_chain {a : α} (h : chain next fuel (next a) = some visited) (n : Nat) :
    Walks next n a ↔ n ≤ visited.length := by
  induction n generalizing a fuel visited with
  | zero => simp [Walks]
  | succ n ih =>
    cases hnext : next a with
    | none =>
      rw [hnext, chain_none, Option.some.injEq] at h
      simp [Walks, hnext, ← h]
    | some b =>
      rw [hnext] at h
      cases fuel with
      | zero => simp at h
      | succ fuel =>
        simp only [chain_succ_some, Option.map_eq_some_iff] at h
        obtain ⟨rest, hrest, rfl⟩ := h
        simpa [Walks, hnext] using ih hrest

theorem Acyclic.chain_isSome (hr : Acyclic r) (hnext : ∀ a b, next a = some b → r a b)
    (support : List α) (hsupport : ∀ a b, next a = some b → b ∈ support)
    (hstart : ∀ a ∈ start, a ∈ support) (hfuel : support.length ≤ fuel) :
    (chain next fuel start).isSome := by
  -- `path` is what the loop has visited so far; it and the current node form a path of `r`
  suffices key : ∀ (fuel : Nat) (path : List α) (a : α), (path ++ [a]).IsChain r →
      path ++ [a] ⊆ support → support.length ≤ path.length + fuel →
      (chain next fuel (some a)).isSome by
    cases start with
    | none => simp
    | some a =>
      exact key fuel [] a (.singleton a) (by simpa using hstart a rfl) (by simpa using hfuel)
  intro fuel
  induction fuel with
  | zero =>
    intro path a hpath hsub hlen
    have := hr.length_le_of_isChain hpath hsub
    simp at this hlen
    omega
  | succ fuel ih =>
    intro path a hpath hsub hlen
    simp only [chain_succ_some, Option.isSome_map]
    cases hna : next a with
    | none => simp
    | some b =>
      refine ih (path ++ [a]) b ?_ ?_ (by simp; omega)
      · rw [isChain_append] at hpath ⊢
        refine ⟨isChain_append.mpr hpath, .singleton b, ?_⟩
        simpa using hnext a b hna
      · intro c hc
        rcases mem_append.mp hc with hc | hc
        · exact hsub hc
        · rw [mem_singleton.mp hc]
          exact hsupport a b hna

theorem scan_of_chain {stop : α → Except ε Bool} {diverges : ε} {p : α → Bool}
    (h : chain next fuel start = some visited) (hstop : ∀ a ∈ visited, stop a = .ok (p a)) :
    scan next stop diverges fuel start = .ok (visited.any p) := by
  induction fuel generalizing start visited with
  | zero =>
    cases start with
    | none => simp at h; subst h; rfl
    | some _ => simp at h
  | succ fuel ih =>
    cases start with
    | none => simp at h; subst h; rfl
    | some a =>
      simp only [chain_succ_some, Option.map_eq_some_iff] at h
      obtain ⟨rest, hrest, rfl⟩ := h
      have ha := hstop a mem_cons_self
      have hrec := ih hrest fun b hb => hstop b (mem_cons_of_mem _ hb)
      simp only [scan, ha, bind, Except.bind, any_cons]
      cases p a with
      | true => rfl
      | false => simpa using hrec

end Follow

end Ace3.Lib.Digraph
