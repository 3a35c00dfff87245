import Mathlib.Data.List.Nodup
import Mathlib.Logic.Relation

/-!
# Walks with a Stack

A walk through a graph that takes nodes from a stack, skips those at which it was, yields the
others, and puts their successors on the stack. The graph may have cycles, and nodes that are
reached in many ways.
-/

namespace Ace3.Lib.StackWalk

open List
open Relation

variable {α : Type*} [DecidableEq α]

/-! ## §1 The walk -/

/-- The nodes that are yielded from now on, in their order. The top of the stack comes first, and
at most so many nodes are taken from it. -/
def walk (next : α → List α) : Nat → List α → List α → Option (List α)
  | 0, _, _ => none
  | _ + 1, _, [] => some []
  | steps + 1, visited, a :: stack =>
    if a ∈ visited then walk next steps visited stack
    else (walk next steps (a :: visited) ((next a).reverse ++ stack)).map (a :: ·)

def Edge (next : α → List α) (a b : α) : Prop := b ∈ next a

/-- How many successors the nodes have that were not visited. -/
def pending (next : α → List α) (visited : List α) : List α → Nat
  | [] => 0
  | a :: support => (if a ∈ visited then 0 else (next a).length) + pending next visited support

/-- How many nodes are taken from the stack at most, if only these nodes are put on it. -/
def budget (next : α → List α) (support visited stack : List α) : Nat :=
  stack.length + pending next visited support

variable {next : α → List α} {support visited stack out : List α} {a b : α} {steps : Nat}

/-! ## §2 The end -/

theorem pending_cons_le (next : α → List α) (support : List α) (hnew : a ∉ visited) :
    pending next (a :: visited) support + (if a ∈ support then (next a).length else 0) ≤
      pending next visited support := by
  induction support with
  | nil => simp [pending]
  | cons b support ih =>
    by_cases hba : b = a
    · subst hba
      simp only [pending, mem_cons_self, if_true, hnew, if_false]
      omega
    · have hmem : (a ∈ b :: support) = (a ∈ support) := by
        simp [show a ≠ b from fun h => hba h.symm]
      have hvisited : (b ∈ a :: visited) = (b ∈ visited) := by simp [hba]
      simp only [pending, hmem, hvisited]
      omega

theorem budget_visit (ha : a ∈ support) (hnew : a ∉ visited) :
    budget next support (a :: visited) ((next a).reverse ++ stack) + 1 ≤
      budget next support visited (a :: stack) := by
  have hpending : pending next (a :: visited) support + (next a).length ≤
      pending next visited support := by simpa only [if_pos ha] using pending_cons_le next support hnew
  unfold budget
  simp only [length_append, length_reverse, length_cons]
  omega

theorem exists_walk (hnext : ∀ a ∈ support, next a ⊆ support) (hstack : stack ⊆ support)
    (hsteps : budget next support visited stack < steps) :
    ∃ out, walk next steps visited stack = some out := by
  induction steps generalizing visited stack with
  | zero => exact absurd hsteps (Nat.not_lt_zero _)
  | succ steps ih =>
    cases stack with
    | nil => exact ⟨[], rfl⟩
    | cons a stack =>
      obtain ⟨ha, hstack⟩ := cons_subset.mp hstack
      rw [walk]
      split
      · apply ih hstack
        simp only [budget, length_cons] at hsteps ⊢
        omega
      · next hnew =>
        have hpushed : (next a).reverse ++ stack ⊆ support := by
          intro b hb
          rcases mem_append.mp hb with hb | hb
          · exact hnext a ha (mem_reverse.mp hb)
          · exact hstack hb
        have hless : budget next support (a :: visited) ((next a).reverse ++ stack) + 1 ≤
            budget next support visited (a :: stack) := budget_visit ha hnew
        have hsteps' : budget next support (a :: visited) ((next a).reverse ++ stack) < steps := by
          omega
        obtain ⟨out, hout⟩ := ih hpushed hsteps'
        exact ⟨a :: out, by rw [hout, Option.map_some]⟩

/-! ## §3 What is yielded -/

/-- What is yielded from now on: new nodes, each once, among them all that are on the stack and all
that these lead to, and no node that they do not lead to. -/
structure Yields (next : α → List α) (visited stack out : List α) : Prop where
  nodup : out.Nodup
  fresh : ∀ a ∈ out, a ∉ visited
  pushed : ∀ a ∈ stack, a ∈ visited ∨ a ∈ out
  closed : ∀ a ∈ out, ∀ b ∈ next a, b ∈ visited ∨ b ∈ out
  reached : ∀ b ∈ out, ∃ a ∈ stack, ReflTransGen (Edge next) a b

theorem yields_of_walk (h : walk next steps visited stack = some out) :
    Yields next visited stack out := by
  induction steps generalizing visited stack out with
  | zero => cases h
  | succ steps ih =>
    cases stack with
    | nil =>
      obtain rfl := Option.some.inj h
      exact ⟨nodup_nil, nofun, nofun, nofun, nofun⟩
    | cons a stack =>
      rw [walk] at h
      split at h
      · next hvisited =>
        obtain ⟨hnodup, hfresh, hstack, hclosed, hreached⟩ := ih h
        refine ⟨hnodup, hfresh, fun b hb => ?_, hclosed, fun b hb => ?_⟩
        · rcases mem_cons.mp hb with rfl | hb
          · exact .inl hvisited
          · exact hstack b hb
        · obtain ⟨c, hc, hcb⟩ := hreached b hb
          exact ⟨c, mem_cons_of_mem a hc, hcb⟩
      · next hnew =>
        obtain ⟨rest, hrest, rfl⟩ := Option.map_eq_some_iff.mp h
        obtain ⟨hnodup, hfresh, hstack, hclosed, hreached⟩ := ih hrest
        -- a node of the rest was visited before, or is the one that is visited now
        have hplace : ∀ b, b ∈ a :: visited ∨ b ∈ rest → b ∈ visited ∨ b ∈ a :: rest := by
          rintro b (hb | hb)
          · rcases mem_cons.mp hb with rfl | hb
            · exact .inr mem_cons_self
            · exact .inl hb
          · exact .inr (mem_cons_of_mem a hb)
        refine ⟨?_, ?_, ?_, ?_, ?_⟩
        · exact nodup_cons.mpr ⟨fun h => hfresh a h mem_cons_self, hnodup⟩
        · intro b hb
          rcases mem_cons.mp hb with rfl | hb
          · exact hnew
          · exact fun h => hfresh b hb (mem_cons_of_mem a h)
        · intro b hb
          rcases mem_cons.mp hb with rfl | hb
          · exact .inr mem_cons_self
          · exact hplace b (hstack b (mem_append_right _ hb))
        · intro b hb c hc
          rcases mem_cons.mp hb with rfl | hb
          · exact hplace c (hstack c (mem_append_left _ (mem_reverse.mpr hc)))
          · exact hplace c (hclosed b hb c hc)
        · intro b hb
          rcases mem_cons.mp hb with rfl | hb
          · exact ⟨b, mem_cons_self, .refl⟩
          · obtain ⟨c, hc, hcb⟩ := hreached b hb
            rcases mem_append.mp hc with hc | hc
            · exact ⟨a, mem_cons_self, .head (mem_reverse.mp hc) hcb⟩
            · exact ⟨c, mem_cons_of_mem a hc, hcb⟩

theorem walk_spec (h : walk next steps [] stack = some out) :
    out.Nodup ∧ ∀ b, b ∈ out ↔ ∃ a ∈ stack, ReflTransGen (Edge next) a b := by
  obtain ⟨hnodup, -, hstack, hclosed, hreached⟩ := yields_of_walk h
  refine ⟨hnodup, fun b => ⟨hreached b, ?_⟩⟩
  rintro ⟨a, ha, hab⟩
  induction hab with
  | refl => exact (hstack a ha).resolve_left not_mem_nil
  | tail _ hedge ih => exact (hclosed _ ih _ hedge).resolve_left not_mem_nil

end Ace3.Lib.StackWalk
