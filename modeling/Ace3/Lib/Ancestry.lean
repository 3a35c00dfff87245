import Ace3.Lib.Digraph

/-!
# Chains of Ancestors

Every node has at most one parent. A loop that climbs from parent to parent and remembers what it
has seen ends on any such graph: at a node without a parent, or at one that it has seen, which is
then on a cycle.
-/

namespace Ace3.Lib.Ancestry

open List
open Relation Digraph

variable {α : Type*}

def Extends (parent : α → Option α) (a b : α) : Prop := parent a = some b

/-! ## §1 Climbing -/

/-- `while current is not None: ...; current = parent(current)`, for a number of turns at most:
what is visited before the loop ends, and whether it ends at a node that was seen. -/
def climb [DecidableEq α] (parent : α → Option α) : Nat → List α → Option α → List α × Bool
  | _, _, none => ([], false)
  | 0, _, some _ => ([], false)
  | turns + 1, seen, some a =>
    if a ∈ seen then ([], true)
    else
      let rest := climb parent turns (a :: seen) (parent a)
      (a :: rest.1, rest.2)

variable {parent : α → Option α} {support : List α} {a b : α}

@[simp] theorem climb_none [DecidableEq α] (parent : α → Option α) (turns : Nat) (seen : List α) :
    climb parent turns seen none = ([], false) := by
  cases turns <;> rfl

/-! ## §2 The end of the loop -/

/-- Seen nodes lead to the current one. With one turn for each node that has a parent, either one
of them is the current one, or the loop visits all ancestors. -/
theorem climb_spec [DecidableEq α] (hsupport : ∀ a b, Extends parent a b → a ∈ support)
    (turns : Nat) {seen : List α} {current : Option α} (hseen : seen ⊆ support)
    (hnodup : seen.Nodup) (hturns : support.length < turns + seen.length)
    (hleads : ∀ a ∈ current, ∀ s ∈ seen, TransGen (Extends parent) s a) :
    match climb parent turns seen current with
    | (_, true) => ∃ a, TransGen (Extends parent) a a
    | (visited, false) => chain parent turns current = some visited := by
  induction turns generalizing seen current with
  | zero =>
    have hle := (subperm_of_subset hnodup hseen).length_le
    omega
  | succ turns ih =>
    cases current with
    | none => rfl
    | some a =>
      rw [climb]
      by_cases ha : a ∈ seen
      · rw [if_pos ha]
        exact ⟨a, hleads a rfl a ha⟩
      rw [if_neg ha, chain_succ_some]
      cases hparent : parent a with
      | none => simp
      | some b =>
        have hrest := @ih (a :: seen) (some b)
          (cons_subset.mpr ⟨hsupport a b hparent, hseen⟩) (nodup_cons.mpr ⟨ha, hnodup⟩)
          (by rw [length_cons]; omega) ?_
        · cases hclimb : climb parent turns (a :: seen) (some b) with
          | mk visited cyclic =>
            rw [hclimb] at hrest
            cases cyclic with
            | true => exact hrest
            | false => exact congrArg (Option.map (a :: ·)) hrest
        · rintro c hc s hs
          obtain rfl := Option.mem_some_iff.mp hc
          rcases mem_cons.mp hs with rfl | hs
          · exact .single hparent
          · exact (hleads a rfl s hs).tail hparent

theorem transGen_of_ancestor (hcycle : TransGen (Extends parent) a a)
    (h : ReflTransGen (Extends parent) a b) : TransGen (Extends parent) b a := by
  induction h with
  | refl => exact hcycle
  | @tail b c _ hbc ih =>
    obtain ⟨c', hbc', hca⟩ := TransGen.head'_iff.mp ih
    obtain rfl : c = c' := Option.some.inj (hbc.symm.trans hbc')
    rcases reflTransGen_iff_eq_or_transGen.mp hca with rfl | hca
    · exact hcycle
    · exact hca

/-! ## §3 Ancestors -/

/-- What is visited is what is above the node, nearest first. -/
structure Lists (parent : α → Option α) (a : α) (visited : List α) : Prop where
  isChain : (a :: visited).IsChain (Extends parent)
  mem_iff : ∀ b, b ∈ visited ↔ TransGen (Extends parent) a b

variable {turns : Nat}

theorem lists_of_chain {visited : List α} (h : chain parent turns (parent a) = some visited) :
    Lists parent a visited where
  isChain := by
    have hvisited := isChain_of_chain (r := Extends parent) (fun _ _ h => h) h
    cases hparent : parent a with
    | none =>
      rw [hparent, chain_none] at h
      cases h
      exact .singleton a
    | some b =>
      rw [hparent] at h
      cases turns with
      | zero => cases h
      | succ turns =>
        rw [chain_succ_some] at h
        obtain ⟨rest, -, rfl⟩ := Option.map_eq_some_iff.mp h
        exact .cons_cons hparent hvisited
  mem_iff b := by
    cases hparent : parent a with
    | none =>
      rw [hparent, chain_none] at h
      cases h
      refine ⟨fun hb => absurd hb not_mem_nil, fun hab => ?_⟩
      obtain ⟨c, hac, -⟩ := TransGen.head'_iff.mp hab
      cases hparent.symm.trans hac
    | some c =>
      rw [hparent] at h
      constructor
      · exact fun hb => TransGen.head' hparent (reaches_of_mem_chain h hb)
      · intro hab
        obtain ⟨c', hac', hcb⟩ := TransGen.head'_iff.mp hab
        obtain rfl : c = c' := Option.some.inj (hparent.symm.trans hac')
        exact chain_reaches_mem h (chain_start_mem h) hcb

theorem walks_of_cycle (hcycle : TransGen (Extends parent) a a) (n : Nat)
    (h : ReflTransGen (Extends parent) a b) : Walks parent n b := by
  induction n generalizing b with
  | zero => trivial
  | succ n ih =>
    obtain ⟨c, hbc, -⟩ := TransGen.head'_iff.mp (transGen_of_ancestor hcycle h)
    exact ⟨c, hbc, ih (h.tail hbc)⟩

theorem not_cycle_of_chain {visited : List α} (h : chain parent turns (parent a) = some visited) :
    ¬ TransGen (Extends parent) a a := by
  intro hcycle
  have hwalks := (walks_iff_of_chain h (visited.length + 1)).mp (walks_of_cycle hcycle _ .refl)
  omega

/-- Starting from each node that has a parent, the loop meets a node again if and only if there is
a cycle. -/
theorem exists_climb_iff [DecidableEq α] (hsupport : ∀ a, a ∈ support ↔ ∃ b, Extends parent a b)
    (hturns : support.length ≤ turns) :
    (∃ a ∈ support, (climb parent turns [a] (parent a)).2 = true) ↔ ¬ Acyclic (Extends parent) := by
  have hspec : ∀ a ∈ support, match climb parent turns [a] (parent a) with
      | (_, true) => ∃ a, TransGen (Extends parent) a a
      | (visited, false) => chain parent turns (parent a) = some visited := by
    intro a ha
    have hextends : ∀ a b, Extends parent a b → a ∈ support :=
      fun a b h => (hsupport a).mpr ⟨b, h⟩
    apply climb_spec hextends
    · simpa using ha
    · exact nodup_singleton a
    · rw [length_singleton]
      omega
    · intro b hb s hs
      obtain rfl := mem_singleton.mp hs
      exact .single hb
  constructor
  · rintro ⟨a, ha, hcyclic⟩ hacyclic
    have hspec := hspec a ha
    cases hclimb : climb parent turns [a] (parent a) with
    | mk visited cyclic =>
      rw [hclimb] at hspec hcyclic
      obtain rfl : cyclic = true := hcyclic
      obtain ⟨b, hb⟩ := hspec
      exact hacyclic b hb
  · intro h
    obtain ⟨a, hcycle⟩ := not_forall_not.mp h
    obtain ⟨b, hab, -⟩ := TransGen.head'_iff.mp hcycle
    have ha := (hsupport a).mpr ⟨b, hab⟩
    refine ⟨a, ha, ?_⟩
    have hspec := hspec a ha
    cases hclimb : climb parent turns [a] (parent a) with
    | mk visited cyclic =>
      rw [hclimb] at hspec
      cases cyclic with
      | true => rfl
      | false => exact absurd hcycle (not_cycle_of_chain hspec)

theorem lists_climb [DecidableEq α] (hsupport : ∀ a b, Extends parent a b → a ∈ support)
    (hturns : support.length ≤ turns) (hacyclic : Acyclic (Extends parent)) (a : α) :
    Lists parent a (climb parent turns [a] (parent a)).1 := by
  cases hparent : parent a with
  | none =>
    rw [climb_none]
    have hchain : chain parent turns (parent a) = some [] := by
      rw [hparent, chain_none]
    exact lists_of_chain hchain
  | some b =>
    have hspec := @climb_spec _ _ _ _ hsupport turns [a] (some b)
      (by simpa using hsupport a b hparent) (nodup_singleton a)
      (by rw [length_singleton]; omega) (by
        intro c hc s hs
        obtain rfl := mem_singleton.mp hs
        exact .single (hparent.trans hc))
    cases hclimb : climb parent turns [a] (some b) with
    | mk visited cyclic =>
      rw [hclimb] at hspec
      cases cyclic with
      | true =>
        obtain ⟨c, hcycle⟩ := hspec
        exact absurd hcycle (hacyclic c)
      | false =>
        rw [← hparent] at hspec
        exact lists_of_chain hspec

end Ace3.Lib.Ancestry
