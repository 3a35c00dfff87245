import Ace3.Lib.Digraph

/-!
# Traversals that Call on Every Edge

A recursive traversal skips a node whose successors are those of a node at which it was. It makes a
call for the end of each edge that it follows, also where the node there is skipped. So the calls
are made for the nodes that are reached along one or more edges, and for no others.
-/

namespace Ace3.Lib.Traversal

open List
open Relation

variable {α : Type*}

/-! ## §1 The traversal -/

/-- A visit of a node, at most so deep: the nodes that are remembered then, and the calls, in their
order. -/
def traverse (next : α → List α) (skip : List α → α → Bool) :
    Nat → List α → α → Option (List α × List α)
  | 0, _, _ => none
  | depth + 1, visited, a =>
    if skip visited a then some (visited, [])
    else
      (next a).foldlM (fun state b => do
          let rest ← traverse next skip depth state.1 b
          return (rest.1, state.2 ++ b :: rest.2))
        (visited ++ [a], [])

def Edge (next : α → List α) (a b : α) : Prop := b ∈ next a

/-- A node without successors, or with those of a node that is remembered. -/
def Covered (next : α → List α) (visited : List α) (a : α) : Prop :=
  next a = [] ∨ ∃ x ∈ visited, next a ⊆ next x

/-- Only nodes that are covered are skipped, and a node that is remembered is. -/
structure Skips (next : α → List α) (skip : List α → α → Bool) : Prop where
  covered : ∀ visited a, skip visited a = true → Covered next visited a
  remembered : ∀ visited a, a ∈ visited → skip visited a = true

variable {next : α → List α} {skip : List α → α → Bool} {support visited visited' : List α}
  {a b : α} {depth : Nat}

theorem Covered.mono (h : Covered next visited a) (hsub : visited ⊆ visited') :
    Covered next visited' a :=
  h.imp_right fun ⟨x, hx, hnext⟩ => ⟨x, hsub hx, hnext⟩

/-! ## §2 One visit -/

/-- The nodes that are remembered are distinct nodes of the graph, as before, and calls were made
for the successors of each new one. -/
structure Grows (next : α → List α) (support visited visited' calls : List α) : Prop where
  subset : visited ⊆ visited'
  nodup : visited'.Nodup
  inside : visited' ⊆ support
  closed : ∀ x ∈ visited', x ∉ visited → ∀ b ∈ next x, b ∈ calls ∧ Covered next visited' b

theorem Grows.refl (hnodup : visited.Nodup) (hinside : visited ⊆ support) (calls : List α) :
    Grows next support visited visited calls :=
  ⟨List.Subset.refl _, hnodup, hinside, fun _ hx hnot => absurd hx hnot⟩

theorem Grows.trans {visited'' calls calls' calls'' : List α}
    (h : Grows next support visited visited' calls)
    (h' : Grows next support visited' visited'' calls') (hcalls : calls ⊆ calls'')
    (hcalls' : calls' ⊆ calls'') : Grows next support visited visited'' calls'' where
  subset := fun _ hx => h'.subset (h.subset hx)
  nodup := h'.nodup
  inside := h'.inside
  closed x hx hnot b hb := by
    by_cases hmem : x ∈ visited'
    · obtain ⟨hcall, hcovered⟩ := h.closed x hmem hnot b hb
      exact ⟨hcalls hcall, hcovered.mono h'.subset⟩
    · obtain ⟨hcall, hcovered⟩ := h'.closed x hx hmem b hb
      exact ⟨hcalls' hcall, hcovered⟩

theorem loop_spec {bs : List α} (hbs : bs ⊆ support)
    (hdepth : support.length < depth + visited.length)
    (hnodup : visited.Nodup) (hinside : visited ⊆ support)
    (hvisit : ∀ visited b, b ∈ support → visited.Nodup → visited ⊆ support →
      support.length < depth + visited.length → ∃ visited' calls,
        traverse next skip depth visited b = some (visited', calls) ∧
        Grows next support visited visited' calls ∧ Covered next visited' b ∧
        ∀ c ∈ calls, TransGen (Edge next) b c) (called : List α) :
    ∃ visited' calls, bs.foldlM (fun state b => do
        let rest ← traverse next skip depth state.1 b
        return (rest.1, state.2 ++ b :: rest.2)) (visited, called) =
          some (visited', called ++ calls) ∧
      Grows next support visited visited' calls ∧
      (∀ b ∈ bs, b ∈ calls ∧ Covered next visited' b) ∧
      ∀ c ∈ calls, ∃ b ∈ bs, ReflTransGen (Edge next) b c := by
  induction bs generalizing visited called with
  | nil =>
    exact ⟨visited, [], by rw [append_nil]; rfl, .refl hnodup hinside [],
      fun _ h => absurd h not_mem_nil, fun _ h => absurd h not_mem_nil⟩
  | cons b bs ih =>
    obtain ⟨hb, hbs⟩ := cons_subset.mp hbs
    obtain ⟨visited₁, calls₁, heq₁, hgrows₁, hcovered₁, hreached₁⟩ :=
      hvisit visited b hb hnodup hinside hdepth
    have hlength := (subperm_of_subset hnodup hgrows₁.subset).length_le
    obtain ⟨visited₂, calls₂, heq₂, hgrows₂, hall₂, hreached₂⟩ :=
      ih hbs (by omega) hgrows₁.nodup hgrows₁.inside (called ++ b :: calls₁)
    have hsub₁ : calls₁ ⊆ (b :: calls₁) ++ calls₂ := fun c hc => by simp [hc]
    have hsub₂ : calls₂ ⊆ (b :: calls₁) ++ calls₂ := fun c hc => by simp [hc]
    refine ⟨visited₂, (b :: calls₁) ++ calls₂, ?_, hgrows₁.trans hgrows₂ hsub₁ hsub₂, ?_, ?_⟩
    · rw [foldlM_cons, heq₁]
      exact heq₂.trans (by rw [append_assoc])
    · intro c hc
      rcases mem_cons.mp hc with rfl | hc
      · exact ⟨by simp, hcovered₁.mono hgrows₂.subset⟩
      · exact ⟨hsub₂ (hall₂ c hc).1, (hall₂ c hc).2⟩
    · intro c hc
      rcases mem_append.mp hc with hc | hc
      · rcases mem_cons.mp hc with rfl | hc
        · exact ⟨c, mem_cons_self .., .refl⟩
        · exact ⟨b, mem_cons_self .., (hreached₁ c hc).to_reflTransGen⟩
      · obtain ⟨b', hb', hc⟩ := hreached₂ c hc
        exact ⟨b', mem_cons_of_mem _ hb', hc⟩

theorem traverse_spec (hskips : Skips next skip) (hnext : ∀ a b, Edge next a b → b ∈ support)
    (depth : Nat) : ∀ visited a, a ∈ support → visited.Nodup → visited ⊆ support →
      support.length < depth + visited.length → ∃ visited' calls,
        traverse next skip depth visited a = some (visited', calls) ∧
        Grows next support visited visited' calls ∧ Covered next visited' a ∧
        ∀ c ∈ calls, TransGen (Edge next) a c := by
  induction depth with
  | zero =>
    intro visited a _ hnodup hinside hdepth
    have hle := (subperm_of_subset hnodup hinside).length_le
    omega
  | succ depth ih =>
    intro visited a ha hnodup hinside hdepth
    rw [traverse]
    by_cases hskip : skip visited a = true
    · rw [if_pos hskip]
      exact ⟨visited, [], rfl, .refl hnodup hinside [], hskips.covered visited a hskip,
        fun _ h => absurd h not_mem_nil⟩
    rw [if_neg hskip]
    have hnot : a ∉ visited := fun h => hskip (hskips.remembered visited a h)
    have hnodup' : (visited ++ [a]).Nodup := by
      rw [nodup_append]
      exact ⟨hnodup, nodup_singleton a, fun x hx y hy hxy =>
        hnot (mem_singleton.mp hy ▸ hxy ▸ hx)⟩
    have hinside' : visited ++ [a] ⊆ support := by
      intro x hx
      rcases mem_append.mp hx with hx | hx
      · exact hinside hx
      · exact mem_singleton.mp hx ▸ ha
    obtain ⟨visited', calls, heq, hgrows, hall, hreached⟩ := loop_spec (fun b hb => hnext a b hb)
      (by rw [length_append, length_singleton]; omega) hnodup' hinside' ih []
    have hmem : a ∈ visited' := hgrows.subset (by simp)
    refine ⟨visited', calls, heq, ⟨fun x hx => hgrows.subset (by simp [hx]), hgrows.nodup,
      hgrows.inside, ?_⟩, .inr ⟨a, hmem, List.Subset.refl _⟩, ?_⟩
    · intro x hx hxnot b hb
      by_cases hxa : x = a
      · subst hxa
        exact hall b hb
      · exact hgrows.closed x hx (by simp [hxnot, hxa]) b hb
    · intro c hc
      obtain ⟨b, hb, hbc⟩ := hreached c hc
      exact TransGen.head' hb hbc

/-! ## §3 All calls -/

theorem traverse_calls (hskips : Skips next skip) (hnext : ∀ a b, Edge next a b → b ∈ support)
    (ha : a ∈ support) (hdepth : support.length < depth) :
    ∃ visited calls, traverse next skip depth [] a = some (visited, calls) ∧
      ∀ c, c ∈ calls ↔ TransGen (Edge next) a c := by
  obtain ⟨visited, calls, heq, hgrows, hcovered, hreached⟩ :=
    traverse_spec hskips hnext depth [] a ha nodup_nil (nil_subset _) (by simpa using hdepth)
  refine ⟨visited, calls, heq, fun c => ⟨hreached c, fun h => ?_⟩⟩
  have hstep : ∀ b c, Covered next visited b → Edge next b c →
      c ∈ calls ∧ Covered next visited c := by
    rintro b c (hempty | ⟨x, hx, hsub⟩) hbc
    · rw [Edge, hempty] at hbc
      exact absurd hbc not_mem_nil
    · exact hgrows.closed x hx not_mem_nil c (hsub hbc)
  have hall : c ∈ calls ∧ Covered next visited c := by
    induction h with
    | single hab => exact hstep a _ hcovered hab
    | tail _ hbc ih => exact hstep _ _ ih.2 hbc
  exact hall.1

end Ace3.Lib.Traversal
