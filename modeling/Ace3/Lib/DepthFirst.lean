import Ace3.Lib.Digraph

/-!
# Depth-First Search for Cycles

A recursive search that marks the nodes on the current path, so that an edge back to the path is
noticed, and the nodes that are explored, so that none is explored twice. The graph is given by the
successors of each node.
-/

namespace Ace3.Lib.DepthFirst

open List Function
open Relation Digraph

variable {α : Type*} [DecidableEq α]

/-! ## §1 The search -/

inductive Mark where
  | unvisited | onPath | explored
  deriving DecidableEq

/-- Why a search ends early: it has found a cycle, or it is too deep for the fuel. -/
inductive Stop (α : Type*) where
  | cycle (nodes : List α)
  | outOfFuel

/-- A node is put at the end of the path, all its successors are visited, and it is explored. The
cycle is the end of the path from the successor on. -/
def visit (succ : α → List α) : Nat → List α → (α → Mark) → α → Except (Stop α) (α → Mark)
  | 0, _, _, _ => .error .outOfFuel
  | fuel + 1, path, mark, a => do
    let mark ← (succ a).foldlM (fun mark b =>
        match mark b with
        | .onPath => .error (.cycle ((path ++ [a]).drop ((path ++ [a]).idxOf b) ++ [b]))
        | .unvisited => visit succ fuel (path ++ [a]) mark b
        | .explored => .ok mark)
      (Function.update mark a .onPath)
    return Function.update mark a .explored

/-- All nodes of a list are visited that are not explored yet. -/
def search (succ : α → List α) (fuel : Nat) (starts : List α) : Except (Stop α) (α → Mark) :=
  starts.foldlM (fun mark a =>
      match mark a with
      | .unvisited => visit succ fuel [] mark a
      | _ => .ok mark)
    fun _ => .unvisited

/-! ## §2 Marks -/

def Edge (succ : α → List α) (a b : α) : Prop := b ∈ succ a

def IsCycle (r : α → α → Prop) (nodes : List α) : Prop :=
  nodes.IsChain r ∧ ∃ a rest, nodes = a :: rest ++ [a]

/-- The marks while a path is searched: what is explored is left for nothing that is not, and is
on no cycle. -/
structure Marked (succ : α → List α) (path : List α) (mark : α → Mark) : Prop where
  onPath : ∀ a, mark a = .onPath ↔ a ∈ path
  closed : ∀ a b, mark a = .explored → Edge succ a b → mark b = .explored
  acyclic : ∀ a, mark a = .explored → ¬ TransGen (Edge succ) a a

def Extends (mark mark' : α → Mark) : Prop := ∀ a, mark a = .explored → mark' a = .explored

variable {succ : α → List α} {path support : List α} {mark mark' : α → Mark} {a b : α}

omit [DecidableEq α] in
theorem transGen_of_isCycle {r : α → α → Prop} {nodes : List α} (h : IsCycle r nodes) :
    ∃ a, TransGen r a a := by
  obtain ⟨hchain, a, rest, rfl⟩ := h
  refine ⟨a, ?_⟩
  have hpath : (a :: rest ++ [a]).IsChain (TransGen r) := hchain.imp fun _ _ => TransGen.single
  have hpairs := isChain_iff_pairwise.mp hpath
  rw [pairwise_append] at hpairs
  exact hpairs.2.2 a (mem_cons_self ..) a (mem_singleton_self a)

theorem isCycle_of_mem {r : α → α → Prop} (hchain : (path ++ [a]).IsChain r)
    (hb : b ∈ path ++ [a]) (hab : r a b) :
    IsCycle r ((path ++ [a]).drop ((path ++ [a]).idxOf b) ++ [b]) := by
  have hindex : (path ++ [a]).idxOf b < (path ++ [a]).length := idxOf_lt_length_of_mem hb
  have hdrop : (path ++ [a]).drop ((path ++ [a]).idxOf b) =
      b :: (path ++ [a]).drop ((path ++ [a]).idxOf b + 1) := by
    rw [drop_eq_getElem_cons hindex, getElem_idxOf hindex]
  refine ⟨?_, b, _, by rw [hdrop]⟩
  rw [isChain_append]
  refine ⟨hchain.drop _, .singleton b, ?_⟩
  intro x hx y hy
  rw [List.head?_singleton, Option.mem_some_iff] at hy
  rw [List.getLast?_drop, if_neg (by omega), List.getLast?_append] at hx
  simp only [List.getLast?_singleton, Option.some_or, Option.mem_some_iff] at hx
  exact hy ▸ hx ▸ hab

omit [DecidableEq α] in
theorem Extends.trans {mark'' : α → Mark} (h : Extends mark mark') (h' : Extends mark' mark'') :
    Extends mark mark'' := fun a ha => h' a (h a ha)

theorem Marked.push (h : Marked succ path mark) (ha : mark a = .unvisited) :
    Marked succ (path ++ [a]) (Function.update mark a .onPath) where
  onPath b := by
    rw [mem_append, mem_singleton, ← h.onPath]
    by_cases hb : b = a
    · subst hb
      simp
    · simp [hb]
  closed b c hb hbc := by
    by_cases hba : b = a
    · subst hba
      simp at hb
    · rw [update_of_ne hba] at hb
      have hc := h.closed b c hb hbc
      have hca : c ≠ a := by
        rintro rfl
        rw [ha] at hc
        cases hc
      rwa [update_of_ne hca]
  acyclic b hb := by
    by_cases hba : b = a
    · subst hba
      simp at hb
    · rw [update_of_ne hba] at hb
      exact h.acyclic b hb

/-- The last node of the path, of which all successors are explored, is explored itself. It is on
no cycle, because what is explored does not lead back to the path. -/
theorem Marked.pop (h : Marked succ (path ++ [a]) mark) (ha : a ∉ path)
    (hsucc : ∀ b ∈ succ a, mark b = .explored) :
    Marked succ path (Function.update mark a .explored) where
  onPath b := by
    by_cases hb : b = a
    · subst hb
      simp [ha]
    · rw [update_of_ne hb, h.onPath]
      simp [hb]
  closed b c hb hbc := by
    by_cases hca : c = a
    · subst hca
      exact update_self ..
    rw [update_of_ne hca]
    by_cases hba : b = a
    · subst hba
      exact hsucc c hbc
    · rw [update_of_ne hba] at hb
      exact h.closed b c hb hbc
  acyclic b hb := by
    by_cases hba : b = a
    · subst hba
      intro hcycle
      obtain ⟨c, hbc, hcb⟩ := TransGen.head'_iff.mp hcycle
      have hreach : ∀ x, ReflTransGen (Edge succ) c x → mark x = .explored := by
        intro x hx
        induction hx with
        | refl => exact hsucc c hbc
        | tail _ hxy ih => exact h.closed _ _ ih hxy
      have hexplored := hreach b hcb
      rw [(h.onPath b).mpr (by simp)] at hexplored
      cases hexplored
    · rw [update_of_ne hba] at hb
      exact h.acyclic b hb

/-! ## §3 Visits -/

/-- What a search in a graph with finitely many nodes comes to: marks with a property, a cycle of
the graph, or a path that is longer than a bound. -/
def Outcome (succ : α → List α) (support : List α) (bound : Nat) (Q : (α → Mark) → Prop) :
    Except (Stop α) (α → Mark) → Prop
  | .ok mark => Q mark
  | .error (.cycle nodes) => IsCycle (Edge succ) nodes
  | .error .outOfFuel => ∃ path : List α, path.Nodup ∧ path ⊆ support ∧ bound < path.length

variable {bound : Nat} {Q Q' : (α → Mark) → Prop}

omit [DecidableEq α] in
theorem Outcome.mono {x : Except (Stop α) (α → Mark)} (h : Outcome succ support bound Q x)
    (hQ : ∀ mark, Q mark → Q' mark) : Outcome succ support bound Q' x := by
  cases x with
  | ok mark => exact hQ mark h
  | error stop => cases stop <;> exact h

omit [DecidableEq α] in
theorem Outcome.bind {x : Except (Stop α) (α → Mark)} {f : (α → Mark) → Except (Stop α) (α → Mark)}
    (h : Outcome succ support bound Q x)
    (hf : ∀ mark, Q mark → Outcome succ support bound Q' (f mark)) :
    Outcome succ support bound Q' (x >>= f) := by
  cases x with
  | ok mark => exact hf mark h
  | error stop => cases stop <;> exact h

omit [DecidableEq α] in
theorem outcome_foldlM {step : (α → Mark) → α → Except (Stop α) (α → Mark)}
    {I : (α → Mark) → Prop} {nodes : List α} (hmark : I mark)
    (hstep : ∀ b ∈ nodes, ∀ mark, I mark → Outcome succ support bound
      (fun mark' => I mark' ∧ Extends mark mark' ∧ mark' b = .explored) (step mark b)) :
    Outcome succ support bound
      (fun mark' => I mark' ∧ Extends mark mark' ∧ ∀ b ∈ nodes, mark' b = .explored)
      (nodes.foldlM step mark) := by
  induction nodes generalizing mark with
  | nil => exact ⟨hmark, fun _ h => h, fun _ h => absurd h not_mem_nil⟩
  | cons b nodes ih =>
    rw [foldlM_cons]
    apply (hstep b (mem_cons_self ..) mark hmark).bind
    rintro mark₁ ⟨hmark₁, hextends, hb⟩
    have hrest := ih hmark₁ fun c hc => hstep c (mem_cons_of_mem _ hc)
    cases hfold : nodes.foldlM step mark₁ with
    | error stop =>
      rw [hfold] at hrest
      cases stop <;> exact hrest
    | ok mark₂ =>
      rw [hfold] at hrest
      obtain ⟨hmark₂, hextends', hnodes⟩ := hrest
      refine ⟨hmark₂, hextends.trans hextends', fun c hc => ?_⟩
      rcases mem_cons.mp hc with rfl | hc
      · exact hextends' c hb
      · exact hnodes c hc

/-- A visit explores its node, or ends with a cycle. The fuel is enough for paths that repeat no
node. -/
theorem visit_spec (hsupport : ∀ a b, Edge succ a b → b ∈ support) (fuel : Nat)
    (hmarked : Marked succ path mark) (ha : mark a = .unvisited)
    (hchain : (path ++ [a]).IsChain (Edge succ)) (hnodup : (path ++ [a]).Nodup)
    (hmem : path ++ [a] ⊆ support) :
    Outcome succ support (path.length + fuel)
      (fun mark' => Marked succ path mark' ∧ Extends mark mark' ∧ mark' a = .explored)
      (visit succ fuel path mark a) := by
  induction fuel generalizing path mark a with
  | zero => exact ⟨path ++ [a], hnodup, hmem, by simp⟩
  | succ fuel ih =>
    have hpath : a ∉ path := by
      intro hmem
      rw [(hmarked.onPath a).mpr hmem] at ha
      cases ha
    rw [visit]
    apply (outcome_foldlM (I := Marked succ (path ++ [a])) (hmarked.push ha) ?_).bind
    · rintro mark' ⟨hmarked', hextends, hsucc⟩
      refine ⟨hmarked'.pop hpath hsucc, fun b hb => ?_, update_self ..⟩
      by_cases hba : b = a
      · subst hba
        exact update_self ..
      · rw [update_of_ne hba]
        apply hextends
        rwa [update_of_ne hba]
    · intro b hb mark' hmarked'
      cases hbmark : mark' b with
      | onPath =>
        -- the successor is on the path: from there on, the path is a cycle
        simp only
        exact isCycle_of_mem hchain ((hmarked'.onPath b).mp hbmark) hb
      | explored =>
        simp only
        exact ⟨hmarked', fun _ h => h, hbmark⟩
      | unvisited =>
        simp only
        have hnotin : b ∉ path ++ [a] := by
          intro hmem
          rw [(hmarked'.onPath b).mpr hmem] at hbmark
          cases hbmark
        have hlength : (path ++ [a]).length + fuel = path.length + (fuel + 1) := by
          simp only [length_append, length_singleton]
          omega
        rw [← hlength]
        apply ih hmarked' hbmark
        · rw [isChain_append]
          refine ⟨hchain, .singleton b, fun x hx y hy => ?_⟩
          simp only [List.getLast?_append, List.getLast?_singleton, Option.some_or,
            Option.mem_some_iff] at hx
          rw [List.head?_singleton, Option.mem_some_iff] at hy
          exact hx ▸ hy ▸ hb
        · rw [nodup_append]
          exact ⟨hnodup, nodup_singleton b, fun x hx y hy hxy =>
            hnotin (mem_singleton.mp hy ▸ hxy ▸ hx)⟩
        · intro x hx
          rcases mem_append.mp hx with hx | hx
          · exact hmem hx
          · exact mem_singleton.mp hx ▸ hsupport a b hb

/-! ## §4 The whole graph -/

variable {starts : List α}

theorem search_spec (hsupport : ∀ a b, Edge succ a b → b ∈ support) (hstarts : starts ⊆ support)
    (fuel : Nat) :
    Outcome succ support fuel
      (fun mark => Marked succ [] mark ∧ ∀ a ∈ starts, mark a = .explored)
      (search succ fuel starts) := by
  have hunvisited : Marked succ [] fun _ => Mark.unvisited :=
    ⟨fun _ => by simp, fun _ _ h => Mark.noConfusion h, fun _ h => Mark.noConfusion h⟩
  rw [search]
  apply (outcome_foldlM (I := Marked succ []) hunvisited ?_).mono
  · rintro mark ⟨hmarked, -, hexplored⟩
    exact ⟨hmarked, hexplored⟩
  · intro a ha mark hmarked
    cases hmark : mark a with
    | onPath => exact absurd ((hmarked.onPath a).mp hmark) not_mem_nil
    | explored => exact ⟨hmarked, fun _ h => h, hmark⟩
    | unvisited =>
      have hvisit := visit_spec hsupport fuel hmarked hmark (.singleton a)
        (nodup_singleton a) (by simpa using hstarts ha)
      simpa only [length_nil, Nat.zero_add] using hvisit

theorem search_ne_outOfFuel (hsupport : ∀ a b, Edge succ a b → b ∈ support)
    (hstarts : starts ⊆ support) {fuel : Nat} (hfuel : support.length ≤ fuel) :
    search succ fuel starts ≠ .error .outOfFuel := by
  intro h
  have hspec := search_spec hsupport hstarts fuel
  rw [h] at hspec
  obtain ⟨path, hnodup, hmem, hlength⟩ := hspec
  have hle := (subperm_of_subset hnodup hmem).length_le
  omega

theorem search_cycle_iff (hsupport : ∀ a b, Edge succ a b → b ∈ support)
    (hstarts : starts ⊆ support) (hfrom : ∀ a b, Edge succ a b → a ∈ starts) {fuel : Nat}
    (hfuel : support.length ≤ fuel) :
    (∃ nodes, search succ fuel starts = .error (.cycle nodes)) ↔
      ∃ a, TransGen (Edge succ) a a := by
  have hspec := search_spec hsupport hstarts fuel
  have hends := search_ne_outOfFuel hsupport hstarts hfuel
  cases hsearch : search succ fuel starts with
  | ok mark =>
    rw [hsearch] at hspec
    obtain ⟨hmarked, hexplored⟩ := hspec
    constructor
    · rintro ⟨nodes, hnodes⟩
      cases hnodes
    · rintro ⟨a, hcycle⟩
      obtain ⟨b, hab, -⟩ := TransGen.head'_iff.mp hcycle
      exact absurd hcycle (hmarked.acyclic a (hexplored a (hfrom a b hab)))
  | error stop =>
    rw [hsearch] at hspec hends
    cases stop with
    | outOfFuel => exact absurd rfl hends
    | cycle nodes => exact ⟨fun _ => transGen_of_isCycle hspec, fun _ => ⟨nodes, rfl⟩⟩

end Ace3.Lib.DepthFirst
