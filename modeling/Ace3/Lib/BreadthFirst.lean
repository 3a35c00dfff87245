import Mathlib.Data.List.Nodup
import Mathlib.Data.List.Perm.Subperm

/-!
# Breadth-First Search

A search along the edges of a graph, from one node, for the nearest goal. The queue holds each node
with the path on which it was found, and a node is found once. Edges have labels; of several edges
between two nodes the search takes the first.
-/

namespace Ace3.Lib.BreadthFirst

open List

variable {α ε : Type*} [DecidableEq α]

/-! ## §1 The search -/

/-- The edges to nodes that were not found before, one for each node. -/
def discover (visited : List α) : List (ε × α) → List (ε × α)
  | [] => []
  | edge :: edges =>
    if edge.2 ∈ visited then discover visited edges
    else edge :: discover (edge.2 :: visited) edges

/-- The goal that comes first in the queue, or in what is added to it, with the path to it. The
search takes at most so many nodes from the queue. -/
def search (next : α → List (ε × α)) (goal : α → Bool) :
    Nat → List α → List (α × List (α × ε)) → Option (Option (α × List (α × ε)))
  | 0, _, _ => none
  | _ + 1, _, [] => some none
  | steps + 1, visited, (current, path) :: queue =>
    if goal current then some (some (current, path))
    else
      let found := discover visited (next current)
      search next goal steps (visited ++ found.map (·.2))
        (queue ++ found.map fun edge => (edge.2, path ++ [(current, edge.1)]))

/-! ## §2 Paths -/

/-- A path: the nodes that are left, each by an edge with the label, and the node where it ends. -/
inductive Walk (edge : α → ε → α → Prop) (start : α) : List (α × ε) → α → Prop
  | start : Walk edge start [] start
  | step {path : List (α × ε)} {a b : α} {l : ε} (h : Walk edge start path a) (hedge : edge a l b) :
      Walk edge start (path ++ [(a, l)]) b

def Edge (next : α → List (ε × α)) (a : α) (l : ε) (b : α) : Prop := (l, b) ∈ next a

/-- The edges that come first among those between two nodes. -/
def First (next : α → List (ε × α)) (a : α) (l : ε) (b : α) : Prop :=
  (next a).find? (fun edge => edge.2 = b) = some (l, b)

variable {next : α → List (ε × α)} {goal : α → Bool} {start a b : α} {l : ε} {steps depth : Nat}
  {visited support : List α} {edges : List (ε × α)} {path : List (α × ε)}
  {now later : List (α × List (α × ε))}

theorem First.edge (h : First next a l b) : Edge next a l b := List.mem_of_find?_eq_some h

omit [DecidableEq α] in
theorem Walk.mono {edge edge' : α → ε → α → Prop} (hedge : ∀ a l b, edge a l b → edge' a l b)
    (h : Walk edge start path a) : Walk edge' start path a := by
  induction h with
  | start => exact .start
  | step _ hab ih => exact .step ih (hedge _ _ _ hab)

omit [DecidableEq α] in
theorem Walk.last {edge : α → ε → α → Prop} (h : Walk edge start path b) :
    path = [] ∧ b = start ∨
      ∃ path' a l, path = path' ++ [(a, l)] ∧ Walk edge start path' a ∧ edge a l b := by
  cases h with
  | start => exact .inl ⟨rfl, rfl⟩
  | step h hab => exact .inr ⟨_, _, _, rfl, h, hab⟩

/-! ## §3 The queue -/

theorem mem_discover (h : (l, b) ∈ discover visited edges) :
    b ∉ visited ∧ edges.find? (fun edge => edge.2 = b) = some (l, b) := by
  induction edges generalizing visited with
  | nil => cases h
  | cons edge edges ih =>
    rw [discover] at h
    split at h
    · rename_i hvisited
      obtain ⟨hnew, hfirst⟩ := ih h
      refine ⟨hnew, ?_⟩
      rw [List.find?_cons_of_neg (by simpa using fun heq : edge.2 = b => hnew (heq ▸ hvisited))]
      exact hfirst
    · rename_i hvisited
      rcases mem_cons.mp h with rfl | h
      · exact ⟨hvisited, List.find?_cons_of_pos (by simp)⟩
      · obtain ⟨hnew, hfirst⟩ := ih h
        rw [mem_cons, not_or] at hnew
        refine ⟨hnew.2, ?_⟩
        rw [List.find?_cons_of_neg (by simpa using Ne.symm hnew.1)]
        exact hfirst

theorem discover_complete (h : (l, b) ∈ edges) :
    b ∈ visited ∨ b ∈ (discover visited edges).map (·.2) := by
  induction edges generalizing visited with
  | nil => cases h
  | cons edge edges ih =>
    rw [discover]
    split
    · rename_i hvisited
      rcases mem_cons.mp h with rfl | h
      · exact .inl hvisited
      · exact ih h
    · rw [map_cons, mem_cons]
      rcases mem_cons.mp h with rfl | h
      · exact .inr (.inl rfl)
      · rcases @ih (edge.2 :: visited) h with hvisited | hfound
        · rcases mem_cons.mp hvisited with heq | hvisited
          · exact .inr (.inl heq)
          · exact .inl hvisited
        · exact .inr (.inr hfound)

theorem nodup_discover (hnodup : visited.Nodup) :
    (visited ++ (discover visited edges).map (·.2)).Nodup := by
  have hfound : ∀ visited : List α, ((discover visited edges).map (·.2)).Nodup := by
    induction edges with
    | nil => exact fun _ => nodup_nil
    | cons edge edges ih =>
      intro visited
      rw [discover]
      split
      · exact ih visited
      · rw [map_cons, nodup_cons]
        refine ⟨fun hmem => ?_, ih _⟩
        obtain ⟨⟨l, b⟩, hdiscovered, rfl⟩ := mem_map.mp hmem
        exact (mem_discover hdiscovered).1 (mem_cons_self ..)
  rw [nodup_append]
  refine ⟨hnodup, hfound visited, fun a ha b hb hab => ?_⟩
  obtain ⟨⟨l, c⟩, hdiscovered, rfl⟩ := mem_map.mp hb
  subst hab
  exact (mem_discover hdiscovered).1 ha

/-- The state of a search that has taken all nodes nearer than `depth`: what is still queued of that
level, and of the next one. -/
structure Frontier (next : α → List (ε × α)) (goal : α → Bool) (start : α) (support : List α)
    (depth : Nat) (visited : List α) (now later : List (α × List (α × ε))) : Prop where
  walks : ∀ entry ∈ now ++ later, Walk (First next) start entry.2 entry.1
  lengthNow : ∀ entry ∈ now, entry.2.length = depth
  lengthLater : ∀ entry ∈ later, entry.2.length = depth + 1
  nodup : visited.Nodup
  inside : visited ⊆ support
  near : ∀ path a, Walk (Edge next) start path a → path.length ≤ depth → a ∈ visited
  far : ∀ entry ∈ later, ∀ path, Walk (Edge next) start path entry.1 → depth < path.length
  done : ∀ a ∈ visited, (∃ entry ∈ now ++ later, entry.1 = a) ∨
    goal a = false ∧ ∀ l b, Edge next a l b → b ∈ visited
  before : ∀ path a, Walk (Edge next) start path a → path.length < depth → goal a = false

theorem Frontier.first (hstart : start ∈ support) :
    Frontier next goal start support 0 [start] [(start, [])] [] where
  walks entry h := by
    obtain rfl : entry = (start, []) := by simpa using h
    exact .start
  lengthNow entry h := by
    obtain rfl : entry = (start, []) := by simpa using h
    rfl
  lengthLater entry h := absurd h not_mem_nil
  nodup := nodup_singleton start
  inside := fun _ ha => mem_singleton.mp ha ▸ hstart
  near path a h hlength := by
    rcases h.last with ⟨-, rfl⟩ | ⟨path', a, l, rfl, -, -⟩
    · exact mem_cons_self ..
    · simp at hlength
  far entry h := absurd h not_mem_nil
  done a h := .inl ⟨(start, []), by simp, (mem_singleton.mp h).symm⟩
  before path a _ hlength := absurd hlength (Nat.not_lt_zero _)

theorem Frontier.turn (h : Frontier next goal start support depth visited [] later) :
    Frontier next goal start support (depth + 1) visited later [] := by
  -- A node of the finished level is not among those that are queued, so it was taken.
  have hdone : ∀ path a, Walk (Edge next) start path a → path.length = depth →
      goal a = false ∧ ∀ l b, Edge next a l b → b ∈ visited := by
    intro path a hwalk hlength
    rcases h.done a (h.near path a hwalk (Nat.le_of_eq hlength)) with ⟨entry, hentry, rfl⟩ | hdone
    · have hfar := h.far entry hentry path hwalk
      omega
    · exact hdone
  refine ⟨by simpa using h.walks, h.lengthLater, nofun, h.nodup, h.inside, ?_, nofun,
    by simpa using h.done, ?_⟩
  · intro path b hwalk hlength
    rcases Nat.lt_or_ge depth path.length with hlt | hle
    · rcases hwalk.last with ⟨rfl, -⟩ | ⟨path', a, l, rfl, hwalk', hedge⟩
      · simp at hlt
      · simp only [length_append, length_singleton] at hlength hlt
        exact (hdone path' a hwalk' (by omega)).2 l b hedge
    · exact h.near path b hwalk hle
  · intro path a hwalk hlength
    rcases Nat.lt_or_ge path.length depth with hlt | hge
    · exact h.before path a hwalk hlt
    · exact (hdone path a hwalk (by omega)).1

theorem Frontier.visit (hinside : ∀ a l b, Edge next a l b → b ∈ support)
    (h : Frontier next goal start support depth visited ((a, path) :: now) later)
    (hgoal : goal a = false) :
    Frontier next goal start support depth
      (visited ++ (discover visited (next a)).map (·.2)) now
      (later ++ (discover visited (next a)).map fun edge => (edge.2, path ++ [(a, edge.1)])) where
  walks entry hentry := by
    rw [← append_assoc, mem_append] at hentry
    rcases hentry with hentry | hentry
    · exact h.walks entry (mem_cons_of_mem _ hentry)
    · obtain ⟨⟨l, b⟩, hfound, rfl⟩ := mem_map.mp hentry
      exact .step (h.walks (a, path) (mem_cons_self ..)) (mem_discover hfound).2
  lengthNow entry hentry := h.lengthNow entry (mem_cons_of_mem _ hentry)
  lengthLater entry hentry := by
    rcases mem_append.mp hentry with hentry | hentry
    · exact h.lengthLater entry hentry
    · obtain ⟨edge, -, rfl⟩ := mem_map.mp hentry
      have hlength := h.lengthNow (a, path) (mem_cons_self ..)
      simpa using hlength
  nodup := nodup_discover h.nodup
  inside := by
    intro b hb
    rcases mem_append.mp hb with hb | hb
    · exact h.inside hb
    · obtain ⟨⟨l, b⟩, hfound, rfl⟩ := mem_map.mp hb
      exact hinside a l b (First.edge (mem_discover hfound).2)
  near path' b hwalk hlength := mem_append_left _ (h.near path' b hwalk hlength)
  far entry hentry path' hwalk := by
    rcases mem_append.mp hentry with hentry | hentry
    · exact h.far entry hentry path' hwalk
    · obtain ⟨⟨l, b⟩, hfound, rfl⟩ := mem_map.mp hentry
      -- It would have been found before, if it were nearer.
      by_contra hle
      exact (mem_discover hfound).1 (h.near path' b hwalk (Nat.le_of_not_lt hle))
  done b hb := by
    rcases mem_append.mp hb with hb | hb
    · rcases h.done b hb with ⟨entry, hentry, rfl⟩ | ⟨hnot, hnext⟩
      · rcases mem_cons.mp hentry with rfl | hentry
        · refine .inr ⟨hgoal, fun l b hedge => ?_⟩
          rw [mem_append]
          exact discover_complete hedge
        · refine .inl ⟨entry, ?_, rfl⟩
          rw [← append_assoc]
          exact mem_append_left _ hentry
      · exact .inr ⟨hnot, fun l c hedge => mem_append_left _ (hnext l c hedge)⟩
    · obtain ⟨edge, hfound, rfl⟩ := mem_map.mp hb
      refine .inl ⟨(edge.2, path ++ [(a, edge.1)]), ?_, rfl⟩
      rw [mem_append, mem_append]
      exact .inr (.inr (mem_map_of_mem hfound))
  before := h.before

theorem Frontier.exhausted (h : Frontier next goal start support depth visited [] [])
    (hwalk : Walk (Edge next) start path a) : goal a = false := by
  have hdone : ∀ b ∈ visited, goal b = false ∧ ∀ l c, Edge next b l c → c ∈ visited := by
    intro b hb
    exact (h.done b hb).resolve_left fun ⟨_, hentry, _⟩ => not_mem_nil hentry
  have hvisited : a ∈ visited := by
    induction hwalk with
    | start => exact h.near [] start .start (Nat.zero_le _)
    | step _ hedge ih => exact (hdone _ ih).2 _ _ hedge
  exact (hdone a hvisited).1

/-! ## §4 The answer -/

/-- What an answer says: the path leads to a goal that no other path reaches sooner, or there is
no path to a goal. -/
def Correct (next : α → List (ε × α)) (goal : α → Bool) (start : α) :
    Option (α × List (α × ε)) → Prop
  | some (target, path) => goal target = true ∧ Walk (First next) start path target ∧
      ∀ path' target', Walk (Edge next) start path' target' → goal target' = true →
        path.length ≤ path'.length
  | none => ∀ path target, Walk (Edge next) start path target → goal target = false

/-- A search goes on to a correct answer, if it may take as many nodes as are still to be found. -/
theorem search_correct_of_frontier (hinside : ∀ a l b, Edge next a l b → b ∈ support)
    (h : Frontier next goal start support depth visited now later)
    (hsteps : support.length + (now ++ later).length < steps + visited.length) :
    ∃ answer, search next goal steps visited (now ++ later) = some answer ∧
      Correct next goal start answer := by
  induction steps generalizing depth visited now later with
  | zero =>
    have hle := (subperm_of_subset h.nodup h.inside).length_le
    omega
  | succ steps ih =>
    -- One node is taken from the level that is under way.
    have htake : ∀ depth a path now later,
        Frontier next goal start support depth visited ((a, path) :: now) later →
        support.length + ((a, path) :: now ++ later).length < steps + 1 + visited.length →
        ∃ answer, search next goal (steps + 1) visited ((a, path) :: now ++ later) = some answer ∧
          Correct next goal start answer := by
      intro depth a path now later h hsteps
      rw [cons_append, search]
      by_cases hgoal : goal a = true
      · rw [if_pos hgoal]
        refine ⟨_, rfl, hgoal, h.walks (a, path) (mem_cons_self ..), ?_⟩
        intro path' target' hwalk hgoal'
        have hlength := h.lengthNow (a, path) (mem_cons_self ..)
        by_contra hlt
        have hnot := h.before path' target' hwalk (by simp only at hlength; omega)
        rw [hnot] at hgoal'
        cases hgoal'
      · rw [if_neg hgoal]
        dsimp only
        rw [append_assoc]
        apply ih (h.visit hinside (by simpa using hgoal))
        simp only [length_append, length_cons, length_map] at hsteps ⊢
        omega
    cases now with
    | cons entry now => exact htake depth entry.1 entry.2 now later h hsteps
    | nil =>
      cases later with
      | nil => exact ⟨none, rfl, fun _ _ hwalk => h.exhausted hwalk⟩
      | cons entry later =>
        have hnext := htake (depth + 1) entry.1 entry.2 later [] h.turn (by simpa using hsteps)
        rwa [append_nil] at hnext

theorem search_correct (hinside : ∀ a l b, Edge next a l b → b ∈ support) (hstart : start ∈ support)
    (hsteps : support.length < steps) :
    ∃ answer, search next goal steps [start] [(start, [])] = some answer ∧
      Correct next goal start answer :=
  search_correct_of_frontier hinside (Frontier.first hstart) (by simpa using hsteps)

end Ace3.Lib.BreadthFirst
