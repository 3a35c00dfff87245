import Ace3.Lib.Nested
import Mathlib.Data.List.Forall2

/-!
# A Heap of Dictionaries

A reference to a dictionary is its address, and a write through one reference is seen through all
others. Lists hold references too, but are not written. What a reference leads to is followed along
paths, so nothing is assumed about the shape of the heap until it is needed.
-/

set_option linter.unusedSectionVars false

namespace Ace3.Lib.ObjectHeap

open List Function OrderedDict

/-! ## §1 References -/

inductive Ref (α : Type*) where
  | atom (a : α)
  | list (items : List (Ref α))
  | dict (address : ℕ)

/-- The items of the dictionary at each address, and the address of the next one. -/
structure Heap (κ α : Type*) where
  cells : ℕ → List (κ × Ref α)
  next : ℕ

inductive Seg (κ : Type*) where
  | key (key : κ)
  | item (index : ℕ)

variable {κ α : Type*} [DecidableEq κ]

/-- `value[key]` or `value[index]`. -/
def child (h : Heap κ α) : Ref α → Seg κ → Option (Ref α)
  | .dict address, .key key => (h.cells address).lookup key
  | .list items, .item index => items[index]?
  | _, _ => none

def reach (h : Heap κ α) : List (Seg κ) → Ref α → Option (Ref α)
  | [], r => some r
  | seg :: path, r => (child h r seg).bind (reach h path)

variable {h h' : Heap κ α} {r root value other : Ref α} {a : ℕ} {key : κ}
  {path place rest : List (Seg κ)}

@[simp] theorem reach_nil (h : Heap κ α) (r : Ref α) : reach h [] r = some r := rfl

theorem reach_cons (h : Heap κ α) (seg : Seg κ) (path : List (Seg κ)) (r : Ref α) :
    reach h (seg :: path) r = (child h r seg).bind (reach h path) := rfl

theorem reach_append (h : Heap κ α) (path rest : List (Seg κ)) (r : Ref α) :
    reach h (path ++ rest) r = (reach h path r).bind (reach h rest) := by
  induction path generalizing r with
  | nil => rfl
  | cons seg path ih =>
    rw [cons_append, reach_cons, reach_cons]
    cases child h r seg with
    | none => rfl
    | some next => exact ih next

theorem reach_append_of (hpath : reach h path r = some value) (rest : List (Seg κ)) :
    reach h (path ++ rest) r = reach h rest value := by
  rw [reach_append, hpath, Option.bind_some]

/-! ## §2 Writes -/

def put (h : Heap κ α) (address : ℕ) (key : κ) (value : Ref α) : Heap κ α where
  cells := Function.update h.cells address (setItems key value (h.cells address))
  next := h.next

/-- The heap with a new dictionary `{}` at the next address. -/
def alloc (h : Heap κ α) : Heap κ α where
  cells := Function.update h.cells h.next []
  next := h.next + 1

theorem cells_put_same (h : Heap κ α) (a : ℕ) (key : κ) (value : Ref α) :
    (put h a key value).cells a = setItems key value (h.cells a) :=
  update_self ..

theorem cells_put_of_ne {b : ℕ} (hne : b ≠ a) (key : κ) (value : Ref α) :
    (put h a key value).cells b = h.cells b := update_of_ne hne ..

theorem cells_alloc_next (h : Heap κ α) : (alloc h).cells h.next = [] := update_self ..

theorem cells_alloc_of_ne {b : ℕ} (hne : b ≠ h.next) : (alloc h).cells b = h.cells b :=
  update_of_ne hne ..

theorem child_put_same (h : Heap κ α) (a : ℕ) (key : κ) (value : Ref α) :
    child (put h a key value) (.dict a) (.key key) = some value := by
  rw [child, cells_put_same, lookup_setItems, if_pos rfl]

variable {seg : Seg κ}

theorem child_put_of_ne (hne : ¬ (r = .dict a ∧ seg = .key key)) (value : Ref α) :
    child (put h a key value) r seg = child h r seg := by
  cases r with
  | atom a => rfl
  | list items => cases seg <;> rfl
  | dict b =>
    cases seg with
    | item => rfl
    | key k =>
      rw [child, child]
      by_cases hb : b = a
      · subst hb
        have hk : k ≠ key := fun hk => hne ⟨rfl, hk ▸ rfl⟩
        rw [cells_put_same, lookup_setItems, if_neg hk]
      · rw [cells_put_of_ne hb]

/-! ## §3 Frames -/

theorem reach_of_same (hsame : ∀ path a, reach h path r = some (.dict a) → h'.cells a = h.cells a)
    (path : List (Seg κ)) : reach h' path r = reach h path r := by
  induction path generalizing r with
  | nil => rfl
  | cons seg path ih =>
    have hchild : child h' r seg = child h r seg := by
      cases r with
      | dict b => cases seg <;> simp only [child, hsame [] b rfl]
      | atom => rfl
      | list => cases seg <;> rfl
    rw [reach_cons, reach_cons, hchild]
    cases hnext : child h r seg with
    | none => rfl
    | some next =>
      refine ih fun path a hpath => hsame (seg :: path) a ?_
      rw [reach_cons, hnext, Option.bind_some, hpath]

theorem reach_put_frame (hr : ∀ path, reach h path r ≠ some (.dict a)) (key : κ) (value : Ref α)
    (path : List (Seg κ)) : reach (put h a key value) path r = reach h path r :=
  reach_of_same (fun path b hpath =>
    cells_put_of_ne (fun hb : b = a => hr path (hb ▸ hpath)) key value) path

/-- Nothing changes beside the place of a write, where it is the only one of the dictionary. -/
theorem reach_put_beside (hunique : ∀ path, reach h path r = some (.dict a) → path = place)
    (hbeside : ¬ place ++ [.key key] <+: path) (value : Ref α) :
    reach (put h a key value) path r = reach h path r := by
  induction path generalizing r place with
  | nil => rfl
  | cons seg path ih =>
    have hne : ¬ (r = .dict a ∧ seg = .key key) := by
      rintro ⟨rfl, rfl⟩
      obtain rfl := hunique [] rfl
      exact hbeside ⟨path, rfl⟩
    rw [reach_cons, reach_cons, child_put_of_ne hne]
    cases hchild : child h r seg with
    | none => rfl
    | some next =>
      have hplace : ∀ path, reach h path next = some (.dict a) → seg :: path = place := by
        intro path hpath
        apply hunique
        rw [reach_cons, hchild, Option.bind_some, hpath]
      by_cases hleads : ∃ path, reach h path next = some (.dict a)
      · obtain ⟨inner, hinner⟩ := hleads
        obtain rfl := hplace inner hinner
        refine ih (fun path hpath => (List.cons.inj (hplace path hpath)).2) ?_
        exact fun ⟨rest, hrest⟩ => hbeside ⟨rest, by rw [← hrest]; rfl⟩
      · exact reach_put_frame (fun path hpath => hleads ⟨path, hpath⟩) key value path

theorem not_beside (place : List (Seg κ)) (key : κ) : ¬ place ++ [.key key] <+: place := by
  rintro ⟨rest, hrest⟩
  have hlength := congrArg List.length hrest
  simp only [length_append, length_singleton] at hlength
  omega

theorem reach_put_at (hunique : ∀ path, reach h path r = some (.dict a) → path = place)
    (hplace : reach h place r = some (.dict a))
    (hvalue : ∀ path, reach h path value ≠ some (.dict a)) (rest : List (Seg κ)) :
    reach (put h a key value) (place ++ .key key :: rest) r = reach h rest value := by
  have hsame := reach_put_beside hunique (not_beside place key) value
  rw [reach_append_of (hsame.trans hplace), reach_cons, child_put_same, Option.bind_some]
  exact reach_put_frame hvalue key value rest

/-! ## §4 Trees -/

/-- No dictionary from the address `n` on lies at two paths. -/
def Tree (n : ℕ) (h : Heap κ α) (r : Ref α) : Prop :=
  ∀ path path' a, n ≤ a → reach h path r = some (.dict a) → reach h path' r = some (.dict a) →
    path = path'

/-- No dictionary from the address `n` on lies in both values. -/
def Apart (n : ℕ) (h : Heap κ α) (r other : Ref α) : Prop :=
  ∀ path path' a, n ≤ a → reach h path r = some (.dict a) → reach h path' other ≠ some (.dict a)

variable {n : ℕ}

theorem Apart.symm (hapart : Apart n h r other) : Apart n h other r :=
  fun path path' a ha hpath hpath' => hapart path' path a ha hpath' hpath

theorem Tree.of_reach (htree : Tree n h root) (hplace : reach h place root = some value) :
    Tree n h value := by
  intro path path' b hb hpath hpath'
  rw [← reach_append_of hplace] at hpath hpath'
  exact append_cancel_left (htree _ _ b hb hpath hpath')

section Put

variable (htree : Tree n h root) (ha : n ≤ a) (hplace : reach h place root = some (.dict a))
  (hapart : Apart n h root value)

include htree ha hplace hapart

theorem reach_put_cases (key : κ) (path : List (Seg κ)) :
    (∃ rest, path = place ++ .key key :: rest ∧
        reach (put h a key value) path root = reach h rest value) ∨
      (¬ place ++ [.key key] <+: path ∧
        reach (put h a key value) path root = reach h path root) := by
  have hunique : ∀ path, reach h path root = some (.dict a) → path = place :=
    fun path hpath => htree path place a ha hpath hplace
  by_cases hvia : place ++ [.key key] <+: path
  · obtain ⟨rest, rfl⟩ := hvia
    refine .inl ⟨rest, by rw [append_assoc, singleton_append], ?_⟩
    rw [append_assoc, singleton_append]
    exact reach_put_at hunique hplace (fun path => hapart place path a ha hplace) rest
  · exact .inr ⟨hvia, reach_put_beside hunique hvia value⟩

theorem tree_put (hvalue : Tree n h value) (key : κ) : Tree n (put h a key value) root := by
  intro path path' b hb hpath hpath'
  rcases reach_put_cases htree ha hplace hapart key path with ⟨rest, rfl, heq⟩ | ⟨-, heq⟩ <;>
    rcases reach_put_cases htree ha hplace hapart key path' with ⟨rest', rfl, heq'⟩ | ⟨-, heq'⟩ <;>
      rw [heq] at hpath <;> rw [heq'] at hpath'
  · rw [hvalue rest rest' b hb hpath hpath']
  · exact absurd hpath (hapart path' rest b hb hpath')
  · exact absurd hpath' (hapart path rest' b hb hpath)
  · exact htree path path' b hb hpath hpath'

theorem apart_put (hother : Apart n h root other) (hvalue : Apart n h value other) (key : κ) :
    Apart n (put h a key value) root other := by
  intro path path' b hb hpath
  rw [reach_put_frame fun path => hother place path a ha hplace]
  rcases reach_put_cases htree ha hplace hapart key path with ⟨rest, rfl, heq⟩ | ⟨-, heq⟩
  · exact hvalue rest path' b hb (heq.symm.trans hpath)
  · exact hother path path' b hb (heq.symm.trans hpath)

end Put

theorem Apart.reach_put (hother : Apart n h root other) (ha : n ≤ a)
    (hplace : reach h place root = some (.dict a)) (key : κ) (value : Ref α)
    (path : List (Seg κ)) : reach (put h a key value) path other = reach h path other :=
  reach_put_frame (fun path => hother place path a ha hplace) key value path

/-! ## §5 Old dictionaries -/

/-- All dictionaries of the value that are not behind another one have smaller addresses. -/
inductive Below (n : ℕ) : Ref α → Prop
  | atom (a : α) : Below n (.atom a)
  | list {items : List (Ref α)} (h : ∀ r ∈ items, Below n r) : Below n (.list items)
  | dict {address : ℕ} (h : address < n) : Below n (.dict address)

/-- Dictionaries with smaller addresses lead to such dictionaries only. -/
def Closed (h : Heap κ α) (n : ℕ) : Prop := ∀ a < n, ∀ item ∈ h.cells a, Below n item.2

theorem Below.child (hr : Below n r) (hclosed : Closed h n) (hchild : child h r seg = some value) :
    Below n value := by
  cases hr with
  | atom => cases hchild
  | list hitems =>
    cases seg with
    | key => cases hchild
    | item => exact hitems value (mem_of_getElem? hchild)
  | @dict address haddress =>
    cases seg with
    | item => cases hchild
    | key key =>
      obtain ⟨before, after, hcell, -⟩ := lookup_eq_some_iff.mp hchild
      refine hclosed address haddress (key, value) ?_
      rw [hcell]
      exact mem_append_right _ mem_cons_self

theorem Below.reach (hr : Below n r) (hclosed : Closed h n) (hreach : reach h path r = some value) :
    Below n value := by
  induction path generalizing r with
  | nil =>
    obtain rfl := Option.some.inj hreach
    exact hr
  | cons seg path ih =>
    obtain ⟨next, hchild, hrest⟩ := Option.bind_eq_some_iff.mp hreach
    exact ih (hr.child hclosed hchild) hrest

theorem Below.address_lt {b : ℕ} (hr : Below n r) (hclosed : Closed h n)
    (hreach : ObjectHeap.reach h path r = some (.dict b)) : b < n := by
  have hbelow := hr.reach hclosed hreach
  cases hbelow with
  | dict hlt => exact hlt

theorem reach_of_agree (hclosed : Closed h n) (hagree : ∀ b < n, h'.cells b = h.cells b)
    (hr : Below n r) (path : List (Seg κ)) : reach h' path r = reach h path r :=
  reach_of_same (fun _ b hpath => hagree b (hr.address_lt hclosed hpath)) path

theorem Below.mono {m : ℕ} (hr : Below n r) (hle : n ≤ m) : Below m r := by
  induction hr with
  | atom a => exact .atom a
  | list _ ih => exact .list ih
  | dict h => exact .dict (Nat.lt_of_lt_of_le h hle)

theorem closed_alloc (hclosed : Closed h h.next) : Closed (alloc h) (alloc h).next := by
  intro b hb item hitem
  by_cases hnext : b = h.next
  · rw [hnext, cells_alloc_next] at hitem
    cases hitem
  · have hlt : b < h.next := Nat.lt_of_le_of_ne (Nat.lt_succ_iff.mp hb) hnext
    rw [cells_alloc_of_ne hnext] at hitem
    exact (hclosed b hlt item hitem).mono (Nat.le_succ _)

theorem closed_put (hclosed : Closed h n) (hvalue : Below n value) (a : ℕ) (key : κ) :
    Closed (put h a key value) n := by
  intro b hb item hitem
  by_cases ha : b = a
  · subst ha
    rw [cells_put_same] at hitem
    have hset : ∀ items : List (κ × Ref α), (∀ item ∈ items, Below n item.2) →
        ∀ item ∈ setItems key value items, Below n item.2 := by
      intro items
      induction items with
      | nil => simpa [setItems] using hvalue
      | cons first items ih =>
        intro hall
        obtain ⟨hfirst, hrest⟩ := forall_mem_cons.mp hall
        rw [setItems]
        split
        · exact forall_mem_cons.mpr ⟨hvalue, hrest⟩
        · exact forall_mem_cons.mpr ⟨hfirst, ih hrest⟩
    exact hset _ (hclosed b hb) item hitem
  · rw [cells_put_of_ne ha] at hitem
    exact hclosed b hb item hitem

theorem reach_alloc (hclosed : Closed h h.next) (hr : Below h.next r) (path : List (Seg κ)) :
    reach (alloc h) path r = reach h path r :=
  reach_of_agree hclosed (fun _ hb => cells_alloc_of_ne (Nat.ne_of_lt hb)) hr path

theorem reach_next_eq_some (hreach : reach (alloc h) path (.dict h.next) = some value) :
    path = [] ∧ value = .dict h.next := by
  cases path with
  | nil => exact ⟨rfl, (Option.some.inj hreach).symm⟩
  | cons seg path =>
    have hchild : child (alloc h) (.dict h.next) seg = none := by
      cases seg with
      | item => rfl
      | key => rw [child, cells_alloc_next, lookup_nil]
    rw [reach_cons, hchild] at hreach
    cases hreach

/-- A tree, and trees that are apart from it and from each other. -/
structure Forest (n : ℕ) (h : Heap κ α) (root : Ref α) (others : List (Ref α)) : Prop where
  tree : Tree n h root
  each : ∀ r ∈ others, Tree n h r ∧ Apart n h root r
  apart : others.Pairwise (Apart n h)

variable {others : List (Ref α)}

theorem Forest.put (hforest : Forest n h root (value :: others)) (ha : n ≤ a)
    (hplace : ObjectHeap.reach h place root = some (.dict a)) (key : κ) :
    Forest n (put h a key value) root others := by
  obtain ⟨⟨hvalue, hapart⟩, hothers⟩ := forall_mem_cons.mp hforest.each
  obtain ⟨hvalues, hrest⟩ := pairwise_cons.mp hforest.apart
  have hsame : ∀ r ∈ others, ∀ path, ObjectHeap.reach (ObjectHeap.put h a key value) path r =
      ObjectHeap.reach h path r :=
    fun r hr path => (hothers r hr).2.reach_put ha hplace key value path
  refine ⟨tree_put hforest.tree ha hplace hapart hvalue key, fun r hr => ⟨?_, ?_⟩, ?_⟩
  · intro path path' b hb hpath hpath'
    rw [hsame r hr] at hpath hpath'
    exact (hothers r hr).1 path path' b hb hpath hpath'
  · exact apart_put hforest.tree ha hplace hapart (hothers r hr).2 (hvalues r hr) key
  · refine hrest.imp_of_mem fun hr hr' hboth path path' b hb hpath => ?_
    rw [hsame _ hr] at hpath
    rw [hsame _ hr']
    exact hboth path path' b hb hpath

theorem Forest.alloc (hforest : Forest n h root others) (hclosed : Closed h h.next)
    (hroot : Below h.next root) (hothers : ∀ r ∈ others, Below h.next r) :
    Forest n (alloc h) root (.dict h.next :: others) := by
  have hnew : ∀ r : Ref α, Below h.next r → Apart n (ObjectHeap.alloc h) (.dict h.next) r := by
    intro r hr path path' b _ hpath hpath'
    obtain ⟨-, hb⟩ := reach_next_eq_some hpath
    rw [reach_alloc hclosed hr] at hpath'
    have hlt := hr.address_lt hclosed hpath'
    rw [Ref.dict.inj hb] at hlt
    exact Nat.lt_irrefl _ hlt
  refine ⟨?_, forall_mem_cons.mpr ⟨⟨?_, (hnew root hroot).symm⟩, fun r hr => ⟨?_, ?_⟩⟩,
    pairwise_cons.mpr ⟨fun r hr => hnew r (hothers r hr), ?_⟩⟩
  · intro path path' b hb hpath hpath'
    rw [reach_alloc hclosed hroot] at hpath hpath'
    exact hforest.tree path path' b hb hpath hpath'
  · intro path path' b _ hpath hpath'
    rw [(reach_next_eq_some hpath).1, (reach_next_eq_some hpath').1]
  · intro path path' b hb hpath hpath'
    rw [reach_alloc hclosed (hothers r hr)] at hpath hpath'
    exact (hforest.each r hr).1 path path' b hb hpath hpath'
  · intro path path' b hb hpath
    rw [reach_alloc hclosed hroot] at hpath
    rw [reach_alloc hclosed (hothers r hr)]
    exact (hforest.each r hr).2 path path' b hb hpath
  · refine hforest.apart.imp_of_mem fun hr hr' hboth path path' b hb hpath => ?_
    rw [reach_alloc hclosed (hothers _ hr)] at hpath
    rw [reach_alloc hclosed (hothers _ hr')]
    exact hboth path path' b hb hpath

/-! ## §6 Reading -/

/-- What is seen of a value without going into it; a dictionary has its keys in their order. -/
inductive Outline (κ α : Type*) where
  | atom (a : α)
  | list (length : ℕ)
  | dict (keys : List κ)
  deriving DecidableEq

def outline (h : Heap κ α) : Ref α → Outline κ α
  | .atom a => .atom a
  | .list items => .list items.length
  | .dict address => .dict ((h.cells address).map (·.1))

def look (h : Heap κ α) (path : List (Seg κ)) (r : Ref α) : Option (Outline κ α) :=
  (reach h path r).map (outline h)

theorem look_append_of (hpath : reach h path r = some value) (rest : List (Seg κ)) :
    look h (path ++ rest) r = look h rest value := by rw [look, look, reach_append_of hpath]

theorem look_cons_of (hchild : child h r seg = some value) (rest : List (Seg κ)) :
    look h (seg :: rest) r = look h rest value := by
  rw [look, look, reach_cons, hchild, Option.bind_some]

theorem exists_reach_of_look {keys : List κ} (hlook : look h path r = some (.dict keys)) :
    ∃ a, reach h path r = some (.dict a) := by
  obtain ⟨value, hvalue, houtline⟩ := Option.map_eq_some_iff.mp hlook
  cases value with
  | dict a => exact ⟨a, hvalue⟩
  | atom | list => cases houtline

theorem look_of_reach (hreach : reach h path r = some (.dict a)) :
    look h path r = some (.dict ((h.cells a).map (·.1))) := by
  rw [look, hreach]
  rfl

theorem look_of_same (hsame : ∀ path a, reach h path r = some (.dict a) → h'.cells a = h.cells a)
    (path : List (Seg κ)) : look h' path r = look h path r := by
  rw [look, look, reach_of_same hsame]
  cases hpath : reach h path r with
  | none => rfl
  | some next =>
    cases next with
    | atom | list => rfl
    | dict b => simp only [Option.map_some, outline, hsame path b hpath]

theorem look_of_agree (hclosed : Closed h n) (hagree : ∀ b < n, h'.cells b = h.cells b)
    (hr : Below n r) (path : List (Seg κ)) : look h' path r = look h path r :=
  look_of_same (fun _ b hpath => hagree b (hr.address_lt hclosed hpath)) path

theorem exists_reach_both (hclosed : Closed h n) (hagree : ∀ b < n, b ≠ a → h'.cells b = h.cells b)
    (hr : Below n r) (hpath : reach h path r = some (.dict a)) :
    ∃ path, reach h path r = some (.dict a) ∧ reach h' path r = some (.dict a) := by
  induction path generalizing r with
  | nil => exact ⟨[], hpath, hpath⟩
  | cons seg path ih =>
    by_cases hra : r = .dict a
    · exact ⟨[], congrArg some hra, congrArg some hra⟩
    · obtain ⟨next, hnext, hrest⟩ := Option.bind_eq_some_iff.mp hpath
      have hchild : child h' r seg = some next := by
        rw [← hnext]
        cases hr with
        | atom => rfl
        | list => cases seg <;> rfl
        | @dict b hb =>
          have hba : b ≠ a := fun hba => hra (hba ▸ rfl)
          cases seg <;> simp only [child, hagree b hb hba]
      obtain ⟨inner, hinner, hinner'⟩ := ih (hr.child hclosed hnext) hrest
      refine ⟨seg :: inner, ?_, ?_⟩
      · rw [reach_cons, hnext, Option.bind_some, hinner]
      · rw [reach_cons, hchild, Option.bind_some, hinner']

theorem exists_look_ne (hclosed : Closed h n) (hagree : ∀ b < n, b ≠ a → h'.cells b = h.cells b)
    (hr : Below n r) (hpath : reach h path r = some (.dict a))
    (hkeys : (h'.cells a).map (·.1) ≠ (h.cells a).map (·.1)) :
    ∃ path, look h' path r ≠ look h path r := by
  obtain ⟨inner, hinner, hinner'⟩ := exists_reach_both hclosed hagree hr hpath
  refine ⟨inner, fun hsame => hkeys ?_⟩
  rw [look_of_reach hinner, look_of_reach hinner'] at hsame
  exact Outline.dict.inj (Option.some.inj hsame)

theorem look_put_same {old : Ref α} (hold : (h.cells a).lookup key = some old)
    (hsame : ∀ path, look h path old = look h path value) (path : List (Seg κ)) (r : Ref α) :
    look (put h a key value) path r = look h path r := by
  induction path generalizing r with
  | nil =>
    cases r with
    | atom | list => rfl
    | dict b =>
      rw [look, look, reach_nil, reach_nil, Option.map_some, Option.map_some, outline, outline]
      by_cases hb : b = a
      · subst hb
        have hkey : key ∈ (h.cells b).map (·.1) := by
          obtain ⟨before, after, hcell, -⟩ := lookup_eq_some_iff.mp hold
          rw [hcell, map_append]
          exact mem_append_right _ mem_cons_self
        rw [cells_put_same, keys_setItems, if_pos hkey]
      · rw [cells_put_of_ne hb]
  | cons seg path ih =>
    by_cases hedge : r = .dict a ∧ seg = .key key
    · obtain ⟨rfl, rfl⟩ := hedge
      have hbefore : child h (.dict a) (.key key) = some old := hold
      rw [look_cons_of (child_put_same h a key value), look_cons_of hbefore, ih, hsame]
    · have hchild : child (put h a key value) r seg = child h r seg := child_put_of_ne hedge value
      cases hnext : child h r seg with
      | none =>
        rw [look, look, reach_cons, reach_cons, hchild, hnext]
        rfl
      | some next => rw [look_cons_of (hchild.trans hnext), look_cons_of hnext, ih]

def part : Nested κ α → Seg κ → Option (Nested κ α)
  | .dict items, .key key => items.lookup key
  | .list items, .item index => items[index]?
  | _, _ => none

def descend : List (Seg κ) → Nested κ α → Option (Nested κ α)
  | [], v => some v
  | seg :: path, v => (part v seg).bind (descend path)

def outlineOf : Nested κ α → Outline κ α
  | .atom a => .atom a
  | .list items => .list items.length
  | .dict items => .dict (items.map (·.1))

def observe (path : List (Seg κ)) (v : Nested κ α) : Option (Outline κ α) :=
  (descend path v).map outlineOf

def Reads (h : Heap κ α) (r : Ref α) (v : Nested κ α) : Prop :=
  ∀ path, look h path r = observe path v

variable {v w : Nested κ α}

theorem observe_cons_of (hpart : part v seg = some w) (path : List (Seg κ)) :
    observe (seg :: path) v = observe path w := by
  rw [observe, observe, descend, hpart, Option.bind_some]

theorem Reads.of_child (hreads : Reads h r v) (hchild : child h r seg = some value) :
    ∃ w, part v seg = some w ∧ Reads h value w := by
  cases hpart : part v seg with
  | none =>
    have hseg := hreads [seg]
    rw [look_cons_of hchild, observe, descend, hpart] at hseg
    cases hseg
  | some w =>
    refine ⟨w, rfl, fun path => ?_⟩
    rw [← look_cons_of hchild, hreads, observe_cons_of hpart]

theorem Reads.child_of (hreads : Reads h r v) (hpart : part v seg = some w) :
    ∃ value, child h r seg = some value ∧ Reads h value w := by
  cases hchild : child h r seg with
  | none =>
    have hseg := hreads [seg]
    rw [observe_cons_of hpart, look, reach_cons, hchild] at hseg
    cases hseg
  | some value =>
    obtain ⟨w', hpart', hvalue⟩ := hreads.of_child hchild
    rw [hpart, Option.some.injEq] at hpart'
    exact ⟨value, rfl, hpart' ▸ hvalue⟩

theorem reads_atom (h : Heap κ α) (a : α) : Reads h (.atom a) (.atom a)
  | [] => rfl
  | seg :: path => by cases seg <;> rfl

theorem reads_dict {items : List (κ × Nested κ α)}
    (hitems : List.Forall₂ (fun cell item => cell.1 = item.1 ∧ Reads h cell.2 item.2) (h.cells a)
      items) : Reads h (.dict a) (.dict items) := by
  intro path
  cases path with
  | nil =>
    refine congrArg (some ∘ Outline.dict) ?_
    rw [← forall₂_eq_eq_eq, forall₂_map_left_iff, forall₂_map_right_iff]
    exact hitems.imp fun _ _ hitem => hitem.1
  | cons seg path =>
    cases seg with
    | item => rfl
    | key key =>
      rw [look, observe, reach_cons, descend, child, part]
      generalize h.cells a = cells at hitems
      induction hitems with
      | nil => rfl
      | @cons cell item _ _ hitem _ ih =>
        rw [lookup_cons_ite, lookup_cons_ite, hitem.1]
        split
        · exact hitem.2 path
        · exact ih

inductive Distinct : Nested κ α → Prop
  | atom (a : α) : Distinct (.atom a)
  | list {items : List (Nested κ α)} (h : ∀ v ∈ items, Distinct v) : Distinct (.list items)
  | dict {items : List (κ × Nested κ α)} (hnodup : (items.map (·.1)).Nodup)
      (h : ∀ item ∈ items, Distinct item.2) : Distinct (.dict items)

theorem Distinct.of_part (hv : Distinct v) (hpart : part v seg = some w) :
    Distinct w := by
  cases hv with
  | atom => cases hpart
  | list hitems =>
    cases seg with
    | key => cases hpart
    | item => exact hitems w (mem_of_getElem? hpart)
  | dict _ hitems =>
    cases seg with
    | item => cases hpart
    | key key =>
      obtain ⟨before, after, heq, -⟩ := lookup_eq_some_iff.mp hpart
      refine hitems (key, w) ?_
      rw [heq]
      exact mem_append_right _ mem_cons_self

theorem Distinct.of_descend (hv : Distinct v) (hpath : descend path v = some w) : Distinct w := by
  induction path generalizing v with
  | nil =>
    obtain rfl := Option.some.inj hpath
    exact hv
  | cons seg path ih =>
    obtain ⟨next, hnext, hrest⟩ := Option.bind_eq_some_iff.mp hpath
    exact ih (hv.of_part hnext) hrest

theorem observe_append (path rest : List (Seg κ)) (v : Nested κ α) :
    observe (path ++ rest) v = (descend path v).bind (observe rest) := by
  induction path generalizing v with
  | nil => rfl
  | cons seg path ih =>
    rw [cons_append, observe, descend, descend, Option.map_bind, Option.bind_assoc]
    exact congrArg _ (funext ih)

theorem eq_of_observe (hv : Distinct v) (hw : Distinct w)
    (h : ∀ path, observe path v = observe path w) : v = w := by
  induction hv generalizing w with
  | atom a =>
    have hnil := Option.some.inj (h [])
    cases w with
    | atom b => exact congrArg Nested.atom (Outline.atom.inj hnil)
    | list | dict => cases hnil
  | @list items _ ih =>
    have hnil := Option.some.inj (h [])
    cases hw with
    | atom | dict => cases hnil
    | @list others hothers =>
      refine congrArg Nested.list (ext_getElem (Outline.list.inj hnil) fun i hi hi' => ?_)
      refine ih _ (getElem_mem hi) (hothers _ (getElem_mem hi')) fun path => ?_
      have hpart : part (.list items) (.item i : Seg κ) = some items[i] :=
        List.getElem?_eq_getElem hi
      have hpart' : part (.list others) (.item i : Seg κ) = some others[i] :=
        List.getElem?_eq_getElem hi'
      have hstep := h (.item i :: path)
      rwa [observe_cons_of hpart, observe_cons_of hpart'] at hstep
  | @dict items hnodup _ ih =>
    have hnil := Option.some.inj (h [])
    cases hw with
    | atom | list => cases hnil
    | @dict others hnodup' hothers =>
      have hkeys : items.map (·.1) = others.map (·.1) := Outline.dict.inj hnil
      have hlength : items.length = others.length := by
        rw [← length_map (·.1), hkeys, length_map]
      refine congrArg Nested.dict (ext_getElem hlength fun i hi hi' => ?_)
      have hkey : items[i].1 = others[i].1 := by
        have hget := congrArg (·[i]?) hkeys
        simpa [List.getElem?_eq_getElem hi, List.getElem?_eq_getElem hi'] using hget
      have hfound : part (.dict items) (.key items[i].1) = some items[i].2 :=
        (get?_eq_some_iff (d := ⟨items, hnodup⟩)).mpr (getElem_mem hi)
      have hfound' : part (.dict others) (.key items[i].1) = some others[i].2 := by
        rw [hkey]
        exact (get?_eq_some_iff (d := ⟨others, hnodup'⟩)).mpr (getElem_mem hi')
      refine Prod.ext hkey (ih _ (getElem_mem hi) (hothers _ (getElem_mem hi')) fun path => ?_)
      have hstep := h (.key items[i].1 :: path)
      rwa [observe_cons_of hfound, observe_cons_of hfound'] at hstep

end Ace3.Lib.ObjectHeap
