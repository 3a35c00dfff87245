import Ace3.Lib.Firsts
import Ace3.Query.HeapWalk

/-!
# The Copy for a Combination

The flattened event is copied for every combination of elements, but the elements themselves are
the ones of the event. The walks that set the elements stay in the copy, unless one of them goes
through an element that is a dictionary.
-/

namespace Ace3.Query

open List Function
open Lib Lib.Firsts Lib.Nested Lib.ObjectHeap

variable {b h : EventHeap} {r value : ObjRef} {v : Val}

/-! ## §1 The copy -/

theorem shiftRefs_eq (offset : ℕ) (items : List ObjRef) :
    shiftRefs offset items = items.map (shiftRef offset) := by
  induction items with
  | nil => rw [shiftRefs, map_nil]
  | cons r items ih => rw [shiftRefs, ih, map_cons]

theorem cells_copy (b : EventHeap) (address : ℕ) : (copyHeap b).cells (b.next + address) =
    (b.cells address).map fun item => (item.1, shiftRef b.next item.2) := by
  rw [copyHeap]
  simp only [Nat.not_lt.mpr (Nat.le_add_right b.next address), if_false, Nat.add_sub_cancel_left]

theorem cells_copy_old {address : ℕ} (hlt : address < b.next) :
    (copyHeap b).cells address = b.cells address := by
  rw [copyHeap]
  simp only [hlt, if_true]

theorem child_copy (b : EventHeap) (r : ObjRef) (seg : Seg Key) :
    child (copyHeap b) (shiftRef b.next r) seg = (child b r seg).map (shiftRef b.next) := by
  cases r with
  | atom a => rw [shiftRef]; cases seg <;> rfl
  | list items =>
    rw [shiftRef, shiftRefs_eq]
    cases seg with
    | key => rfl
    | item index => exact List.getElem?_map
  | dict address =>
    rw [shiftRef]
    cases seg with
    | item => rfl
    | key key => rw [child, child, cells_copy, lookup_map_snd]

theorem reach_copy (b : EventHeap) (path : List (Seg Key)) (r : ObjRef) :
    reach (copyHeap b) path (shiftRef b.next r) = (reach b path r).map (shiftRef b.next) := by
  induction path generalizing r with
  | nil => rfl
  | cons seg path ih =>
    rw [reach_cons, reach_cons, child_copy]
    cases child b r seg with
    | none => rfl
    | some next => exact ih next

theorem look_copy (b : EventHeap) (path : List (Seg Key)) (r : ObjRef) :
    look (copyHeap b) path (shiftRef b.next r) = look b path r := by
  rw [look, look, reach_copy, Option.map_map]
  refine congrArg (Option.map · _) (funext fun value => ?_)
  cases value with
  | atom a => rw [comp_apply, shiftRef]; rfl
  | list items =>
    rw [comp_apply, shiftRef, shiftRefs_eq, outline, outline, length_map]
  | dict address =>
    rw [comp_apply, shiftRef, outline, outline, cells_copy, map_map]
    rfl

theorem below_shiftRef {n : ℕ} (hr : Below n r) : Below (n + n) (shiftRef n r) := by
  induction hr with
  | atom a => rw [shiftRef]; exact .atom a
  | @list items _ ih =>
    rw [shiftRef, shiftRefs_eq]
    refine .list fun r hr => ?_
    obtain ⟨item, hitem, rfl⟩ := mem_map.mp hr
    exact ih item hitem
  | dict hlt => rw [shiftRef]; exact .dict (Nat.add_lt_add_left hlt n)

theorem closed_copy (hclosed : Closed b b.next) : Closed (copyHeap b) (copyHeap b).next := by
  intro address hlt item hitem
  by_cases hold : address < b.next
  · rw [cells_copy_old hold] at hitem
    exact (hclosed address hold item hitem).mono (Nat.le_add_right _ _)
  · obtain ⟨offset, rfl⟩ := Nat.exists_eq_add_of_le (Nat.not_lt.mp hold)
    rw [cells_copy] at hitem
    obtain ⟨old, hmem, rfl⟩ := mem_map.mp hitem
    exact below_shiftRef (hclosed offset (Nat.lt_of_add_lt_add_left hlt) old hmem)

/-! ## §2 Elements in place -/

/-- The value was set, and nothing was set above it or in its place since then. -/
def Placed {β : Type*} (done : List (List Key × β)) (x : List Key × β) : Prop :=
  ∃ before after, done = before ++ x :: after ∧ ∀ z ∈ after, ¬ z.1 <+: x.1

/-- The path does not go on from a dictionary that was set. -/
def ClearOf {β : Type*} (isDict : β → Bool) (done : List (List Key × β)) (path : List Key) : Prop :=
  ∀ x, Placed done x → isDict x.2 = true → ∀ rest, rest ≠ [] → path ≠ x.1 ++ rest

/-- No path goes on from a dictionary that was set before. -/
def ClearWay {β : Type*} (isDict : β → Bool) (assigned : List (List Key × β)) : Prop :=
  EachAfter (fun done y => ClearOf isDict done y.1) [] assigned

section Placed

variable {β γ : Type*} {done : List (List Key × β)} {x y : List Key × β} {isDict : β → Bool}
  {isDict' : γ → Bool} {assigned' : List (List Key × γ)}

theorem Placed.mem (hplaced : Placed done x) : x ∈ done := by
  obtain ⟨before, after, rfl, -⟩ := hplaced
  exact mem_append_right _ mem_cons_self

theorem placed_concat_iff :
    Placed (done ++ [y]) x ↔ x = y ∨ (Placed done x ∧ ¬ y.1 <+: x.1) := by
  constructor
  · rintro ⟨before, after, heq, hafter⟩
    induction after using List.reverseRecOn with
    | nil =>
      obtain ⟨-, hlast⟩ := append_inj' heq rfl
      exact .inl (singleton_inj.mp hlast).symm
    | append_singleton after z _ =>
      rw [← cons_append, ← append_assoc] at heq
      obtain ⟨rfl, hlast⟩ := append_inj' heq rfl
      obtain rfl := singleton_inj.mp hlast
      refine .inr ⟨⟨before, after, rfl, fun z hz => hafter z (mem_append_left _ hz)⟩, ?_⟩
      exact hafter y (mem_append_right _ (mem_singleton_self y))
  · rintro (rfl | ⟨⟨before, after, rfl, hafter⟩, hy⟩)
    · exact ⟨done, [], rfl, fun _ hz => absurd hz not_mem_nil⟩
    · refine ⟨before, after ++ [y], by simp, fun z hz => ?_⟩
      rcases mem_append.mp hz with hz | hz
      · exact hafter z hz
      · rw [mem_singleton.mp hz]
        exact hy

theorem ClearOf.congr {done' : List (List Key × γ)} {path : List Key}
    (heq : done.map (fun x => (x.1, isDict x.2)) = done'.map fun x => (x.1, isDict' x.2))
    (hclear : ClearOf isDict done path) : ClearOf isDict' done' path := by
  rintro x ⟨before, after, rfl, hafter⟩ hdict rest hrest
  rw [map_append, map_cons] at heq
  obtain ⟨before', _, rfl, -, hmap⟩ := map_eq_append_iff.mp heq
  obtain ⟨x', after', rfl, hx, hmap'⟩ := map_eq_cons_iff.mp hmap
  obtain ⟨hpath, hsame⟩ := Prod.mk.inj hx
  rw [← hpath]
  refine hclear x' ⟨before', after', rfl, fun z hz => ?_⟩ (hsame.trans hdict) rest hrest
  have hmem : (z.1, isDict z.2) ∈ after.map fun x => (x.1, isDict' x.2) := by
    rw [← hmap']
    exact mem_map_of_mem hz
  obtain ⟨z', hz', heq'⟩ := mem_map.mp hmem
  rw [← (Prod.mk.inj heq').1, hpath]
  exact hafter z' hz'

theorem clearWay_congr {assigned : List (List Key × β)}
    (heq : assigned.map (fun x => (x.1, isDict x.2)) = assigned'.map fun x => (x.1, isDict' x.2))
    (hclear : ClearWay isDict assigned) : ClearWay isDict' assigned' := by
  rintro before y after rfl
  rw [map_append, map_cons] at heq
  obtain ⟨before', _, rfl, hbefore, hmap⟩ := map_eq_append_iff.mp heq
  obtain ⟨y', after', rfl, hy, -⟩ := map_eq_cons_iff.mp hmap
  rw [← (Prod.mk.inj hy).1]
  exact (hclear before' y' after' rfl).congr hbefore

end Placed

/-- The scope in the heap when some elements were set: the heap `b` before it was copied is as it
was, and what the scope leads to is new, except for the elements. -/
structure Scoped (b : EventHeap) (s : ℕ) (done : List (List Key × ObjRef)) (h : EventHeap) :
    Prop where
  lt : s < h.next
  le : b.next ≤ s
  closed : Closed h h.next
  cells : ∀ a < b.next, h.cells a = b.cells a
  tree : Tree b.next h (.dict s)
  origin : ∀ place a, reach h (keySteps place) (.dict s) = some (.dict a) → a < b.next →
    ∃ x, Placed done x ∧ isDictRef x.2 = true ∧ x.1 <+: place
  /-- A dictionary that was set lies at its path. -/
  placed : ∀ x, Placed done x → isDictRef x.2 = true →
    reach h (keySteps x.1) (.dict s) = some x.2

variable {s a flat : ℕ} {done : List (List Key × ObjRef)} {y : List Key × ObjRef} {place rest : List Key}
  {part : Key}

theorem scoped_copy (hclosed : Closed b b.next) (htree : Tree 0 b (.dict flat)) (hflat : flat < b.next) :
    Scoped b (b.next + flat) [] (copyHeap b) := by
  have hnew : ∀ path a, reach (copyHeap b) path (.dict (b.next + flat)) = some (.dict a) →
      ∃ c, reach b path (.dict flat) = some (.dict c) ∧ a = b.next + c := by
    intro path a hpath
    have hcopy := reach_copy b path (.dict flat)
    rw [shiftRef, hpath] at hcopy
    obtain ⟨r, hr, hshift⟩ := Option.map_eq_some_iff.mp hcopy.symm
    cases r with
    | dict c =>
      rw [shiftRef] at hshift
      exact ⟨c, hr, (Ref.dict.inj hshift).symm⟩
    | atom | list =>
      rw [shiftRef] at hshift
      cases hshift
  exact {
    lt := Nat.add_lt_add_left hflat b.next
    le := Nat.le_add_right _ _
    closed := closed_copy hclosed
    cells := fun a ha => cells_copy_old ha
    tree := fun path path' a _ hpath hpath' => by
      obtain ⟨c, hc, rfl⟩ := hnew path a hpath
      obtain ⟨c', hc', heq⟩ := hnew path' _ hpath'
      rw [← Nat.add_left_cancel heq] at hc'
      exact htree path path' c c.zero_le hc hc'
    origin := fun place a hplace ha => by
      obtain ⟨c, -, rfl⟩ := hnew _ a hplace
      exact absurd ha (Nat.not_lt.mpr (Nat.le_add_right _ _))
    placed := fun x hplaced => absurd hplaced.mem not_mem_nil }

/-! ## §3 Setting an element -/

theorem Scoped.le_of_clear (hS : Scoped b s done h) (hclear : ClearOf isDictRef done y.1)
    (hplace : reach h (keySteps place) (.dict s) = some (.dict a)) (hrest : rest ≠ [])
    (hpath : y.1 = place ++ rest) : b.next ≤ a := by
  by_contra hlt
  obtain ⟨x, hplaced, hdict, inner, rfl⟩ := hS.origin place a hplace (Nat.not_le.mp hlt)
  refine hclear x hplaced hdict (inner ++ rest) ?_ ?_
  · exact fun h => hrest (append_eq_nil_iff.mp h).2
  · rw [hpath, append_assoc]

theorem Scoped.withNew (hS : Scoped b s done h)
    (hplace : reach h (keySteps place) (.dict s) = some (.dict a)) (ha : b.next ≤ a)
    (hmissing : ∀ c, (h.cells a).lookup part ≠ some (.dict c)) :
    Scoped b s done (putNew h a part) ∧
      reach (putNew h a part) (keySteps (place ++ [part])) (.dict s) = some (.dict h.next) := by
  have hroot : Below h.next (.dict s : ObjRef) := .dict hS.lt
  have hnext : b.next ≤ h.next := hS.le.trans hS.lt.le
  have hcases := reach_putNew_cases hS.closed hroot ha hplace hS.tree part
  have hforest : Forest b.next h (.dict s) [] :=
    ⟨hS.tree, fun _ hr => absurd hr not_mem_nil, .nil⟩
  refine ⟨{
    lt := hS.lt.trans (Nat.lt_succ_self _)
    le := hS.le
    closed := closed_putNew hS.closed a part
    cells := fun c hc =>
      (cells_putNew (Nat.ne_of_lt (hc.trans_le ha)) (hc.trans_le hnext)).trans (hS.cells c hc)
    tree := (forest_putNew hS.closed hroot ha hplace hforest
      fun _ hr => absurd hr not_mem_nil).tree
    origin := fun place' c hplace' hc => ?_
    placed := fun x hplaced hdict => ?_ }, ?_⟩
  · rcases hcases (keySteps place') with ⟨-, heq⟩ | ⟨-, heq⟩ | ⟨-, heq⟩ <;> rw [heq] at hplace'
    · rw [← Ref.dict.inj (Option.some.inj hplace')] at hc
      exact absurd hc (Nat.not_lt.mpr hnext)
    · cases hplace'
    · exact hS.origin place' c hplace' hc
  · have hx := hS.placed x hplaced hdict
    have hnot : ¬ keySteps place ++ [.key part] <+: keySteps x.1 := by
      rintro ⟨rest, hvia⟩
      rw [append_assoc, singleton_append] at hvia
      obtain ⟨inner, hinner⟩ := exists_keys_of_via hvia.symm
      rw [hinner] at hx
      obtain ⟨c, hc⟩ := exists_lookup_dict hplace hx hdict
      exact hmissing c hc
    rcases hcases (keySteps x.1) with ⟨hvia, -⟩ | ⟨hvia, -⟩ | ⟨-, heq⟩
    · exact absurd (hvia ▸ prefix_rfl) hnot
    · exact absurd hvia hnot
    · rw [heq, hx]
  · rw [keySteps_append]
    exact reach_putNew_at hS.closed hroot ha hplace hS.tree

theorem Scoped.withValue (hbase : Closed b b.next) (hS : Scoped b s done h)
    (hplace : reach h (keySteps place) (.dict s) = some (.dict a)) (ha : b.next ≤ a)
    (hpath : y.1 = place ++ [part]) (hy : Below b.next y.2) :
    Scoped b s (done ++ [y]) (put h a part y.2) := by
  have hold : ∀ path c, reach h path y.2 = some (.dict c) → c < b.next := by
    intro path c hpath
    rw [reach_of_agree hbase hS.cells hy] at hpath
    exact hy.address_lt hbase hpath
  have hapart : Apart b.next h (.dict s) y.2 := fun path path' c hc _ hpath' =>
    absurd (hold path' c hpath') (Nat.not_lt.mpr hc)
  have hcases := fun path => reach_put_cases hS.tree ha hplace hapart part path
  have hat : keySteps place ++ [.key part] = keySteps y.1 := by
    rw [hpath, keySteps_append]
    rfl
  have hybelow : Below h.next y.2 := hy.mono (hS.le.trans hS.lt.le)
  refine {
    lt := hS.lt
    le := hS.le
    closed := closed_put hS.closed hybelow a part
    cells := fun c hc => (cells_put_of_ne (Nat.ne_of_lt (hc.trans_le ha)) part y.2).trans (hS.cells c hc)
    tree := tree_put hS.tree ha hplace hapart
      (fun path path' c hc hpath _ => absurd (hold path c hpath) (Nat.not_lt.mpr hc)) part
    origin := fun place' c hplace' hc => ?_
    placed := fun x hplaced hdict => ?_ }
  · rcases hcases (keySteps place') with ⟨rest, hvia, heq⟩ | ⟨hbeside, heq⟩ <;> rw [heq] at hplace'
    · obtain ⟨inner, rfl⟩ := exists_keys_of_via hvia
      have hinner : keySteps inner = rest := by
        rw [keySteps_append] at hvia
        exact (List.cons.inj (append_cancel_left hvia)).2
      rw [← hinner] at hplace'
      refine ⟨y, placed_concat_iff.mpr (.inl rfl), ?_, ?_⟩
      · cases inner with
        | nil =>
          rw [Option.some.inj hplace']
          rfl
        | cons key inner =>
          obtain ⟨_, hchild, -⟩ := Option.bind_eq_some_iff.mp hplace'
          exact isDictRef_of_child hchild
      · rw [hpath]
        exact ⟨inner, by rw [append_assoc, singleton_append]⟩
    · obtain ⟨x, hplaced, hdict, hpre⟩ := hS.origin place' c hplace' hc
      refine ⟨x, placed_concat_iff.mpr (.inr ⟨hplaced, fun hyx => hbeside ?_⟩), hdict, hpre⟩
      rw [hat]
      exact keySteps_prefix_iff.mpr (hyx.trans hpre)
  · rcases placed_concat_iff.mp hplaced with rfl | ⟨hplaced, hnot⟩
    · have hunique : ∀ path, reach h path (.dict s) = some (.dict a) → path = keySteps place :=
        fun path hpath => hS.tree path _ a ha hpath hplace
      rw [← hat]
      exact reach_put_at hunique hplace (fun path => hapart _ path a ha hplace) []
    · rcases hcases (keySteps x.1) with ⟨rest, hvia, -⟩ | ⟨-, heq⟩
      · obtain ⟨inner, hinner⟩ := exists_keys_of_via hvia
        refine absurd ⟨inner, ?_⟩ hnot
        rw [hpath, hinner, append_assoc, singleton_append]
      · rw [heq, hS.placed x hplaced hdict]

theorem Scoped.walk (hbase : Closed b b.next) (hclear : ClearOf isDictRef done y.1)
    (hy : Below b.next y.2) (hS : Scoped b s done h)
    (hplace : reach h (keySteps place) (.dict s) = some (.dict a)) (hrest : rest ≠ [])
    (hpath : y.1 = place ++ rest) : Scoped b s (done ++ [y]) (walkAndSet false y.2 rest a h) := by
  induction rest generalizing place a h with
  | nil => exact absurd rfl hrest
  | cons part rest ih =>
    have ha := hS.le_of_clear hclear hplace hrest hpath
    cases rest with
    | nil => exact hS.withValue hbase hplace ha hpath hy
    | cons key rest =>
      have hpath' : y.1 = (place ++ [part]) ++ key :: rest := by
        rw [hpath, append_assoc, singleton_append]
      rw [walkAndSet_cons (cons_ne_nil _ _)]
      split
      case h_1 c hc =>
        have hnext : reach h (keySteps (place ++ [part])) (.dict s) = some (.dict c) := by
          rw [keySteps_append, reach_append_of hplace]
          exact reach_cons_of hc []
        exact ih hS hnext (cons_ne_nil _ _) hpath'
      case h_2 hmissing =>
        obtain ⟨hnew, hnext⟩ := hS.withNew hplace ha fun c hc => hmissing c hc
        exact ih hnew hnext (cons_ne_nil _ _) hpath'

end Ace3.Query
