import Ace3.Query.ListExpansion
import Ace3.Query.SharedEvent

/-!
# Walks in the Heap

What a walk writes, and what is read afterwards: as long as it does not write into dictionaries that
lie somewhere else too, it does to the value that is read what the walk through nested containers
does.
-/

namespace Ace3.Query

open List
open Lib Lib.Nested Lib.ObjectHeap

variable {h h' : EventHeap} {a b n : ℕ} {r value : ObjRef} {place rest : List Key} {part : Key}
  {keep : Bool}

/-! ## §1 Paths of keys -/

def keySteps (path : List Key) : List (Seg Key) := path.map .key

theorem keySteps_append (path rest : List Key) :
    keySteps (path ++ rest) = keySteps path ++ keySteps rest := map_append

theorem seg_key_injective : Function.Injective (Seg.key : Key → Seg Key) := fun _ _ h => Seg.key.inj h

theorem keySteps_prefix_iff {path place : List Key} :
    keySteps path <+: keySteps place ↔ path <+: place :=
  prefix_map_iff_of_injective seg_key_injective

theorem isDictRef_of_child (hchild : child h r (.key part) = some value) : isDictRef r = true := by
  cases r with
  | dict => rfl
  | atom | list => cases hchild

theorem exists_address (hdict : isDictRef r = true) : ∃ b, r = .dict b := by
  cases r with
  | dict b => exact ⟨b, rfl⟩
  | atom | list => cases hdict

theorem exists_dict_of_any {found : Option ObjRef} (h : found.any isDictRef = true) :
    ∃ b, found = some (.dict b) := by
  cases found with
  | none => cases h
  | some r =>
    obtain ⟨b, rfl⟩ := exists_address (r := r) h
    exact ⟨b, rfl⟩

theorem lookup_of_reach (hreach : reach h (keySteps [part]) (.dict a) = some value) :
    (h.cells a).lookup part = some value := by
  obtain ⟨next, hnext, hnil⟩ := Option.bind_eq_some_iff.mp hreach
  exact hnext.trans hnil

theorem reach_cons_of (hb : (h.cells a).lookup part = some (.dict b)) (path : List (Seg Key)) :
    reach h (.key part :: path) (.dict a) = reach h path (.dict b) := by
  have hchild : child h (.dict a) (.key part) = some (.dict b) := hb
  rw [reach_cons, hchild, Option.bind_some]

theorem exists_dict_of_reach (hreach : reach h (keySteps (place ++ part :: rest)) r = some value) :
    ∃ b, reach h (keySteps place) r = some (.dict b) := by
  rw [keySteps_append, reach_append] at hreach
  obtain ⟨mid, hmid, hchild⟩ := Option.bind_eq_some_iff.mp hreach
  obtain ⟨next, hnext, -⟩ := Option.bind_eq_some_iff.mp hchild
  obtain ⟨b, rfl⟩ := exists_address (isDictRef_of_child hnext)
  exact ⟨b, hmid⟩

theorem exists_lookup_dict (hplace : reach h (keySteps place) r = some (.dict a))
    (hreach : reach h (keySteps (place ++ part :: rest)) r = some value)
    (hvalue : isDictRef value = true) : ∃ b, (h.cells a).lookup part = some (.dict b) := by
  rw [keySteps_append, reach_append_of hplace] at hreach
  obtain ⟨next, hnext, hrest⟩ := Option.bind_eq_some_iff.mp hreach
  have hdict : isDictRef next = true := by
    cases rest with
    | nil =>
      rw [Option.some.inj hrest]
      exact hvalue
    | cons key rest =>
      obtain ⟨_, hchild, -⟩ := Option.bind_eq_some_iff.mp hrest
      exact isDictRef_of_child hchild
  obtain ⟨b, rfl⟩ := exists_address hdict
  exact ⟨b, hnext⟩

theorem exists_keys_of_via {path : List Key} {rest : List (Seg Key)}
    (hvia : keySteps path = keySteps place ++ .key part :: rest) :
    ∃ inner, path = place ++ part :: inner := by
  have hpre : keySteps (place ++ [part]) <+: keySteps path := by
    rw [hvia, keySteps_append]
    exact ⟨rest, by rw [append_assoc]; rfl⟩
  obtain ⟨inner, rfl⟩ := keySteps_prefix_iff.mp hpre
  exact ⟨inner, by rw [append_assoc, singleton_append]⟩

/-! ## §2 What is written -/

def putNew (h : EventHeap) (a : ℕ) (part : Key) : EventHeap := put (alloc h) a part (.dict h.next)

theorem lookup_putNew (h : EventHeap) (a : ℕ) (part : Key) :
    ((putNew h a part).cells a).lookup part = some (.dict h.next) :=
  child_put_same (alloc h) a part (.dict h.next)

theorem cells_putNew (hba : b ≠ a) (hb : b < h.next) : (putNew h a part).cells b = h.cells b := by
  rw [putNew, cells_put_of_ne hba, cells_alloc_of_ne (Nat.ne_of_lt hb)]

theorem closed_putNew (hclosed : Closed h h.next) (a : ℕ) (part : Key) :
    Closed (putNew h a part) (putNew h a part).next :=
  closed_put (closed_alloc hclosed) (.dict (Nat.lt_succ_self _)) a part

theorem reach_putNew {path : List (Seg Key)} (ha : a < h.next)
    (hreach : reach (putNew h a part) path (.dict h.next) = some r) :
    path = [] ∧ r = .dict h.next := by
  have hleads : ∀ path, reach (alloc h) path (.dict h.next) ≠ some (.dict a) := fun path hpath =>
    Nat.ne_of_lt ha (Ref.dict.inj (reach_next_eq_some hpath).2)
  exact reach_next_eq_some ((reach_put_frame hleads part (.dict h.next) path).symm.trans hreach)

section Place

variable {root : ObjRef} {others : List ObjRef} {spot : List (Seg Key)}
  (hclosed : Closed h h.next) (hroot : Below h.next root) (ha : n ≤ a)
  (hspot : reach h spot root = some (.dict a))

include hclosed hroot ha hspot

theorem reach_putNew_cases (htree : Tree n h root) (part : Key) (path : List (Seg Key)) :
    (path = spot ++ [.key part] ∧ reach (putNew h a part) path root = some (.dict h.next)) ∨
      (spot ++ [.key part] <+: path ∧ reach (putNew h a part) path root = none) ∨
      (¬ spot ++ [.key part] <+: path ∧ reach (putNew h a part) path root = reach h path root) := by
  have hforest : Forest n h root [] :=
    ⟨htree, fun _ hr => absurd hr not_mem_nil, .nil⟩
  have halloc := hforest.alloc hclosed hroot fun _ hr => absurd hr not_mem_nil
  have hspot' : reach (alloc h) spot root = some (.dict a) := by
    rw [reach_alloc hclosed hroot, hspot]
  rcases reach_put_cases halloc.tree ha hspot' (halloc.each _ mem_cons_self).2 part path with
    ⟨rest, rfl, heq⟩ | ⟨hbeside, heq⟩
  · cases rest with
    | nil => exact .inl ⟨rfl, heq⟩
    | cons seg rest =>
      refine .inr (.inl ⟨?_, ?_⟩)
      · exact ⟨seg :: rest, by rw [append_assoc, singleton_append]⟩
      · rw [putNew, heq]
        cases hnext : reach (alloc h) (seg :: rest) (.dict h.next) with
        | none => rfl
        | some r => exact absurd (reach_next_eq_some hnext).1 (cons_ne_nil _ _)
  · exact .inr (.inr ⟨hbeside, heq.trans (reach_alloc hclosed hroot path)⟩)

theorem forest_putNew (hforest : Forest n h root others) (hothers : ∀ r ∈ others, Below h.next r) :
    Forest n (putNew h a part) root others := by
  have hspot' : reach (alloc h) spot root = some (.dict a) := by
    rw [reach_alloc hclosed hroot, hspot]
  exact (hforest.alloc hclosed hroot hothers).put ha hspot' part

theorem reach_putNew_at (htree : Tree n h root) :
    reach (putNew h a part) (spot ++ [.key part]) root = some (.dict h.next) := by
  have hthere : reach (putNew h a part) spot root = some (.dict a) := by
    rcases reach_putNew_cases hclosed hroot ha hspot htree part spot with ⟨heq, -⟩ | ⟨hvia, -⟩ | ⟨-, heq⟩
    · exact absurd (heq ▸ prefix_rfl) (not_beside spot part)
    · exact absurd hvia (not_beside spot part)
    · rw [heq, hspot]
  exact (reach_append_of hthere _).trans (reach_cons_of (lookup_putNew h a part) [])

end Place

theorem walkAndSet_cons (hrest : rest ≠ []) (value : ObjRef) (h : EventHeap) (a : ℕ) :
    walkAndSet keep value (part :: rest) a h =
      match (h.cells a).lookup part with
      | some (.dict existing) => walkAndSet keep value rest existing h
      | _ => walkAndSet keep value rest h.next (putNew h a part) :=
  walkAndSet.eq_3 keep value a h part rest hrest

theorem cells_walkAndSet (hclosed : Closed h h.next) (ha : a < h.next) (hb : b < h.next)
    (hbeside : ∀ path, path <+: rest → path ≠ rest →
      reach h (keySteps path) (.dict a) ≠ some (.dict b)) :
    (walkAndSet keep value rest a h).cells b = h.cells b := by
  induction rest generalizing a h with
  | nil => rfl
  | cons part rest ih =>
    have hba : b ≠ a := fun hba =>
      hbeside [] nil_prefix (cons_ne_nil _ _).symm (congrArg (some ∘ Ref.dict) hba.symm)
    cases rest with
    | nil =>
      rw [walkAndSet]
      split
      · rfl
      · exact cells_put_of_ne hba part value
    | cons key rest =>
      rw [walkAndSet_cons (cons_ne_nil _ _)]
      split
      case h_1 c hc =>
        have hlt : c < h.next := (Below.dict ha).address_lt hclosed (reach_cons_of hc [])
        refine ih hclosed hlt hb fun path hpre hne hpath => ?_
        refine hbeside (part :: path) ((prefix_cons_inj part).mpr hpre)
          (fun heq => hne (List.cons.inj heq).2) ?_
        exact (reach_cons_of hc (keySteps path)).trans hpath
      case h_2 =>
        have hnew := ih (closed_putNew hclosed a part) (Nat.lt_succ_self h.next)
          (hb.trans (Nat.lt_succ_self _)) fun path _ _ hpath =>
            Nat.ne_of_lt hb (Ref.dict.inj (reach_putNew ha hpath).2)
        rw [hnew, cells_putNew hba hb]

theorem walkAndSet_append (hplace : reach h (keySteps place) (.dict a) = some (.dict b))
    (hrest : rest ≠ []) :
    walkAndSet keep value (place ++ rest) a h = walkAndSet keep value rest b h := by
  induction place generalizing a with
  | nil => rw [nil_append, Ref.dict.inj (Option.some.inj hplace)]
  | cons part place ih =>
    obtain ⟨c, hc⟩ : ∃ c, (h.cells a).lookup part = some (.dict c) :=
      exists_lookup_dict (show reach h (keySteps []) (.dict a) = some (.dict a) from rfl) hplace rfl
    have hnext : reach h (keySteps place) (.dict c) = some (.dict b) :=
      (reach_cons_of hc (keySteps place)).symm.trans hplace
    rw [cons_append, walkAndSet_cons fun h => hrest (append_eq_nil_iff.mp h).2]
    simp only [hc]
    exact ih hnext

/-! ## §3 What is read -/

/-- The walk through nested containers that `walkAndSet` is the walk in the heap of. -/
def writeAt (keep : Bool) (value : Val) (path : List Key) (items : Items) : Items :=
  if keep then Query.place value path items else setPath value path items

variable {v w : Val} {items : Items}

theorem writeAt_nil (keep : Bool) (v : Val) (items : Items) : writeAt keep v [] items = items := by
  cases keep <;> rfl

theorem writeAt_singleton (keep : Bool) (v : Val) (part : Key) (items : Items) :
    writeAt keep v [part] items =
      if keep && (items.lookup part).any isDict && !v.isDict then items
      else OrderedDict.setItems part v items := by
  cases keep
  · rfl
  · rw [Bool.true_and]
    rfl

theorem writeAt_cons (hrest : rest ≠ []) (v : Val) (items : Items) :
    writeAt keep v (part :: rest) items =
      OrderedDict.setItems part (.dict (writeAt keep v rest (nestedUnder part items))) items := by
  cases keep
  · exact setPath_cons hrest v items
  · exact Query.place.eq_3 v items part rest hrest

theorem isDictRef_of_reads (hreads : Reads h r v) : isDictRef r = v.isDict := by
  have hnil := Option.some.inj (hreads [])
  cases r <;> cases v <;> first | rfl | cases hnil

theorem any_isDictRef_of_reads (hreads : Reads h (.dict a) (.dict items)) (part : Key) :
    ((h.cells a).lookup part).any isDictRef = (items.lookup part).any isDict := by
  cases hlookup : (h.cells a).lookup part with
  | some r =>
    have hchild : child h (.dict a) (.key part) = some r := hlookup
    obtain ⟨w, hw, hr⟩ := hreads.of_child hchild
    rw [show items.lookup part = some w from hw]
    exact isDictRef_of_reads hr
  | none =>
    cases hitem : items.lookup part with
    | none => rfl
    | some w =>
      have hpart : ObjectHeap.part (.dict items) (.key part) = some w := hitem
      obtain ⟨r, hr, -⟩ := hreads.child_of hpart
      rw [show (h.cells a).lookup part = some r from hr] at hlookup
      cases hlookup

/-- A dictionary in which one key was set, and what lies under the other keys reads as it did. -/
theorem reads_setItems (hreads : Reads h (.dict a) (.dict items)) (hvalue : Reads h' value v)
    (hcell : h'.cells a = OrderedDict.setItems part value (h.cells a))
    (hothers : ∀ key r, key ≠ part → (h.cells a).lookup key = some r →
      ∀ path, look h' path r = look h path r) :
    Reads h' (.dict a) (.dict (OrderedDict.setItems part v items)) := by
  have hkeys : (h.cells a).map (·.1) = items.map (·.1) :=
    Outline.dict.inj (Option.some.inj (hreads []))
  intro path
  cases path with
  | nil =>
    refine congrArg some (congrArg Outline.dict ?_)
    rw [hcell, OrderedDict.keys_setItems, OrderedDict.keys_setItems, hkeys]
  | cons seg path =>
    cases seg with
    | item index => rfl
    | key key =>
      by_cases hkey : key = part
      · subst hkey
        have hchild : child h' (.dict a) (.key key) = some value := by
          rw [child, hcell, OrderedDict.lookup_setItems, if_pos rfl]
        have hpart : ObjectHeap.part (.dict (OrderedDict.setItems key v items)) (.key key) =
            some v := by
          rw [ObjectHeap.part, OrderedDict.lookup_setItems, if_pos rfl]
        rw [look_cons_of hchild, observe_cons_of hpart]
        exact hvalue path
      · have hchild : child h' (.dict a) (.key key) = child h (.dict a) (.key key) := by
          rw [child, child, hcell, OrderedDict.lookup_setItems, if_neg hkey]
        have hpart : ObjectHeap.part (.dict (OrderedDict.setItems part v items)) (.key key) =
            ObjectHeap.part (.dict items) (.key key) := by
          rw [ObjectHeap.part, OrderedDict.lookup_setItems, if_neg hkey, ObjectHeap.part]
        have hbefore := hreads (.key key :: path)
        rw [observe, descend, hpart]
        rw [observe, descend] at hbefore
        rw [← hbefore]
        cases hnext : child h (.dict a) (.key key) with
        | none =>
          rw [look, look, reach_cons, reach_cons, hchild, hnext]
          rfl
        | some r =>
          rw [look_cons_of (hchild.trans hnext), look_cons_of hnext]
          exact hothers key r hkey hnext path

theorem setItems_of_lookup {β : Type*} {cells : List (Key × β)} {r : β}
    (hlookup : cells.lookup part = some r) : OrderedDict.setItems part r cells = cells := by
  induction cells with
  | nil => cases hlookup
  | cons item cells ih =>
    rw [OrderedDict.lookup_cons_ite] at hlookup
    rw [OrderedDict.setItems]
    by_cases hkey : part = item.1
    · rw [if_pos hkey, Option.some.injEq] at hlookup
      rw [if_pos hkey.symm, hkey, ← hlookup]
    · rw [if_neg hkey] at hlookup
      rw [if_neg (fun h => hkey h.symm), ih hlookup]

theorem nestedUnder_of_reads (hreads : Reads h (.dict a) (.dict items))
    (hb : (h.cells a).lookup part = some (.dict b)) :
    Reads h (.dict b) (.dict (nestedUnder part items)) := by
  have hchild : child h (.dict a) (.key part) = some (.dict b) := hb
  obtain ⟨w, hw, hr⟩ := hreads.of_child hchild
  obtain ⟨existing, rfl⟩ := exists_of_isDict ((isDictRef_of_reads hr).symm.trans rfl)
  rwa [nestedUnder, show items.lookup part = some (.dict existing) from hw]

theorem nestedUnder_eq_nil (hreads : Reads h (.dict a) (.dict items))
    (hmissing : ∀ b, (h.cells a).lookup part ≠ some (.dict b)) : nestedUnder part items = [] := by
  have hany : ((h.cells a).lookup part).any isDictRef ≠ true := by
    intro hany
    obtain ⟨b, hb⟩ := exists_dict_of_any hany
    exact hmissing b hb
  rw [any_isDictRef_of_reads hreads] at hany
  rw [nestedUnder]
  split
  case h_1 existing hexisting =>
    rw [hexisting] at hany
    exact absurd rfl hany
  case h_2 => rfl

theorem reads_new (ha : a < h.next) : Reads (putNew h a part) (.dict h.next) (.dict []) := by
  have hcell : (putNew h a part).cells h.next = [] := by
    rw [putNew, cells_put_of_ne (Nat.ne_of_gt ha), cells_alloc_next]
  intro path
  cases path with
  | nil => exact congrArg (some ∘ Outline.dict ∘ List.map (·.1)) hcell
  | cons seg path =>
    have hchild : child (putNew h a part) (.dict h.next) seg = none := by
      cases seg with
      | item => rfl
      | key => rw [child, hcell, lookup_nil]
    rw [look, reach_cons, hchild]
    cases seg <;> rfl

theorem reads_walkAndSet (hclosed : Closed h h.next) (ha : a < h.next) (hn : n ≤ a)
    (htree : Tree n h (.dict a))
    (hstays : ∀ path b, path <+: rest → path ≠ rest →
      reach h (keySteps path) (.dict a) = some (.dict b) → n ≤ b)
    (hbelow : Below h.next value) (hapart : Apart n h (.dict a) value)
    (hreads : Reads h (.dict a) (.dict items)) (hvalue : Reads h value v) :
    Reads (walkAndSet keep value rest a h) (.dict a) (.dict (writeAt keep v rest items)) := by
  induction rest generalizing a h items with
  | nil =>
    rw [writeAt_nil]
    exact hreads
  | cons part rest ih =>
    -- what lies under another key does not lead back
    have hother : ∀ key r, (h.cells a).lookup key = some r →
        ∀ path c, reach h path r = some (.dict c) → c ≠ a := by
      rintro key r hr path c hpath rfl
      have hchild : child h (.dict c) (.key key) = some r := hr
      have hback : reach h (.key key :: path) (.dict c) = some (.dict c) := by
        rw [reach_cons, hchild, Option.bind_some, hpath]
      exact cons_ne_nil _ _ (htree _ [] c hn hback rfl)
    have hvalueNe : ∀ path c, reach h path value = some (.dict c) → c ≠ a := by
      rintro path c hpath rfl
      exact hapart [] path c hn rfl hpath
    cases rest with
    | nil =>
      rw [walkAndSet, writeAt_singleton, any_isDictRef_of_reads hreads, isDictRef_of_reads hvalue]
      split
      · exact hreads
      · refine reads_setItems hreads (fun path => ?_) (cells_put_same ..) fun key r _ hr path => ?_
        · rw [look_of_same fun path c hpath => cells_put_of_ne (hvalueNe path c hpath) part value]
          exact hvalue path
        · exact look_of_same (fun path c hpath =>
            cells_put_of_ne (hother key r hr path c hpath) part value) path
    | cons next rest =>
      have hne : next :: rest ≠ [] := cons_ne_nil _ _
      rw [walkAndSet_cons hne, writeAt_cons hne]
      have hunder : ∀ key r, child h (.dict a) (.key key) = some r → Below h.next r :=
        fun _ _ hr => (Below.dict ha).child hclosed hr
      split
      case h_1 b hb =>
        have hlt : b < h.next := (Below.dict ha).address_lt hclosed (reach_cons_of hb [])
        have hback : ∀ path, reach h (keySteps path) (.dict b) ≠ some (.dict a) :=
          fun path hpath => hother part (.dict b) hb _ a hpath rfl
        have hreach : reach h [.key part] (.dict a) = some (.dict b) := reach_cons_of hb []
        have hnested := ih hclosed hlt
          (hstays [part] b (prefix_append [part] _) (by simp) (reach_cons_of hb []))
          (htree.of_reach hreach)
          (fun path c hpre hne hpath => hstays (part :: path) c
            ((prefix_cons_inj part).mpr hpre) (fun heq => hne (List.cons.inj heq).2)
            ((reach_cons_of hb _).trans hpath))
          hbelow
          (fun path path' c hc hpath => hapart (.key part :: path) path' c hc
            ((reach_cons_of hb path).trans hpath))
          (nestedUnder_of_reads hreads hb) hvalue
        refine reads_setItems hreads hnested ?_ fun key r hkey hr path => ?_
        · rw [setItems_of_lookup hb]
          exact cells_walkAndSet hclosed hlt ha fun path _ _ => hback path
        · refine look_of_same (fun inner c hinner => ?_) path
          refine cells_walkAndSet hclosed hlt ((hunder key r hr).address_lt hclosed hinner)
            fun place hpre hne hplace => ?_
          have hchild : child h (.dict a) (.key key) = some r := hr
          have hfirst : reach h (.key key :: inner) (.dict a) = some (.dict c) := by
            rw [reach_cons, hchild, Option.bind_some, hinner]
          have hsecond := (reach_cons_of hb (keySteps place)).trans hplace
          have hc : n ≤ c := hstays (part :: place) c ((prefix_cons_inj part).mpr hpre)
            (fun heq => hne (List.cons.inj heq).2) hsecond
          exact hkey (Seg.key.inj (List.cons.inj (htree _ _ c hc hfirst hsecond)).1)
      case h_2 hmissing =>
        rw [nestedUnder_eq_nil hreads fun b hb => hmissing b hb]
        have hsame : ∀ r, Below h.next r → (∀ path c, reach h path r = some (.dict c) → c ≠ a) →
            ∀ path c, reach h path r = some (.dict c) →
              (putNew h a part).cells c = h.cells c := fun r hr hne path c hpath =>
          cells_putNew (hne path c hpath) (hr.address_lt hclosed hpath)
        have hclosed' : Closed (putNew h a part) (putNew h a part).next := closed_putNew hclosed a part
        have hlt : h.next < (putNew h a part).next := Nat.lt_succ_self _
        have hnested := ih hclosed' hlt (hn.trans ha.le)
          (fun path path' c _ hpath hpath' => by
            rw [(reach_putNew ha hpath).1, (reach_putNew ha hpath').1])
          (fun path c _ _ hpath => by
            rw [Ref.dict.inj (reach_putNew ha hpath).2]
            exact hn.trans ha.le)
          (hbelow.mono (Nat.le_succ _))
          (fun path path' c _ hpath hpath' => by
            rw [reach_of_same (hsame value hbelow hvalueNe)] at hpath'
            rw [Ref.dict.inj (reach_putNew ha hpath).2] at hpath'
            exact Nat.lt_irrefl _ (hbelow.address_lt hclosed hpath'))
          (reads_new ha)
          (fun path => (look_of_same (hsame value hbelow hvalueNe) path).trans (hvalue path))
        have hlater : ∀ c < h.next, (walkAndSet keep value (next :: rest) h.next
            (putNew h a part)).cells c = (putNew h a part).cells c := fun c hc =>
          cells_walkAndSet hclosed' hlt (hc.trans hlt) fun path _ _ hpath =>
            Nat.ne_of_lt hc (Ref.dict.inj (reach_putNew ha hpath).2)
        refine reads_setItems hreads hnested ?_ fun key r _ hr path => ?_
        · rw [hlater a ha, putNew, cells_put_same, cells_alloc_of_ne (Nat.ne_of_lt ha)]
        · refine look_of_same (fun inner c hinner => ?_) path
          rw [hlater c ((hunder key r hr).address_lt hclosed hinner)]
          exact hsame r (hunder key r hr) (hother key r hr) inner c hinner

end Ace3.Query
