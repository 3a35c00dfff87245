import Ace3.Query.SharedDictionaries

/-!
# The Event after Flattening

Flattening leaves a stored event as it was exactly when the keys that go on from the path of one of
its dictionaries only say what the dictionary says already.
-/

namespace Ace3.Query

open List
open Lib Lib.Firsts Lib.Nested Lib.ObjectHeap

/-! ## §1 Stored events -/

/-- An event that a query returned: its values were read from JSON. -/
structure QueryEvent where
  event : Event
  json : ∀ item ∈ event.items, IsJson item.2

/-- The event is the dictionary at the address, as a parser builds it: no dictionary is in it
twice. -/
structure Stored (h : EventHeap) (e : ℕ) (event : Event) : Prop where
  reads : Reads h (.dict e) (.dict event.items)
  tree : Tree 0 h (.dict e)
  lt : e < h.next
  closed : Closed h h.next

theorem IsJson.distinct {v : Val} (hv : IsJson v) : Distinct v := by
  induction hv with
  | atom => exact .atom _
  | list _ ih => exact .list ih
  | dict hnodup _ _ ih => exact .dict hnodup ih

theorem QueryEvent.distinct (query : QueryEvent) : Distinct (.dict query.event.items) :=
  .dict query.event.nodup fun item hitem => (query.json item hitem).distinct

def entriesOf (h : EventHeap) (e : ℕ) : List Entry := (h.cells e).map fun item => ⟨item.1, item.2⟩

def readOf (event : Event) (x : Entry) : Val := (event.get? x.key).getD default

variable {h : EventHeap} {e : ℕ} {event : Event} {x y : Entry}

theorem Stored.keys (hstored : Stored h e event) : (h.cells e).map (·.1) = event.items.map (·.1) :=
  Outline.dict.inj (Option.some.inj (hstored.reads []))

theorem Stored.nodup (hstored : Stored h e event) : ((h.cells e).map (·.1)).Nodup :=
  hstored.keys ▸ event.nodup

theorem keys_entriesOf (h : EventHeap) (e : ℕ) :
    (entriesOf h e).map (·.key) = (h.cells e).map (·.1) := by
  rw [entriesOf, map_map]
  rfl

theorem Stored.child (hstored : Stored h e event) (hx : x ∈ entriesOf h e) :
    child h (.dict e) (.key x.key) = some x.ref := by
  obtain ⟨item, hitem, rfl⟩ := mem_map.mp hx
  exact (OrderedDict.get?_eq_some_iff (d := ⟨h.cells e, hstored.nodup⟩)).mpr hitem

theorem Stored.lookup (hstored : Stored h e event) (hx : x ∈ entriesOf h e) :
    event.get? x.key = some (readOf event x) ∧ Reads h x.ref (readOf event x) := by
  obtain ⟨v, hv, hreads⟩ := hstored.reads.of_child (hstored.child hx)
  have hget : event.get? x.key = some v := hv
  rw [readOf, hget]
  exact ⟨rfl, hreads⟩

theorem Stored.items (hstored : Stored h e event) :
    (entriesOf h e).map (·.item (readOf event)) = event.items := by
  calc (entriesOf h e).map (·.item (readOf event))
      = ((entriesOf h e).map (·.key)).map fun key => (key, (event.get? key).getD default) := by
        rw [map_map]
        rfl
    _ = event.items.map fun item => (item.1, (event.get? item.1).getD default) := by
        rw [keys_entriesOf, hstored.keys, map_map]
        rfl
    _ = event.items := by
        refine (map_congr_left fun item hitem => ?_).trans (map_id _)
        have hget : event.get? item.1 = some item.2 := OrderedDict.get?_eq_some_iff.mpr hitem
        rw [hget]
        rfl

/-! ## §2 Before the first key -/

theorem not_live_nil : ¬ Live [] x := fun hlive => absurd hlive.mem not_mem_nil

theorem Stored.merged_nil (hstored : Stored h e event) :
    Merged h e [] (entriesOf h e) (alloc h) := by
  have hsame : ∀ b < h.next, (alloc h).cells b = h.cells b := fun b hb =>
    cells_alloc_of_ne (Nat.ne_of_lt hb)
  have hbelow : ∀ x ∈ entriesOf h e, Below h.next x.ref := fun x hx =>
    (Below.dict hstored.lt).child hstored.closed (hstored.child hx)
  have hinner : ∀ x ∈ entriesOf h e, ∀ path,
      reach (alloc h) path x.ref = reach h (.key x.key :: path) (.dict e) := by
    intro x hx path
    rw [reach_alloc hstored.closed (hbelow x hx), reach_cons, hstored.child hx, Option.bind_some]
  have hnew : ∀ path b, reach (alloc h) path (.dict h.next) = some (.dict b) → b = h.next :=
    fun path b hpath => Ref.dict.inj (reach_next_eq_some hpath).2
  exact {
    next_lt := Nat.lt_succ_self _
    closed_old := fun b hb => by rw [hsame b hb]; exact hstored.closed b hb
    closed := closed_alloc hstored.closed
    cells := hsame e hstored.lt
    found := fun x hx => hstored.child hx
    old := hbelow
    event_lt := hstored.lt
    reads := look_of_agree hstored.closed hsame (.dict hstored.lt)
    forest := by
      refine ⟨fun path path' b _ hpath hpath' => ?_, fun r hr => ?_, ?_⟩
      · rw [(reach_next_eq_some hpath).1, (reach_next_eq_some hpath').1]
      · obtain ⟨x, hx, rfl⟩ := mem_map.mp hr
        refine ⟨fun path path' b hb hpath hpath' => ?_, fun path path' b hb hpath hpath' => ?_⟩
        · rw [hinner x hx] at hpath hpath'
          exact (List.cons.inj (hstored.tree _ _ b hb hpath hpath')).2
        · rw [reach_alloc hstored.closed (hbelow x hx), hnew path b hpath] at hpath'
          exact Nat.lt_irrefl _ ((hbelow x hx).address_lt hstored.closed hpath')
      · have hkeys : (entriesOf h e).Pairwise fun x y => x.key ≠ y.key := by
          rw [← pairwise_map (f := Entry.key) (R := (· ≠ ·)), keys_entriesOf]
          exact hstored.nodup
        rw [pairwise_map]
        refine hkeys.imp_of_mem fun {x y} hx hy hne path path' b hb hpath hpath' => ?_
        rw [hinner x hx] at hpath
        rw [hinner y hy] at hpath'
        exact hne (Seg.key.inj (List.cons.inj (hstored.tree _ _ b hb hpath hpath')).1)
    event_apart := fun path hpath => Nat.ne_of_lt hstored.lt (hnew path e hpath)
    todo_apart := fun x hx path hpath => by
      rw [hinner x hx] at hpath
      exact cons_ne_nil _ _ (hstored.tree _ [] e e.zero_le hpath rfl)
    origin := fun path r hr => .inl ⟨h.next, le_rfl, (reach_next_eq_some hr).2⟩
    live := fun x hlive => absurd hlive not_live_nil }

/-! ## §3 The condition -/

variable {r other : ObjRef} {v w : Val} {rest : List Key}

theorem descend_keySteps (path : List Key) (v : Val) : descend (keySteps path) v = find path v := by
  induction path generalizing v with
  | nil => rw [find_nil]; rfl
  | cons key path ih =>
    cases v with
    | atom | list => rfl
    | dict items =>
      rw [find_dict]
      exact congrArg _ (funext ih)

theorem keepsAt_iff (hr : Reads h r v) (hother : Reads h other w) (hv : Distinct v)
    (hw : Distinct w) : KeepsAt h r rest other ↔ Keeps v rest w := by
  refine or_congr ⟨fun hsame => ?_, fun hfind path => ?_⟩ (and_congr ?_ ?_)
  · have hobserve : ∀ path, (find rest v).bind (observe path) = observe path w := by
      intro path
      rw [← descend_keySteps, ← observe_append, ← hr, hsame, hother]
    cases hfind : find rest v with
    | none =>
      have hnil := hobserve []
      rw [hfind] at hnil
      cases hnil
    | some u =>
      rw [hfind] at hobserve
      rw [eq_of_observe (hv.of_descend ((descend_keySteps rest v).trans hfind)) hw hobserve]
  · rw [hr, hother, observe_append, descend_keySteps, hfind]
    rfl
  · rw [hr, observe, descend_keySteps]
    cases find rest v with
    | none => simp
    | some u => cases u <;> simp [outlineOf, isDict]
  · rw [isDictRef_of_reads hother]

theorem Stored.eachAfter_agrees_iff (hstored : Stored h e event) (hdistinct : Distinct (.dict event.items)) :
    EachAfter (Agrees h) [] (entriesOf h e) ↔ DictionariesKept event.items := by
  have hkeeps : ∀ x ∈ entriesOf h e, ∀ y ∈ entriesOf h e, ∀ rest,
      (KeepsAt h y.ref rest x.ref ↔ Keeps (readOf event y) rest (readOf event x)) := by
    intro x hx y hy rest
    have hvalue : ∀ z ∈ entriesOf h e, Distinct (readOf event z) := by
      intro z hz
      have hpart : part (.dict event.items) (.key z.key) = some (readOf event z) :=
        (hstored.lookup hz).1
      exact hdistinct.of_part hpart
    exact keepsAt_iff (hstored.lookup hy).2 (hstored.lookup hx).2 (hvalue y hy) (hvalue x hx)
  have hdict : ∀ x ∈ entriesOf h e, isDictRef x.ref = (readOf event x).isDict := fun x hx =>
    isDictRef_of_reads (hstored.lookup hx).2
  constructor
  · intro hall before entry between other after heq hentry hpath hstays rest hrest hgoes
    rw [← hstored.items, map_eq_append_iff] at heq
    obtain ⟨first, last, hentries, hfirst, hlast⟩ := heq
    obtain ⟨before', _, rfl, rfl, hmap⟩ := map_eq_append_iff.mp hfirst
    obtain ⟨y, between', rfl, rfl, rfl⟩ := map_eq_cons_iff.mp hmap
    obtain ⟨x, after', rfl, rfl, -⟩ := map_eq_cons_iff.mp hlast
    have hy : y ∈ entriesOf h e := by simp [hentries]
    have hx : x ∈ entriesOf h e := by simp [hentries]
    refine (hkeeps x hx y hy rest).mp (hall (before' ++ y :: between') x after' (by simp [hentries])
      y ⟨hpath, before', between', rfl, fun z hz hzdict hzpath => ?_⟩ ?_ rest hrest hgoes)
    · refine hstays (z.item (readOf event)) (mem_map_of_mem hz) ?_ hzpath
      rw [hdict z (by simp [hentries, hz])] at hzdict
      exact hzdict
    · rw [hdict y hy]
      exact hentry
  · intro hkept before x after heq y hlive hydict rest hrest hgoes
    obtain ⟨hpath, first, between, rfl, hafter⟩ := hlive
    have hy : y ∈ entriesOf h e := by simp [heq]
    have hx : x ∈ entriesOf h e := by simp [heq]
    refine (hkeeps x hx y hy rest).mpr (hkept (first.map (·.item (readOf event)))
      (y.item (readOf event)) (between.map (·.item (readOf event))) (x.item (readOf event))
      (after.map (·.item (readOf event))) ?_ ?_ hpath ?_ rest hrest hgoes)
    · rw [← hstored.items, heq]
      simp
    · rw [hdict y hy] at hydict
      exact hydict
    · intro entry hentry hentryDict hentryPath
      obtain ⟨z, hz, rfl⟩ := mem_map.mp hentry
      refine hafter z hz ?_ hentryPath
      rw [hdict z (by simp [heq, hz])]
      exact hentryDict

/-! ## §4 Flattening -/

/-- At every moment of the call the event reads as it did before. -/
def Untouched (h₀ : EventHeap) (e : ℕ) (run : Run) : Prop := ∀ h ∈ run.moments, Unchanged h₀ e h

theorem expandDottedKeysAt_eq (e : ℕ) (h : EventHeap) :
    expandDottedKeysAt e h = (h.next, mergeEntries h.next ⟨alloc h, [alloc h]⟩ (entriesOf h e)) := by
  rw [expandDottedKeysAt, mergeEntries, entriesOf, foldl_map]

/-- Flattening leaves the event as it was exactly when the event keeps its dictionaries, and then
the result reads as the flattened event. -/
theorem Stored.expand {query : QueryEvent} (hstored : Stored h e query.event) :
    (Untouched h e (expandDottedKeysAt e h).2 ↔ DictionariesKept query.event.items) ∧
      (DictionariesKept query.event.items →
        Merged h e (entriesOf h e) [] (expandDottedKeysAt e h).2.heap ∧
          Reads (expandDottedKeysAt e h).2.heap (.dict h.next)
            (.dict (expandDottedKeys query.event.items))) := by
  have hmerged := hstored.merged_nil
  have hnew : Reads (alloc h) (.dict h.next) (.dict []) := by
    intro path
    cases path with
    | nil => exact congrArg (some ∘ Outline.dict ∘ List.map (·.1)) (cells_alloc_next h)
    | cons seg path =>
      rw [look, Option.eq_none_iff_forall_ne_some.mpr fun r hr =>
        cons_ne_nil _ _ (reach_next_eq_some hr).1]
      cases seg <;> rfl
  have hmerged' : Merged h e [] (entriesOf h e) (⟨alloc h, [alloc h]⟩ : Run).heap := hmerged
  have hread : ∀ x ∈ [] ++ entriesOf h e, Reads h x.ref (readOf query.event x) := fun x hx =>
    (hstored.lookup hx).2
  have hall := hmerged'.unchanged_iff (fun m hm => mem_singleton.mp hm ▸ hmerged.reads) hread
    (by rw [nil_append, keys_entriesOf]; exact hstored.nodup) hnew
  rw [nil_append, hstored.items, hstored.eachAfter_agrees_iff query.distinct] at hall
  rw [expandDottedKeysAt_eq]
  exact hall

theorem untouched_renderEventTemplateAt_iff {query : QueryEvent} (engine : Engine) (template : String)
    (strict : Bool) (hstored : Stored h e query.event) (honly : engine.OnlyReads template) :
    Untouched h e (renderEventTemplateAt engine template e strict h).2 ↔
      DictionariesKept query.event.items := by
  obtain ⟨hiff, hmerged⟩ := hstored.expand
  rw [← hiff]
  have hmoments : (renderEventTemplateAt engine template e strict h).2.moments =
      (expandDottedKeysAt e h).2.moments ++ [(expandDottedKeysAt e h).2.heap] := by
    have heffect := honly (expandDottedKeysAt e h).2.heap (expandDottedKeysAt e h).1 strict
    exact congrArg (fun heap => (expandDottedKeysAt e h).2.moments ++ [heap]) heffect
  constructor
  · intro hall m hm
    refine hall m ?_
    rw [hmoments]
    exact mem_append_left _ hm
  · intro hall m hm
    rw [hmoments] at hm
    rcases mem_append.mp hm with hm | hm
    · exact hall m hm
    · rw [mem_singleton.mp hm]
      exact (hmerged (hiff.mp hall)).1.reads

end Ace3.Query
