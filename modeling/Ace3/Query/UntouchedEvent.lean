import Ace3.Query.CopiedScope
import Ace3.Query.FlattenedEvent
import Mathlib.Data.List.Forall2

/-!
# Rendering without a Trace

Rendering several templates leaves the event as it was exactly when flattening does and no
combination that is rendered sets an element that is a dictionary on the way of a later one. Then
the rows are those of rendering nested containers.
-/

namespace Ace3.Query

open List
open Lib Lib.Firsts Lib.Nested Lib.ObjectHeap

/-! ## §1 Rendering -/

/-- The engine on nested containers: it renders what is read. -/
def Engine.jinja (engine : Engine) : Jinja where
  parse := engine.parse
  render template items strict :=
    engine.render template (fun path => observe path (.dict items)) strict

/-- The call went on without a change of the heap. -/
structure Idle (run run' : Run) : Prop where
  heap : run'.heap = run.heap
  before : ∀ m ∈ run.moments, m ∈ run'.moments
  after : ∀ m ∈ run'.moments, m ∈ run.moments ∨ m = run.heap

theorem Idle.refl (run : Run) : Idle run run := ⟨rfl, fun _ hm => hm, fun _ hm => .inl hm⟩

theorem Idle.trans {run run' run'' : Run} (h : Idle run run') (h' : Idle run' run'') :
    Idle run run'' where
  heap := h'.heap.trans h.heap
  before m hm := h'.before m (h.before m hm)
  after m hm := (h'.after m hm).elim (h.after m) fun heq => .inr (heq.trans h.heap)

theorem idle_goOn (run : Run) : Idle run (run.goOn run.heap) where
  heap := rfl
  before _ hm := mem_append_left _ hm
  after _ hm := (mem_append.mp hm).imp_right mem_singleton.mp

variable {engine : Engine} {templates : List String} {strict : Bool} {run : Run} {scope : ℕ}
  {items : Items}

theorem renderJinjaTemplateAt_eq {template : String} (honly : engine.OnlyReads template)
    (hreads : Reads run.heap (.dict scope) (.dict items)) :
    renderJinjaTemplateAt engine template scope strict run =
      (renderJinjaTemplate engine.jinja template items strict, run.goOn run.heap) := by
  have hlook : (fun path => look run.heap path (.dict scope)) = fun path => observe path (.dict items) :=
    funext hreads
  rw [renderJinjaTemplateAt, hlook, honly]
  rfl

theorem renderRowAt_eq (strict : Bool) (honly : ∀ template ∈ templates, engine.OnlyReads template)
    (hreads : Reads run.heap (.dict scope) (.dict items)) :
    (renderRowAt engine scope strict templates run).1 =
        renderRow engine.jinja items strict templates ∧
      Idle run (renderRowAt engine scope strict templates run).2 := by
  induction templates generalizing run with
  | nil => exact ⟨rfl, .refl run⟩
  | cons template templates ih =>
    obtain ⟨hfirst, hrest⟩ := forall_mem_cons.mp honly
    have hidle := idle_goOn run
    obtain ⟨hrow, hlater⟩ := ih hrest (show Reads (run.goOn run.heap).heap (.dict scope) (.dict items) from hreads)
    rw [renderRowAt, renderRow, renderJinjaTemplateAt_eq hfirst hreads]
    cases renderJinjaTemplate engine.jinja template items strict with
    | error e => exact ⟨rfl, hidle⟩
    | ok rendered =>
      cases rendered with
      | none => exact ⟨rfl, hidle⟩
      | some s =>
        refine ⟨?_, hidle.trans hlater⟩
        simp only [hrow]

/-! ## §2 Lists -/

variable {h : EventHeap} {r : ObjRef} {v : Val}

theorem rel_child (hreads : Reads h r v) (seg : Seg Key) :
    Option.Rel (Reads h) (child h r seg) (ObjectHeap.part v seg) := by
  cases hchild : child h r seg with
  | some next =>
    obtain ⟨w, hw, hnext⟩ := hreads.of_child hchild
    rw [hw]
    exact .some hnext
  | none =>
    cases hpart : ObjectHeap.part v seg with
    | none => exact .none
    | some w =>
      obtain ⟨next, hnext, -⟩ := hreads.child_of hpart
      rw [hchild] at hnext
      cases hnext

theorem Rel.bind {found : Option ObjRef} {part : Option Val} {f : ObjRef → Option ObjRef}
    {g : Val → Option Val} (hrel : Option.Rel (Reads h) found part)
    (hfg : ∀ r v, Reads h r v → Option.Rel (Reads h) (f r) (g v)) :
    Option.Rel (Reads h) (found.bind f) (part.bind g) := by
  cases hrel with
  | none => exact .none
  | some hr => exact hfg _ _ hr

theorem rel_resolvePathAt (path : List Key) (hreads : Reads h r v) :
    Option.Rel (Reads h) (resolvePathAt h path r) (resolvePath path v) := by
  induction path generalizing r v with
  | nil => exact .some hreads
  | cons key path ih =>
    have hnil := Option.some.inj (hreads [])
    cases r with
    | atom a =>
      cases v with
      | atom b => cases key <;> exact .none
      | list | dict => cases hnil
    | dict address =>
      cases v with
      | dict items => exact Rel.bind (rel_child hreads (.key key)) fun _ _ => ih
      | atom | list => cases hnil
    | list refs =>
      cases v with
      | list values =>
        cases key with
        | str s => exact .none
        | int i =>
          rw [resolvePathAt, resolvePath]
          split
          · exact Rel.bind (rel_child hreads (.item i.toNat)) fun _ _ => ih
          · exact .none
      | atom | dict => cases hnil

theorem forall₂_of_reads {refs : List ObjRef} {values : List Val}
    (hreads : Reads h (.list refs) (.list values)) : List.Forall₂ (Reads h) refs values := by
  have hlength : refs.length = values.length := Outline.list.inj (Option.some.inj (hreads []))
  refine forall₂_of_length_eq_of_get hlength fun i hi hi' => ?_
  have hchild : child h (.list refs) (.item i) = some refs[i] := List.getElem?_eq_getElem hi
  obtain ⟨w, hw, hr⟩ := hreads.of_child hchild
  rw [ObjectHeap.part, List.getElem?_eq_getElem hi', Option.some.injEq] at hw
  rw [← hw] at hr
  exact hr

theorem rel_axesAt (paths : List (List Key)) (hreads : Reads h (.dict scope) (.dict items)) :
    List.Forall₂ (fun axis axis' => axis.1 = axis'.1 ∧ List.Forall₂ (Reads h) axis.2 axis'.2)
      (axesAt h scope paths) (axes items paths) := by
  induction paths with
  | nil => exact .nil
  | cons path paths ih =>
    rw [axesAt, axes, filterMap_cons, filterMap_cons]
    have hrel := rel_resolvePathAt path hreads
    cases hfound : resolvePathAt h path (.dict scope) with
    | none =>
      rw [hfound] at hrel
      cases hvalue : resolvePath path (.dict items) with
      | none => exact ih
      | some w => rw [hvalue] at hrel; cases hrel
    | some r =>
      rw [hfound] at hrel
      cases hvalue : resolvePath path (.dict items) with
      | none => rw [hvalue] at hrel; cases hrel
      | some w =>
        rw [hvalue] at hrel
        obtain ⟨hr⟩ := hrel
        have hnil := Option.some.inj (hr [])
        cases r with
        | atom =>
          cases w with
          | atom => exact ih
          | list | dict => cases hnil
        | dict =>
          cases w with
          | dict => exact ih
          | atom | list => cases hnil
        | list refs =>
          cases w with
          | list values => exact .cons ⟨rfl, forall₂_of_reads hr⟩ ih
          | atom | dict => cases hnil

theorem rel_product {α β : Type*} {R : α → β → Prop} {lists : List (List α)} {lists' : List (List β)}
    (hrel : List.Forall₂ (List.Forall₂ R) lists lists') :
    List.Forall₂ (List.Forall₂ R) (product lists) (product lists') := by
  induction hrel with
  | nil => exact .cons .nil .nil
  | cons hfirst _ ih =>
    refine rel_flatMap hfirst fun a b hab => ?_
    exact rel_map (fun _ _ hcombo => .cons hab hcombo) ih

theorem exists_mem_of_mem_product {α : Type*} {lists : List (List α)} {combo : List α}
    (hcombo : combo ∈ product lists) {a : α} (ha : a ∈ combo) : ∃ l ∈ lists, a ∈ l := by
  induction lists generalizing combo with
  | nil =>
    rw [mem_singleton.mp hcombo] at ha
    cases ha
  | cons values lists ih =>
    obtain ⟨value, hvalue, hmem⟩ := mem_flatMap.mp hcombo
    obtain ⟨rest, hrest, rfl⟩ := mem_map.mp hmem
    rcases mem_cons.mp ha with rfl | ha
    · exact ⟨values, mem_cons_self, hvalue⟩
    · obtain ⟨l, hl, hal⟩ := ih hrest ha
      exact ⟨l, mem_cons_of_mem _ hl, hal⟩

/-! ## §3 A walk into the event -/

variable {b h₀ h₁ : EventHeap} {e s c : ℕ} {value : ObjRef} {rest : List Key} {i : ℤ}

/-- A walk that begins with a key that is no string, and that the dictionary does not have, gives it
the key, and writes into no other dictionary that was there. -/
theorem cells_walk_int {n : ℕ} (value : ObjRef) (rest : List Key) (hclosed : Closed h h.next) (hn : n ≤ h.next) (hc : c < n)
    (hkey : .int i ∉ (h.cells c).map (·.1)) :
    .int i ∈ ((walkAndSet false value (.int i :: rest) c h).cells c).map (·.1) ∧
      ∀ a < n, a ≠ c → (walkAndSet false value (.int i :: rest) c h).cells a = h.cells a := by
  have hset : ∀ r : ObjRef, .int i ∈ (OrderedDict.setItems (.int i) r (h.cells c)).map (·.1) := by
    intro r
    rw [OrderedDict.keys_setItems, if_neg hkey]
    exact mem_append_right _ (mem_singleton_self _)
  cases rest with
  | nil =>
    rw [walkAndSet, Bool.false_and, Bool.false_and, if_neg Bool.false_ne_true]
    refine ⟨?_, fun a _ hac => cells_put_of_ne hac _ _⟩
    rw [cells_put_same]
    exact hset value
  | cons key rest =>
    have hnone : (h.cells c).lookup (.int i) = none := by
      cases hlookup : (h.cells c).lookup (.int i) with
      | none => rfl
      | some r =>
        obtain ⟨before, after, heq, -⟩ := lookup_eq_some_iff.mp hlookup
        exact absurd (by simp [heq]) hkey
    have hlt : c < h.next := hc.trans_le hn
    have hlater : ∀ a < n, (walkAndSet false value (key :: rest) h.next
        (putNew h c (.int i))).cells a = (putNew h c (.int i)).cells a := fun a ha =>
      cells_walkAndSet (closed_putNew hclosed c (.int i)) (Nat.lt_succ_self h.next)
        ((ha.trans_le hn).trans (Nat.lt_succ_self _)) fun path _ _ hpath =>
          Nat.ne_of_lt (ha.trans_le hn) (Ref.dict.inj (reach_putNew hlt hpath).2)
    rw [walkAndSet_cons (cons_ne_nil _ _), hnone]
    refine ⟨?_, fun a ha hac => ?_⟩
    · show .int i ∈ ((walkAndSet false value (key :: rest) h.next
        (putNew h c (.int i))).cells c).map (·.1)
      rw [hlater c hc, putNew, cells_put_same, cells_alloc_of_ne (Nat.ne_of_lt hlt)]
      exact hset _
    · exact (hlater a ha).trans (cells_putNew hac (ha.trans_le hn))

def InEvent (h : EventHeap) (e : ℕ) (r : ObjRef) : Prop :=
  ∃ path, path ≠ [] ∧ reach h path (.dict e) = some r

theorem IsJson.of_descend {v w : Val} {path : List (Seg Key)} (hv : IsJson v)
    (hpath : descend path v = some w) : IsJson w := by
  induction path generalizing v with
  | nil =>
    obtain rfl := Option.some.inj hpath
    exact hv
  | cons seg path ih =>
    obtain ⟨next, hnext, hrest⟩ := Option.bind_eq_some_iff.mp hpath
    refine ih ?_ hrest
    cases hv with
    | atom => cases hnext
    | list hitems =>
      cases seg with
      | key => cases hnext
      | item => exact hitems next (mem_of_getElem? hnext)
    | dict _ _ hitems =>
      cases seg with
      | item => cases hnext
      | key key =>
        obtain ⟨before, after, heq, -⟩ := lookup_eq_some_iff.mp hnext
        refine hitems (key, next) ?_
        rw [heq]
        exact mem_append_right _ mem_cons_self

theorem int_notMem_keys {query : QueryEvent} (hreads : Reads h (.dict e) (.dict query.event.items))
    (hin : InEvent h e (.dict c)) (i : ℤ) : .int i ∉ (h.cells c).map (·.1) := by
  obtain ⟨path, hne, hpath⟩ := hin
  have hlook := hreads path
  rw [look_of_reach hpath] at hlook
  obtain ⟨w, hw, hkeys⟩ := Option.map_eq_some_iff.mp hlook.symm
  have hjson : IsJson w := by
    obtain ⟨seg, path, rfl⟩ := exists_cons_of_ne_nil hne
    obtain ⟨next, hnext, hrest⟩ := Option.bind_eq_some_iff.mp hw
    cases seg with
    | item => cases hnext
    | key key =>
      obtain ⟨before, after, heq, -⟩ := lookup_eq_some_iff.mp hnext
      have hmem : (key, next) ∈ query.event.items := by
        rw [heq]
        exact mem_append_right _ mem_cons_self
      exact (query.json _ hmem).of_descend hrest
  cases hjson with
  | atom | list => cases hkeys
  | dict _ hstrings _ =>
    rw [← Outline.dict.inj hkeys]
    intro hmem
    obtain ⟨item, hitem, heq⟩ := mem_map.mp hmem
    obtain ⟨key, hkey⟩ := hstrings item hitem
    rw [hkey] at heq
    cases heq

/-! ## §4 One combination -/

/-- The heap before a combination: what was there after flattening is as it was. -/
structure Base (h₁ b : EventHeap) : Prop where
  le : h₁.next ≤ b.next
  closed : Closed b b.next
  cells : ∀ a < h₁.next, b.cells a = h₁.cells a

/-- The elements for the paths to lists: parts of the event, and a path that goes on from another
one goes on with an index. -/
structure Elements (h₁ : EventHeap) (e : ℕ) (assigned : List (List Key × ObjRef)) : Prop where
  ne_nil : ∀ x ∈ assigned, x.1 ≠ []
  event : ∀ x ∈ assigned, InEvent h₁ e x.2
  index : ∀ x ∈ assigned, ∀ y ∈ assigned, ∀ rest, rest ≠ [] → y.1 = x.1 ++ rest →
    ∃ i inner, rest = .int i :: inner

def setElements (s : ℕ) (run : Run) (assigned : List (List Key × ObjRef)) : Run :=
  assigned.foldl (fun run x => run.goOn (walkAndSet false x.2 x.1 s run.heap)) run

variable {done todo : List (List Key × ObjRef)} {entries : List Entry} {y : List Key × ObjRef}
  {query : QueryEvent}

variable {m : EventHeap}

theorem moments_setElements (todo : List (List Key × ObjRef)) (hm : m ∈ run.moments) :
    m ∈ (setElements s run todo).moments := by
  induction todo generalizing run with
  | nil => exact hm
  | cons x todo ih =>
    apply ih
    exact mem_append_left _ hm

theorem Merged.unchanged_of_agree (hM : Merged h₀ e entries [] h₁)
    (hagree : ∀ a < h₁.next, h.cells a = h₁.cells a) : Unchanged h₀ e h := fun path =>
  (look_of_agree hM.closed hagree (.dict (hM.event_lt.trans hM.next_lt)) path).trans (hM.reads path)

theorem InEvent.below (hM : Merged h₀ e entries [] h₁) (hin : InEvent h₁ e r) :
    Below h₁.next r := by
  obtain ⟨path, -, hpath⟩ := hin
  exact (Below.dict (hM.event_lt.trans hM.next_lt)).reach hM.closed hpath

theorem Scoped.changed (hM : Merged h₀ e entries [] h₁)
    (hreads : Reads h₀ (.dict e) (.dict query.event.items)) (hbase : Base h₁ b)
    (hS : Scoped b s done h) (helements : Elements h₁ e (done ++ y :: todo))
    (hnot : ¬ ClearOf isDictRef done y.1) : ¬ Unchanged h₀ e (walkAndSet false y.2 y.1 s h) := by
  intro hsame
  refine hnot fun x hplaced hdict rest hrest hpath => ?_
  have hx : x ∈ done ++ y :: todo := mem_append_left _ hplaced.mem
  have hy : y ∈ done ++ y :: todo := mem_append_right _ mem_cons_self
  have hreach := hS.placed x hplaced hdict
  have hin := helements.event x hx
  obtain ⟨i, inner, rfl⟩ := helements.index x hx y hy rest hrest hpath
  obtain ⟨c, hc⟩ := exists_address hdict
  rw [hc] at hreach hin
  rw [hpath, walkAndSet_append hreach hrest] at hsame
  have hbelow := hin.below hM
  obtain ⟨path, -, hinner⟩ := id hin
  have hlt : c < h₁.next := by
    cases hbelow with
    | dict hlt => exact hlt
  have hcells : ∀ a < h₁.next, h.cells a = h₁.cells a := fun a ha =>
    (hS.cells a (ha.trans_le hbase.le)).trans (hbase.cells a ha)
  have hreads₁ : Reads h₁ (.dict e) (.dict query.event.items) := fun path =>
    (hM.reads path).trans (hreads path)
  have hkey : .int i ∉ (h₁.cells c).map (·.1) := int_notMem_keys hreads₁ hin i
  have hnext : h₁.next ≤ h.next := hbase.le.trans (hS.le.trans hS.lt.le)
  obtain ⟨hmem, hothers⟩ := cells_walk_int y.2 inner hS.closed hnext hlt
    (by rw [hcells c hlt]; exact hkey)
  obtain ⟨path, hne⟩ := exists_look_ne hM.closed
    (fun a ha hac => (hothers a ha hac).trans (hcells a ha))
    (.dict (hM.event_lt.trans hM.next_lt)) hinner fun heq => hkey (heq ▸ hmem)
  exact hne ((hsame path).trans (hM.reads path).symm)

/-- The elements of a combination: where the way is clear they are set in the copy, and what is read
is the copy with its elements. -/
theorem Scoped.setElements {values : List (List Key × Val)} (hM : Merged h₀ e entries [] h₁)
    (hreads : Reads h₀ (.dict e) (.dict query.event.items)) (hbase : Base h₁ b)
    (hS : Scoped b s done run.heap) (helements : Elements h₁ e (done ++ todo))
    (hscope : Reads run.heap (.dict s) (.dict items))
    (hvalues : List.Forall₂ (fun x w => x.1 = w.1 ∧ Reads h₁ x.2 w.2) todo values)
    (hmoments : ∀ m ∈ run.moments, Unchanged h₀ e m) :
    ((∀ m ∈ (Query.setElements s run todo).moments, Unchanged h₀ e m) ↔
        EachAfter (fun done y => ClearOf isDictRef done y.1) done todo) ∧
      (EachAfter (fun done y => ClearOf isDictRef done y.1) done todo →
        Scoped b s (done ++ todo) (Query.setElements s run todo).heap ∧
          Reads (Query.setElements s run todo).heap (.dict s) (.dict (scopedTo items values))) := by
  induction todo generalizing done run items values with
  | nil =>
    cases hvalues
    rw [append_nil]
    exact ⟨iff_of_true hmoments (eachAfter_nil _ _), fun _ => ⟨hS, hscope⟩⟩
  | cons y todo ih =>
    obtain ⟨w, values, ⟨hpath, hw⟩, hothers, rfl⟩ := forall₂_cons_left_iff.mp hvalues
    have hy : y ∈ done ++ y :: todo := mem_append_right _ mem_cons_self
    have hlist : done ++ [y] ++ todo = done ++ y :: todo := by simp
    rw [eachAfter_cons_iff]
    by_cases hclear : ClearOf isDictRef done y.1
    · have hbelow := (helements.event y hy).below hM
      have hold : Below b.next y.2 := hbelow.mono hbase.le
      have hcells : ∀ a < h₁.next, run.heap.cells a = h₁.cells a := fun a ha =>
        (hS.cells a (ha.trans_le hbase.le)).trans (hbase.cells a ha)
      have hplace : reach run.heap (keySteps []) (.dict s) = some (.dict s) := rfl
      have hnext : Scoped b s (done ++ [y])
          (run.goOn (walkAndSet false y.2 y.1 s run.heap)).heap :=
        hS.walk hbase.closed hclear hold hplace (helements.ne_nil y hy) rfl
      have hwalked : Reads (walkAndSet false y.2 y.1 s run.heap) (.dict s)
          (.dict (writeAt false w.2 w.1 items)) := by
        rw [← hpath]
        refine reads_walkAndSet hS.closed hS.lt hS.le hS.tree
          (fun path a hpre hne hreach => ?_) (hold.mono (hS.le.trans hS.lt.le))
          (fun path path' a ha _ hreach => ?_) hscope
          fun path => (look_of_agree hM.closed hcells hbelow path).trans (hw path)
        · obtain ⟨rest, hrest⟩ := hpre
          refine hS.le_of_clear hclear hreach (fun hnil => hne ?_) hrest.symm
          rw [← hrest, hnil, append_nil]
        · rw [reach_of_agree hbase.closed hS.cells hold] at hreach
          exact absurd (hold.address_lt hbase.closed hreach) (Nat.not_lt.mpr ha)
      have hmoments' : ∀ m ∈ (run.goOn (walkAndSet false y.2 y.1 s run.heap)).moments,
          Unchanged h₀ e m := by
        intro m hm
        rcases mem_append.mp hm with hm | hm
        · exact hmoments m hm
        · rw [mem_singleton.mp hm]
          exact hM.unchanged_of_agree fun a ha =>
            (hnext.cells a (ha.trans_le hbase.le)).trans (hbase.cells a ha)
      obtain ⟨hiff, hfinal⟩ := ih hnext (hlist ▸ helements) hwalked hothers
        hmoments'
      refine ⟨hiff.trans (and_iff_right hclear).symm, fun hall => ?_⟩
      have hset := hfinal hall.2
      rwa [hlist] at hset
    · refine ⟨iff_of_false (fun hall => ?_) fun hall => hclear hall.1,
        fun hall => absurd hall.1 hclear⟩
      refine hS.changed hM hreads hbase helements hclear (hall _ ?_)
      apply moments_setElements todo
      exact mem_append_right _ (mem_singleton_self _)

/-! ## §5 All combinations -/

theorem moments_renderRowAt (engine : Engine) (strict : Bool) (scope : ℕ) (templates : List String)
    (hm : m ∈ run.moments) :
    m ∈ (renderRowAt engine scope strict templates run).2.moments := by
  induction templates generalizing run with
  | nil => exact hm
  | cons template templates ih =>
    have hfirst : m ∈ (renderJinjaTemplateAt engine template scope strict run).2.moments :=
      mem_append_left _ hm
    rw [renderRowAt]
    cases hrendered : renderJinjaTemplateAt engine template scope strict run with
    | mk rendered run' =>
      rw [hrendered] at hfirst
      rcases rendered with _ | _ | rendered
      · exact hfirst
      · exact hfirst
      · exact ih hfirst

variable {paths : List (List Key)}

theorem renderCombosAt_cons {flat : ℕ} {combo : List ObjRef} (combos : List (List ObjRef))
    {row : Except Undefined (Option (List String))} {run' : Run}
    (hrow : renderRowAt engine (run.heap.next + flat) strict templates
      (setElements (run.heap.next + flat) (run.goOn (copyHeap run.heap)) (paths.zip combo)) =
        (row, run')) :
    renderCombosAt engine templates strict flat paths (combo :: combos) run =
      match row with
      | .error err => (.error err, run')
      | .ok row =>
        ((renderCombosAt engine templates strict flat paths combos run').1.map
            fun rows => row.toList ++ rows,
          (renderCombosAt engine templates strict flat paths combos run').2) := by
  have hscope : scopedToAt flat (paths.zip combo) run = (run.heap.next + flat,
      setElements (run.heap.next + flat) (run.goOn (copyHeap run.heap)) (paths.zip combo)) := rfl
  rw [renderCombosAt, hscope]
  simp only [hrow]
  cases row <;> rfl

theorem moments_renderCombosAt {flat : ℕ} (combos : List (List ObjRef)) (hm : m ∈ run.moments) :
    m ∈ (renderCombosAt engine templates strict flat paths combos run).2.moments := by
  induction combos generalizing run with
  | nil => exact hm
  | cons combo combos ih =>
    have hset : m ∈ (setElements (run.heap.next + flat) (run.goOn (copyHeap run.heap))
        (paths.zip combo)).moments :=
      moments_setElements (paths.zip combo) (mem_append_left _ hm)
    have hmoments := moments_renderRowAt engine strict (run.heap.next + flat) templates hset
    cases hrow : renderRowAt engine (run.heap.next + flat) strict templates (setElements
        (run.heap.next + flat) (run.goOn (copyHeap run.heap)) (paths.zip combo)) with
    | mk row run' =>
      rw [hrow] at hmoments
      rw [renderCombosAt_cons combos hrow]
      cases row with
      | error err => exact hmoments
      | ok row => exact ih hmoments

theorem forall₂_zip {α β γ : Type*} {R : β → γ → Prop} {l : List β} {l' : List γ} (paths : List α)
    (hrel : List.Forall₂ R l l') :
    List.Forall₂ (fun x w => x.1 = w.1 ∧ R x.2 w.2) (paths.zip l) (paths.zip l') := by
  induction hrel generalizing paths with
  | nil =>
    rw [zip_nil_right, zip_nil_right]
    exact .nil
  | cons hfirst _ ih =>
    cases paths with
    | nil => exact .nil
    | cons path paths => exact .cons ⟨rfl, hfirst⟩ (ih paths)

/-- If the combination is rendered, since no earlier one raised, then no element lies on the way of
a later one. -/
def ClearIfRendered (jinja : Jinja) (templates : List String) (strict : Bool) (flat : Items)
    (paths : List (List Key)) (before : List (List Val)) (combo : List Val) : Prop :=
  (∀ earlier ∈ before, ∃ row,
    renderRow jinja (scopedTo flat (paths.zip earlier)) strict templates = .ok row) →
      ClearWay isDict (paths.zip combo)

variable {flat : Items}

/-- The loop over the combinations: the event reads as it did exactly when every combination that
is rendered is clear, and then the rows are those of the values that are read. -/
theorem untouched_renderCombosAt_iff {combos : List (List ObjRef)} {done values : List (List Val)}
    (hM : Merged h₀ e entries [] h₁) (hreads : Reads h₀ (.dict e) (.dict query.event.items))
    (hflat : Reads h₁ (.dict h₀.next) (.dict flat))
    (honly : ∀ template ∈ templates, engine.OnlyReads template) (hbase : Base h₁ run.heap)
    (hmoments : ∀ m ∈ run.moments, Unchanged h₀ e m)
    (hdone : ∀ earlier ∈ done, ∃ row,
      renderRow engine.jinja (scopedTo flat (paths.zip earlier)) strict templates = .ok row)
    (hcombos : List.Forall₂ (List.Forall₂ (Reads h₁)) combos values)
    (helements : ∀ combo ∈ combos, Elements h₁ e (paths.zip combo)) :
    ((∀ m ∈ (renderCombosAt engine templates strict h₀.next paths combos run).2.moments,
        Unchanged h₀ e m) ↔
        EachAfter (ClearIfRendered engine.jinja templates strict flat paths) done values) ∧
      (EachAfter (ClearIfRendered engine.jinja templates strict flat paths) done values →
        (renderCombosAt engine templates strict h₀.next paths combos run).1 =
          (values.mapM fun combo =>
            renderRow engine.jinja (scopedTo flat (paths.zip combo)) strict templates).map
              List.reduceOption) := by
  induction combos generalizing done values run with
  | nil =>
    cases hcombos
    exact ⟨iff_of_true hmoments (eachAfter_nil _ _), fun _ => rfl⟩
  | cons combo combos ih =>
    obtain ⟨value, values, hcombo, hothers, rfl⟩ := forall₂_cons_left_iff.mp hcombos
    obtain ⟨helement, helements⟩ := forall_mem_cons.mp helements
    have hroot : Below h₁.next (.dict h₀.next : ObjRef) := .dict hM.next_lt
    have htree : Tree 0 run.heap (.dict h₀.next) := by
      intro path path' a ha hpath hpath'
      rw [reach_of_agree hM.closed hbase.cells hroot] at hpath hpath'
      exact hM.forest.tree path path' a ha hpath hpath'
    have hcopy := scoped_copy hbase.closed htree (hM.next_lt.trans_le hbase.le)
    have hscope : Reads (copyHeap run.heap) (.dict (run.heap.next + h₀.next)) (.dict flat) := by
      intro path
      have hlook := look_copy run.heap path (.dict h₀.next)
      rw [shiftRef] at hlook
      rw [hlook, look_of_agree hM.closed hbase.cells hroot]
      exact hflat path
    have hzip := forall₂_zip paths hcombo
    have hmoments' : ∀ m ∈ (run.goOn (copyHeap run.heap)).moments, Unchanged h₀ e m := by
      intro m hm
      rcases mem_append.mp hm with hm | hm
      · exact hmoments m hm
      · rw [mem_singleton.mp hm]
        exact hM.unchanged_of_agree fun a ha =>
          (hcopy.cells a (ha.trans_le hbase.le)).trans (hbase.cells a ha)
    obtain ⟨hiff, hset⟩ := Scoped.setElements hM hreads hbase
      (show Scoped run.heap _ [] (run.goOn (copyHeap run.heap)).heap from hcopy) (show Elements h₁ e ([] ++ paths.zip combo) from helement) hscope hzip hmoments'
    -- the elements are dictionaries where the values that are read are
    have hmarks : (paths.zip combo).map (fun x => (x.1, isDictRef x.2)) =
        (paths.zip value).map fun x => (x.1, isDict x.2) := by
      rw [← forall₂_eq_eq_eq, forall₂_map_left_iff, forall₂_map_right_iff]
      exact hzip.imp fun x w hxw => Prod.ext hxw.1 (isDictRef_of_reads hxw.2)
    have hway : ClearWay isDictRef (paths.zip combo) ↔ ClearWay isDict (paths.zip value) :=
      ⟨clearWay_congr hmarks, clearWay_congr hmarks.symm⟩
    rw [eachAfter_cons_iff, ClearIfRendered]
    by_cases hclear : ClearWay isDict (paths.zip value)
    · obtain ⟨hscoped, hread⟩ := hset (hway.mpr hclear)
      obtain ⟨hrow, hidle⟩ := renderRowAt_eq strict honly hread
      have hall := hiff.mpr (hway.mpr hclear)
      have hbase' : ∀ a < h₁.next, (Query.setElements (run.heap.next + h₀.next)
          (run.goOn (copyHeap run.heap)) (paths.zip combo)).heap.cells a = h₁.cells a := fun a ha =>
        (hscoped.cells a (ha.trans_le hbase.le)).trans (hbase.cells a ha)
      have hrendered : ∀ m ∈ (renderRowAt engine (run.heap.next + h₀.next) strict templates
          (Query.setElements (run.heap.next + h₀.next) (run.goOn (copyHeap run.heap))
            (paths.zip combo))).2.moments, Unchanged h₀ e m := by
        intro m hm
        rcases hidle.after m hm with hm | hm
        · exact hall m hm
        · rw [hm]
          exact hM.unchanged_of_agree hbase'
      cases hresult : renderRowAt engine (run.heap.next + h₀.next) strict templates
          (Query.setElements (run.heap.next + h₀.next) (run.goOn (copyHeap run.heap))
            (paths.zip combo)) with
      | mk row run' =>
      rw [hresult] at hrow hidle hrendered
      rw [renderCombosAt_cons combos hresult, mapM_cons, ← hrow]
      cases row with
      | error err =>
        -- nothing more is rendered
        refine ⟨iff_of_true hrendered ⟨fun _ => hclear, ?_⟩, fun _ => rfl⟩
        intro before later after _ hok
        obtain ⟨row, hrow'⟩ := hok value (by simp)
        rw [← hrow] at hrow'
        cases hrow'
      | ok row =>
        have hnext : Base h₁ run'.heap := by
          rw [hidle.heap]
          exact ⟨hbase.le.trans (hscoped.le.trans hscoped.lt.le), hscoped.closed, hbase'⟩
        have hdone' : ∀ earlier ∈ done ++ [value], ∃ row,
            renderRow engine.jinja (scopedTo flat (paths.zip earlier)) strict templates =
              .ok row := by
          intro earlier hearlier
          rcases mem_append.mp hearlier with hearlier | hearlier
          · exact hdone earlier hearlier
          · rw [mem_singleton.mp hearlier]
            exact ⟨row, hrow.symm⟩
        obtain ⟨hiff', hrows⟩ := ih hnext hrendered hdone' hothers helements
        refine ⟨hiff'.trans (and_iff_right fun _ => hclear).symm, fun hall => ?_⟩
        simp only [hrows hall.2]
        cases values.mapM fun combo =>
            renderRow engine.jinja (scopedTo flat (paths.zip combo)) strict templates with
        | error err => rfl
        | ok rows => cases row <;> rfl
    · have hnot : ¬ ∀ m ∈ (renderCombosAt engine templates strict h₀.next paths (combo :: combos)
          run).2.moments, Unchanged h₀ e m := by
        intro hall
        refine hclear (hway.mp (hiff.mp fun m hm => hall m ?_))
        have hrow := moments_renderRowAt engine strict (run.heap.next + h₀.next) templates hm
        cases hresult : renderRowAt engine (run.heap.next + h₀.next) strict templates
            (Query.setElements (run.heap.next + h₀.next) (run.goOn (copyHeap run.heap))
              (paths.zip combo)) with
        | mk row run' =>
          rw [hresult] at hrow
          rw [renderCombosAt_cons combos hresult]
          cases row with
          | error err => exact hrow
          | ok row => exact moments_renderCombosAt combos hrow
      exact ⟨iff_of_false hnot fun hall => hclear (hall.1 hdone),
        fun hall => absurd (hall.1 hdone) hclear⟩

/-! ## §6 The event -/

theorem mem_axes {axis : List Key × List Val} (hmem : axis ∈ axes flat paths) :
    resolvePath axis.1 (.dict flat) = some (.list axis.2) := by
  obtain ⟨path, -, hpath⟩ := mem_filterMap.mp hmem
  split at hpath
  · rename_i elements hfound
    obtain rfl := Option.some.inj hpath
    exact hfound
  · cases hpath

theorem mem_axesAt {axis : List Key × List ObjRef} (hmem : axis ∈ axesAt h scope paths) :
    resolvePathAt h axis.1 (.dict scope) = some (.list axis.2) := by
  obtain ⟨path, -, hpath⟩ := mem_filterMap.mp hmem
  split at hpath
  · rename_i elements hfound
    obtain rfl := Option.some.inj hpath
    exact hfound
  · cases hpath

theorem exists_reach_of_resolve {path : List Key} (hresolve : resolvePathAt h path r = some value) :
    ∃ steps, reach h steps r = some value := by
  induction path generalizing r with
  | nil => exact ⟨[], hresolve⟩
  | cons key path ih =>
    cases r with
    | atom a => cases key <;> cases hresolve
    | dict address =>
      obtain ⟨next, hnext, hrest⟩ := Option.bind_eq_some_iff.mp hresolve
      obtain ⟨steps, hsteps⟩ := ih hrest
      exact ⟨.key key :: steps, Option.bind_eq_some_iff.mpr ⟨next, hnext, hsteps⟩⟩
    | list refs =>
      cases key with
      | str s => cases hresolve
      | int i =>
        rw [resolvePathAt] at hresolve
        split at hresolve
        · obtain ⟨next, hnext, hrest⟩ := Option.bind_eq_some_iff.mp hresolve
          obtain ⟨steps, hsteps⟩ := ih hrest
          exact ⟨.item i.toNat :: steps, Option.bind_eq_some_iff.mpr ⟨next, hnext, hsteps⟩⟩
        · cases hresolve

theorem Merged.inEvent (hM : Merged h₀ e entries [] h₁) {refs : List ObjRef}
    {steps : List (Seg Key)} (hlist : reach h₁ steps (.dict h₀.next) = some (.list refs))
    (hmem : r ∈ refs) : InEvent h₁ e r := by
  rcases hM.origin _ _ hlist with ⟨a, -, heq⟩ | ⟨x, hlive, ⟨inner, rfl⟩, hx⟩
  · cases heq
  · have hx' : x ∈ entries ++ [] := mem_append_left _ hlive.mem
    obtain ⟨i, hi, rfl⟩ := mem_iff_getElem.mp hmem
    rw [reach_append_of hx] at hlist
    refine ⟨.key x.key :: (inner ++ [.item i]), cons_ne_nil _ _, ?_⟩
    rw [reach_cons, hM.child_event hx', Option.bind_some, reach_append_of hlist, reach_cons]
    exact Option.bind_eq_some_iff.mpr ⟨_, List.getElem?_eq_getElem hi, rfl⟩

theorem Merged.elements (hM : Merged h₀ e entries [] h₁)
    (hflat : Reads h₁ (.dict h₀.next) (.dict flat)) (paths : List (List Key)) {combo : List ObjRef}
    (hcombo : combo ∈ product ((axesAt h₁ h₀.next paths).map (·.2))) :
    Elements h₁ e (((axesAt h₁ h₀.next paths).map (·.1)).zip combo) := by
  have hpaths : (axesAt h₁ h₀.next paths).map (·.1) = (axes flat paths).map (·.1) := by
    rw [← forall₂_eq_eq_eq, forall₂_map_left_iff, forall₂_map_right_iff]
    exact (rel_axesAt paths hflat).imp fun _ _ haxis => haxis.1
  have hresolve : ∀ x ∈ ((axesAt h₁ h₀.next paths).map (·.1)).zip combo,
      ∃ elements, resolvePath x.1 (.dict flat) = some (.list elements) := by
    intro x hx
    have hmem := (of_mem_zip hx).1
    rw [hpaths] at hmem
    obtain ⟨axis, haxis, heq⟩ := mem_map.mp hmem
    exact ⟨axis.2, heq ▸ mem_axes haxis⟩
  refine ⟨fun x hx hnil => ?_, fun x hx => ?_, fun x hx y hy rest hrest hgoes => ?_⟩
  · obtain ⟨elements, hfound⟩ := hresolve x hx
    rw [hnil] at hfound
    cases hfound
  · obtain ⟨refs, hrefs, hmem⟩ := exists_mem_of_mem_product hcombo (of_mem_zip hx).2
    obtain ⟨axis, haxis, rfl⟩ := mem_map.mp hrefs
    obtain ⟨steps, hsteps⟩ := exists_reach_of_resolve (mem_axesAt haxis)
    exact hM.inEvent hsteps hmem
  · obtain ⟨elements, hfound⟩ := hresolve x hx
    obtain ⟨others, hothers⟩ := hresolve y hy
    rw [hgoes, resolvePath_append, hfound, Option.bind_some] at hothers
    cases rest with
    | nil => exact absurd rfl hrest
    | cons key inner =>
      cases key with
      | int i => exact ⟨i, inner, rfl⟩
      | str s => cases hothers

/-- No combination that is rendered sets an element that is a dictionary on the way of a later
element. -/
def ElementsClear (jinja : Jinja) (templates : List String) (event : Event) (strict : Bool) : Prop :=
  ∀ parsed, templates.mapM jinja.parse = some parsed →
    EachAfter (ClearIfRendered jinja templates strict (expandDottedKeys event.items)
        ((axes (expandDottedKeys event.items) (allPaths parsed)).map (·.1))) []
      (product ((axes (expandDottedKeys event.items) (allPaths parsed)).map (·.2)))

theorem isEmpty_of_forall₂ {α β : Type*} {R : α → β → Prop} {l : List α} {l' : List β}
    (hrel : List.Forall₂ R l l') : l.isEmpty = l'.isEmpty := by
  cases hrel with
  | nil | cons => rfl

theorem untouched_axes_iff (hM : Merged h₀ e entries [] run.heap)
    (hreads : Reads h₀ (.dict e) (.dict query.event.items))
    (hflat : Reads run.heap (.dict h₀.next) (.dict flat))
    (hmoments : ∀ m ∈ run.moments, Unchanged h₀ e m)
    (honly : ∀ template ∈ templates, engine.OnlyReads template) (paths : List (List Key)) :
    let axesAt := axesAt run.heap h₀.next paths
    let axes := axes flat paths
    let rendered : Except Undefined (List (List String)) × Run :=
      if (axesAt.any fun axis => axis.2.isEmpty) = true then (.ok [], run)
      else if axesAt.isEmpty = true then
        ((renderRowAt engine h₀.next strict templates run).1.map Option.toList,
          (renderRowAt engine h₀.next strict templates run).2)
      else
        renderCombosAt engine templates strict h₀.next (axesAt.map (·.1))
          (product (axesAt.map (·.2))) run
    let clear := EachAfter (ClearIfRendered engine.jinja templates strict flat (axes.map (·.1))) []
      (product (axes.map (·.2)))
    (Untouched h₀ e rendered.2 ↔ clear) ∧
      (clear → rendered.1 =
        if (axes.any fun axis => axis.2.isEmpty) = true then .ok []
        else if axes.isEmpty = true then
          (renderRow engine.jinja flat strict templates).map Option.toList
        else
          ((product (axes.map (·.2))).mapM fun combo =>
            renderRow engine.jinja (scopedTo flat ((axes.map (·.1)).zip combo)) strict
              templates).map List.reduceOption) := by
  intro axesAt' axes' rendered clear
  have hrel : List.Forall₂ (fun axis axis' => axis.1 = axis'.1 ∧
      List.Forall₂ (Reads run.heap) axis.2 axis'.2) axesAt' axes' := rel_axesAt paths hflat
  have hpaths : axesAt'.map (·.1) = axes'.map (·.1) := by
    rw [← forall₂_eq_eq_eq, forall₂_map_left_iff, forall₂_map_right_iff]
    exact hrel.imp fun _ _ haxis => haxis.1
  have hlists : List.Forall₂ (List.Forall₂ (Reads run.heap)) (axesAt'.map (·.2))
      (axes'.map (·.2)) := by
    rw [forall₂_map_left_iff, forall₂_map_right_iff]
    exact hrel.imp fun _ _ haxis => haxis.2
  have hany : (axesAt'.any fun axis => axis.2.isEmpty) = axes'.any fun axis => axis.2.isEmpty := by
    clear_value axesAt' axes'
    clear hlists hpaths rendered clear
    induction hrel with
    | nil => rfl
    | cons haxis _ ih => rw [any_cons, any_cons, ih, isEmpty_of_forall₂ haxis.2]
  by_cases hnone : (axes'.any fun axis => axis.2.isEmpty) = true
  · -- a list without an element leaves no combination
    obtain ⟨axis, haxis, hnil⟩ := any_eq_true.mp hnone
    have hproduct : product (axes'.map (·.2)) = [] :=
      product_eq_nil (mem_map.mpr ⟨axis, haxis, List.isEmpty_iff.mp hnil⟩)
    have hclear : clear := by
      simp only [clear, hproduct]
      exact eachAfter_nil _ _
    simp only [rendered, hany, if_pos hnone]
    exact ⟨iff_of_true hmoments hclear, fun _ => trivial⟩
  · by_cases hempty : axes'.isEmpty = true
    · obtain ⟨hrow, hidle⟩ := renderRowAt_eq strict honly hflat
      have hclear : clear := by
        simp only [clear, List.isEmpty_iff.mp hempty, map_nil, product]
        exact eachAfter_cons_iff.mpr ⟨fun _ => eachAfter_nil _ _, eachAfter_nil _ _⟩
      simp only [rendered, hany, if_neg hnone, isEmpty_of_forall₂ hrel, if_pos hempty, hrow]
      refine ⟨iff_of_true (fun m hm => ?_) hclear, fun _ => trivial⟩
      rcases hidle.after m hm with hm | hm
      · exact hmoments m hm
      · rw [hm]
        exact hM.reads
    · simp only [rendered, hany, if_neg hnone, isEmpty_of_forall₂ hrel, if_neg hempty, hpaths]
      refine untouched_renderCombosAt_iff hM hreads hflat honly
        ⟨le_rfl, hM.closed, fun _ _ => rfl⟩ hmoments (forall_mem_nil _)
        (rel_product hlists) fun combo hcombo => ?_
      rw [← hpaths]
      exact hM.elements hflat paths hcombo

theorem moments_renderEventTemplatesMultiAt (hm : m ∈ (expandDottedKeysAt e h).2.moments) :
    m ∈ (renderEventTemplatesMultiAt engine templates e strict h).2.moments := by
  rw [renderEventTemplatesMultiAt]
  simp only
  split
  · exact hm
  · split
    · exact hm
    · split
      · exact moments_renderRowAt engine strict _ templates hm
      · exact moments_renderCombosAt _ hm

/-- Rendering several templates leaves the event as it was exactly when flattening does and the
elements are clear of each other; and then it gives what rendering the values gives. -/
theorem untouched_renderEventTemplatesMultiAt_iff (strict : Bool)
    (hstored : Stored h e query.event)
    (honly : ∀ template ∈ templates, engine.OnlyReads template) :
    (Untouched h e (renderEventTemplatesMultiAt engine templates e strict h).2 ↔
        DictionariesKept query.event.items ∧
          ElementsClear engine.jinja templates query.event strict) ∧
      (DictionariesKept query.event.items ∧
          ElementsClear engine.jinja templates query.event strict →
        (renderEventTemplatesMultiAt engine templates e strict h).1 =
          renderEventTemplatesMulti engine.jinja templates query.event strict) := by
  obtain ⟨hiff, hmerged⟩ := hstored.expand
  by_cases hkept : DictionariesKept query.event.items
  · obtain ⟨hM, hflat⟩ := hmerged hkept
    have hall := hiff.mpr hkept
    have haxes := fun paths => rel_axesAt paths hflat
    rw [and_iff_right hkept]
    cases hparse : templates.mapM engine.parse with
    | none =>
      have hparse' : templates.mapM engine.jinja.parse = none := hparse
      simp only [renderEventTemplatesMultiAt, renderEventTemplatesMulti, hparse, hparse']
      refine ⟨iff_of_true hall fun parsed hparsed => ?_, fun _ => trivial⟩
      rw [hparse'] at hparsed
      cases hparsed
    | some parsed =>
      have hparse' : templates.mapM engine.jinja.parse = some parsed := hparse
      have hclear : ElementsClear engine.jinja templates query.event strict ↔
          EachAfter (ClearIfRendered engine.jinja templates strict
              (expandDottedKeys query.event.items)
              ((axes (expandDottedKeys query.event.items) (allPaths parsed)).map (·.1))) []
            (product ((axes (expandDottedKeys query.event.items) (allPaths parsed)).map (·.2))) := by
        refine ⟨fun hclear => hclear parsed hparse', fun hclear parsed' hparsed => ?_⟩
        rw [hparse', Option.some.injEq] at hparsed
        exact hparsed ▸ hclear
      rw [hclear]
      simp only [renderEventTemplatesMultiAt, renderEventTemplatesMulti, hparse, hparse']
      exact untouched_axes_iff hM hstored.reads hflat hall honly (allPaths parsed)
  · refine ⟨iff_of_false (fun hall => hkept (hiff.mp fun m hm => hall m ?_)) fun hall =>
      hkept hall.1, fun hall => absurd hall.1 hkept⟩
    exact moments_renderEventTemplatesMultiAt hm

/-- Rendering, once for each template and for all of them together, leaves the event as it was
exactly when later keys do not change its dictionaries and the elements of its lists are clear of
each other. -/
theorem event_untouched_iff (engine : Engine) (query : QueryEvent) (templates : List String)
    (strict : Bool) (h : EventHeap) (e : ℕ) (hstored : Stored h e query.event)
    (honly : ∀ template ∈ templates, engine.OnlyReads template) :
    ((∀ template ∈ templates, Untouched h e (renderEventTemplateAt engine template e strict h).2) ∧
        Untouched h e (renderEventTemplatesMultiAt engine templates e strict h).2) ↔
      DictionariesKept query.event.items ∧
        ElementsClear engine.jinja templates query.event strict := by
  have hmulti := (untouched_renderEventTemplatesMultiAt_iff strict hstored honly).1
  rw [hmulti]
  refine and_iff_right_of_imp fun hboth template htemplate => ?_
  apply (untouched_renderEventTemplateAt_iff engine template strict hstored
    (honly template htemplate)).mpr
  exact hboth.1

def emptyEngine : Engine where
  parse _ := some (.other [])
  render _ _ _ := .text ""
  effect _ h _ _ := h

/-- A dictionary, and a dotted key that goes on from its path. -/
def overlappingQuery : QueryEvent where
  event := ⟨[(.str "a", .dict [(.str "x", .atom (.int 1))]), (.str "a.b", .atom (.int 2))], by decide⟩
  json := by
    intro item hitem
    rcases mem_cons.mp hitem with rfl | hitem
    · refine .dict (by decide) (by simp) fun item hitem => ?_
      rw [mem_singleton.mp hitem]
      exact .atom nofun
    · rw [mem_singleton.mp hitem]
      exact .atom nofun

def overlappingHeap : EventHeap where
  cells
    | 0 => [(.str "a", .dict 1), (.str "a.b", .atom (.int 2))]
    | 1 => [(.str "x", .atom (.int 1))]
    | _ => []
  next := 2

theorem reach_overlappingHeap {path : List (Seg Key)} {a : ℕ}
    (hpath : reach overlappingHeap path (.dict 0) = some (.dict a)) :
    (path = [] ∧ a = 0) ∨ (path = [.key (.str "a")] ∧ a = 1) := by
  rcases path with _ | ⟨key | _, path⟩
  · exact .inl ⟨rfl, (Ref.dict.inj (Option.some.inj hpath)).symm⟩
  · obtain ⟨next, hnext, hrest⟩ := Option.bind_eq_some_iff.mp hpath
    have hitem : (key, next) ∈ overlappingHeap.cells 0 := by
      obtain ⟨before, after, heq, -⟩ := lookup_eq_some_iff.mp hnext
      rw [heq]
      exact mem_append_right _ mem_cons_self
    rcases mem_cons.mp hitem with heq | hitem
    · obtain ⟨rfl, rfl⟩ := Prod.mk.inj heq
      rcases path with _ | ⟨key' | _, path⟩
      · exact .inr ⟨rfl, (Ref.dict.inj (Option.some.inj hrest)).symm⟩
      · obtain ⟨inner, hinner, hlast⟩ := Option.bind_eq_some_iff.mp hrest
        have hmem : (key', inner) ∈ overlappingHeap.cells 1 := by
          obtain ⟨before, after, heq, -⟩ := lookup_eq_some_iff.mp hinner
          rw [heq]
          exact mem_append_right _ mem_cons_self
        obtain ⟨rfl, rfl⟩ := Prod.mk.inj (mem_singleton.mp hmem)
        rcases path with _ | ⟨_ | _, _⟩ <;> cases hlast
      · cases hrest
    · obtain ⟨rfl, rfl⟩ := Prod.mk.inj (mem_singleton.mp hitem)
      rcases path with _ | ⟨_ | _, _⟩ <;> cases hrest
  · cases hpath

theorem stored_overlappingQuery : Stored overlappingHeap 0 overlappingQuery.event where
  reads := reads_dict (.cons ⟨rfl, reads_dict (.cons ⟨rfl, reads_atom _ _⟩ .nil)⟩
    (.cons ⟨rfl, reads_atom _ _⟩ .nil))
  tree path path' a _ hpath hpath' := by
    rcases reach_overlappingHeap hpath with ⟨rfl, rfl⟩ | ⟨rfl, rfl⟩ <;>
      rcases reach_overlappingHeap hpath' with ⟨rfl, ha⟩ | ⟨rfl, ha⟩ <;>
        first | rfl | cases ha
  lt := Nat.zero_lt_two
  closed a ha item hitem := by
    match a, ha with
    | 0, _ =>
      rcases mem_cons.mp hitem with rfl | hitem
      · exact .dict Nat.one_lt_two
      · rw [mem_singleton.mp hitem]
        exact .atom _
    | 1, _ =>
      rw [mem_singleton.mp hitem]
      exact .atom _

theorem event_untouched_iff_overlapping :
    ((∀ template ∈ ["x"],
          Untouched overlappingHeap 0
            (renderEventTemplateAt emptyEngine template 0 true overlappingHeap).2) ∧
        Untouched overlappingHeap 0
          (renderEventTemplatesMultiAt emptyEngine ["x"] 0 true overlappingHeap).2) ↔
      DictionariesKept overlappingQuery.event.items ∧
        ElementsClear emptyEngine.jinja ["x"] overlappingQuery.event true :=
  event_untouched_iff emptyEngine overlappingQuery ["x"] true overlappingHeap 0
    stored_overlappingQuery fun _ _ _ _ _ => rfl

/-- The value of the dotted key is written into the dictionary of the event. -/
theorem dotted_key_is_written :
    Stored overlappingHeap 0 overlappingQuery.event ∧
      ¬ Unchanged overlappingHeap 0
        (renderEventTemplateAt emptyEngine "x" 0 true overlappingHeap).2.heap ∧
      ¬ Unchanged overlappingHeap 0
        (renderEventTemplatesMultiAt emptyEngine ["x"] 0 true overlappingHeap).2.heap := by
  refine ⟨stored_overlappingQuery, fun hsame => ?_, fun hsame => ?_⟩ <;>
  · have hkeys := hsame [.key (.str "a")]
    revert hkeys
    decide

end Ace3.Query
