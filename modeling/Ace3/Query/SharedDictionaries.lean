import Ace3.Lib.Firsts
import Ace3.Query.DedupKey
import Ace3.Query.HeapWalk

/-!
# Writes into Shared Dictionaries

A dictionary of the event that was merged into the flattened event belongs to both. A later key that
goes on from its path is written into it, so the event changes unless the dictionary has the same
there already.
-/

namespace Ace3.Query

open List
open Lib Lib.Firsts Lib.Nested Lib.ObjectHeap

/-! ## §1 Kept dictionaries -/

/-- Writing the other value at the rest of a path changes nothing: it is there already, or a
dictionary is, which is preserved. -/
def Keeps (v : Val) (rest : List Key) (other : Val) : Prop :=
  v.find rest = some other ∨ ((v.find rest).any isDict = true ∧ other.isDict = false)

/-- No dictionary among these keys takes the place of the one at the path. -/
def Stays (path : List Key) (between : Items) : Prop :=
  ∀ entry ∈ between, entry.2.isDict = true → pathOf entry.1 ≠ [] → ¬ pathOf entry.1 <+: path

/-- Of two keys, the second of which goes on from the path of the first one, the first one has a
dictionary that the second one does not change; unless the dictionary was replaced in between. -/
def DictionariesKept (items : Items) : Prop :=
  ∀ before entry between other after, items = before ++ entry :: between ++ other :: after →
    entry.2.isDict = true → pathOf entry.1 ≠ [] → Stays (pathOf entry.1) between →
      ∀ rest, rest ≠ [] → pathOf other.1 = pathOf entry.1 ++ rest → Keeps entry.2 rest other.2

/-! ## §2 The heap -/

/-- A key of the event, with the reference to its value. -/
structure Entry where
  key : Key
  ref : ObjRef

namespace Entry

def path (x : Entry) : List Key := pathOf x.key

end Entry

/-- The entry was merged, and no dictionary took its place. -/
def Live (done : List Entry) (x : Entry) : Prop :=
  x.path ≠ [] ∧ ∃ before after, done = before ++ x :: after ∧
    ∀ y ∈ after, isDictRef y.ref = true → y.path ≠ [] → ¬ y.path <+: x.path

/-- A write of one value into the other changes nothing. -/
def KeepsAt (h : EventHeap) (r : ObjRef) (rest : List Key) (other : ObjRef) : Prop :=
  (∀ path, look h (keySteps rest ++ path) r = look h path other) ∨
    ((∃ keys, look h (keySteps rest) r = some (.dict keys)) ∧ isDictRef other = false)

/-- The entry changes none of the dictionaries that were merged. -/
def Agrees (h₀ : EventHeap) (done : List Entry) (x : Entry) : Prop :=
  ∀ y, Live done y → isDictRef y.ref = true → ∀ rest, rest ≠ [] → x.path = y.path ++ rest →
    KeepsAt h₀ y.ref rest x.ref

/-- The heap when some entries of the event `e` were merged, and nothing of the event has changed
so far. The flattened event is the dictionary at the first new address. -/
structure Merged (h₀ : EventHeap) (e : ℕ) (done todo : List Entry) (h : EventHeap) : Prop where
  next_lt : h₀.next < h.next
  closed_old : Closed h h₀.next
  closed : Closed h h.next
  cells : h.cells e = h₀.cells e
  found : ∀ x ∈ done ++ todo, (h₀.cells e).lookup x.key = some x.ref
  old : ∀ x ∈ done ++ todo, Below h₀.next x.ref
  event_lt : e < h₀.next
  reads : ∀ path, look h path (.dict e) = look h₀ path (.dict e)
  /-- The flattened event, and the values that are not in it yet. -/
  forest : Forest 0 h (.dict h₀.next) (todo.map (·.ref))
  event_apart : ∀ path, reach h path (.dict h₀.next) ≠ some (.dict e)
  todo_apart : ∀ x ∈ todo, ∀ path, reach h path x.ref ≠ some (.dict e)
  /-- What the flattened event leads to is new, or comes from an entry. -/
  origin : ∀ path r, reach h path (.dict h₀.next) = some r →
    (∃ a, h₀.next ≤ a ∧ r = .dict a) ∨
      ∃ x, Live done x ∧ keySteps x.path <+: path ∧
        reach h (keySteps x.path) (.dict h₀.next) = some x.ref
  /-- A dictionary lies at its path until another one takes its place. -/
  live : ∀ x, Live done x → isDictRef x.ref = true →
    reach h (keySteps x.path) (.dict h₀.next) = some x.ref

variable {h₀ h : EventHeap} {e a : ℕ} {done todo : List Entry} {x y : Entry}
  {place rest : List Key} {part : Key}

theorem Live.mem (hlive : Live done x) : x ∈ done := by
  obtain ⟨-, before, after, rfl, -⟩ := hlive
  exact mem_append_right _ mem_cons_self

theorem Merged.child_event (hM : Merged h₀ e done todo h) (hx : x ∈ done ++ todo) :
    child h (.dict e) (.key x.key) = some x.ref := by
  rw [child, hM.cells]
  exact hM.found x hx

theorem Merged.look_ref (hM : Merged h₀ e done todo h) (hx : x ∈ done ++ todo)
    (path : List (Seg Key)) : look h path x.ref = look h₀ path x.ref := by
  have hbefore : child h₀ (.dict e) (.key x.key) = some x.ref := hM.found x hx
  rw [← look_cons_of (hM.child_event hx), ← look_cons_of hbefore]
  exact hM.reads _

/-! ## §3 Where a write goes -/

theorem Merged.exists_live (hM : Merged h₀ e done todo h)
    (hplace : reach h (keySteps place) (.dict h₀.next) = some (.dict a)) (ha : a < h₀.next) :
    ∃ y, Live done y ∧ isDictRef y.ref = true ∧ ∃ inner, place = y.path ++ inner ∧
      reach h (keySteps inner) y.ref = some (.dict a) := by
  rcases hM.origin _ _ hplace with ⟨b, hb, heq⟩ | ⟨y, hlive, hpre, hy⟩
  · rw [Ref.dict.inj heq] at ha
    exact absurd ha (Nat.not_lt.mpr hb)
  · obtain ⟨inner, rfl⟩ := keySteps_prefix_iff.mp hpre
    rw [keySteps_append, reach_append_of hy] at hplace
    refine ⟨y, hlive, ?_, inner, rfl, hplace⟩
    cases inner with
    | nil =>
      rw [Option.some.inj hplace]
      rfl
    | cons key inner =>
      obtain ⟨value, hchild, -⟩ := Option.bind_eq_some_iff.mp hplace
      exact isDictRef_of_child hchild

theorem Merged.keeps_old (hM : Merged h₀ e done (x :: todo) h) (hagrees : Agrees h₀ done x)
    (hplace : reach h (keySteps place) (.dict h₀.next) = some (.dict a)) (ha : a < h₀.next)
    (hrest : rest ≠ []) (hpath : x.path = place ++ rest) :
    KeepsAt h (.dict a) rest x.ref := by
  obtain ⟨y, hlive, hdict, inner, rfl, hinner⟩ := hM.exists_live hplace ha
  have hne : inner ++ rest ≠ [] := fun h => hrest (append_eq_nil_iff.mp h).2
  have hkeeps := hagrees y hlive hdict (inner ++ rest) hne (by rw [hpath, append_assoc])
  have hy := hM.look_ref (mem_append_left _ hlive.mem)
  have hx : ∀ path, look h path x.ref = look h₀ path x.ref :=
    hM.look_ref (mem_append_right _ mem_cons_self)
  have hfrom : ∀ path, look h (keySteps rest ++ path) (.dict a) =
      look h₀ (keySteps (inner ++ rest) ++ path) y.ref := by
    intro path
    rw [← hy, keySteps_append, append_assoc, look_append_of hinner]
  refine hkeeps.imp (fun hsame path => ?_) fun ⟨⟨keys, hkeys⟩, hplain⟩ => ⟨⟨keys, ?_⟩, hplain⟩
  · rw [hfrom, hsame, hx]
  · have hnil := hfrom []
    rw [append_nil, append_nil] at hnil
    rw [hnil, hkeys]

/-! ## §4 Keys that change nothing -/

theorem live_concat_iff : Live (done ++ [x]) y ↔
    (y = x ∧ y.path ≠ []) ∨
      (Live done y ∧ (isDictRef x.ref = true → x.path ≠ [] → ¬ x.path <+: y.path)) := by
  constructor
  · rintro ⟨hne, before, after, heq, hafter⟩
    induction after using List.reverseRecOn with
    | nil =>
      obtain ⟨-, hlast⟩ := append_inj' heq rfl
      exact .inl ⟨(singleton_inj.mp hlast).symm, hne⟩
    | append_singleton after z _ =>
      rw [← cons_append, ← append_assoc] at heq
      obtain ⟨rfl, hlast⟩ := append_inj' heq rfl
      obtain rfl := singleton_inj.mp hlast
      refine .inr ⟨⟨hne, before, after, rfl, fun y hy => hafter y (mem_append_left _ hy)⟩, ?_⟩
      exact hafter x (mem_append_right _ (mem_singleton_self x))
  · rintro (⟨rfl, hne⟩ | ⟨⟨hne, before, after, rfl, hafter⟩, hx⟩)
    · exact ⟨hne, done, [], rfl, fun _ hz => absurd hz not_mem_nil⟩
    · refine ⟨hne, before, after ++ [x], by simp, fun z hz => ?_⟩
      rcases mem_append.mp hz with hz | hz
      · exact hafter z hz
      · rw [mem_singleton.mp hz]
        exact hx

theorem Merged.skip (hM : Merged h₀ e done (x :: todo) h)
    (hskip : isDictRef x.ref = false ∨ x.path = []) : Merged h₀ e (done ++ [x]) todo h := by
  have hlist : done ++ [x] ++ todo = done ++ x :: todo := by simp
  obtain ⟨-, hothers⟩ := forall_mem_cons.mp hM.forest.each
  refine { hM with
    found := hlist ▸ hM.found
    old := hlist ▸ hM.old
    forest := ⟨hM.forest.tree, hothers, (pairwise_cons.mp hM.forest.apart).2⟩
    todo_apart := fun y hy => hM.todo_apart y (mem_cons_of_mem _ hy)
    origin := fun path r hr => (hM.origin path r hr).imp_right ?_
    live := fun y hlive hdict => ?_ }
  · rintro ⟨y, hlive, hy⟩
    refine ⟨y, live_concat_iff.mpr (.inr ⟨hlive, fun hdict hne => ?_⟩), hy⟩
    rcases hskip with hplain | hpath
    · rw [hplain] at hdict
      cases hdict
    · exact absurd hpath hne
  · rcases live_concat_iff.mp hlive with ⟨rfl, hne⟩ | ⟨hlive, -⟩
    · rcases hskip with hplain | hpath
      · rw [hplain] at hdict
        cases hdict
      · exact absurd hpath hne
    · exact hM.live y hlive hdict

theorem Merged.withNew (hM : Merged h₀ e done todo h)
    (hplace : reach h (keySteps place) (.dict h₀.next) = some (.dict a)) (ha : h₀.next ≤ a)
    (hmissing : ∀ b, (h.cells a).lookup part ≠ some (.dict b)) :
    Merged h₀ e done todo (putNew h a part) ∧
      reach (putNew h a part) (keySteps (place ++ [part])) (.dict h₀.next) =
        some (.dict h.next) := by
  have hroot : Below h.next (.dict h₀.next : ObjRef) := .dict hM.next_lt
  have htodo : ∀ r ∈ todo.map (·.ref), Below h.next r := by
    intro r hr
    obtain ⟨y, hy, rfl⟩ := mem_map.mp hr
    exact (hM.old y (mem_append_right _ hy)).mono hM.next_lt.le
  have hcases := reach_putNew_cases hM.closed hroot a.zero_le hplace hM.forest.tree part
  -- nothing changes for the old dictionaries
  have hsame : ∀ b < h₀.next, (putNew h a part).cells b = h.cells b := fun b hb =>
    cells_putNew (Nat.ne_of_lt (hb.trans_le ha)) (hb.trans hM.next_lt)
  refine ⟨{
    next_lt := hM.next_lt.trans (Nat.lt_succ_self _)
    closed_old := fun b hb => by rw [hsame b hb]; exact hM.closed_old b hb
    closed := closed_putNew hM.closed a part
    cells := (hsame e hM.event_lt).trans hM.cells
    found := hM.found
    old := hM.old
    event_lt := hM.event_lt
    reads := fun path => (look_of_agree hM.closed_old hsame (.dict hM.event_lt) path).trans
      (hM.reads path)
    forest := forest_putNew hM.closed hroot a.zero_le hplace hM.forest htodo
    event_apart := fun path hpath => ?_
    todo_apart := fun y hy path hpath => ?_
    origin := fun path r hr => ?_
    live := fun y hlive hdict => ?_ }, ?_⟩
  · rcases hcases path with ⟨-, heq⟩ | ⟨-, heq⟩ | ⟨-, heq⟩ <;> rw [heq] at hpath
    · have hnext := Ref.dict.inj (Option.some.inj hpath)
      have := hM.event_lt.trans hM.next_lt
      omega
    · cases hpath
    · exact hM.event_apart path hpath
  · have hy' : Below h₀.next y.ref := hM.old y (mem_append_right _ hy)
    rw [reach_of_agree hM.closed_old hsame hy'] at hpath
    exact hM.todo_apart y hy path hpath
  · rcases hcases path with ⟨-, heq⟩ | ⟨-, heq⟩ | ⟨hbeside, heq⟩ <;> rw [heq] at hr
    · exact .inl ⟨h.next, hM.next_lt.le, (Option.some.inj hr).symm⟩
    · cases hr
    · refine (hM.origin path r hr).imp_right ?_
      rintro ⟨y, hlive, hpre, hy⟩
      refine ⟨y, hlive, hpre, ?_⟩
      rcases hcases (keySteps y.path) with ⟨hvia, -⟩ | ⟨hvia, -⟩ | ⟨-, heq⟩
      · exact absurd (hvia ▸ hpre) hbeside
      · exact absurd (hvia.trans hpre) hbeside
      · rw [heq, hy]
  · have hy := hM.live y hlive hdict
    have hnot : ¬ keySteps place ++ [.key part] <+: keySteps y.path := by
      rintro ⟨rest, hvia⟩
      rw [append_assoc, singleton_append] at hvia
      obtain ⟨inner, hinner⟩ := exists_keys_of_via hvia.symm
      rw [hinner] at hy
      obtain ⟨b, hb⟩ := exists_lookup_dict hplace hy hdict
      exact hmissing b hb
    rcases hcases (keySteps y.path) with ⟨hvia, -⟩ | ⟨hvia, -⟩ | ⟨-, heq⟩
    · exact absurd (hvia ▸ prefix_rfl) hnot
    · exact absurd hvia hnot
    · rw [heq, hy]
  · rw [keySteps_append]
    exact reach_putNew_at hM.closed hroot a.zero_le hplace hM.forest.tree

theorem Merged.withValue (hM : Merged h₀ e done (x :: todo) h)
    (hplace : reach h (keySteps place) (.dict h₀.next) = some (.dict a))
    (hpath : x.path = place ++ [part])
    (hput : isDictRef x.ref = true ∨ ∀ b, (h.cells a).lookup part ≠ some (.dict b))
    (hreads : ∀ path, look (put h a part x.ref) path (.dict e) = look h path (.dict e)) :
    Merged h₀ e (done ++ [x]) todo (put h a part x.ref) := by
  have hlist : done ++ [x] ++ todo = done ++ x :: todo := by simp
  have hx : x ∈ done ++ x :: todo := mem_append_right _ mem_cons_self
  have hroot : Below h.next (.dict h₀.next : ObjRef) := .dict hM.next_lt
  have hea : e ≠ a := fun hea => hM.event_apart _ (hea ▸ hplace)
  obtain ⟨hvalue, hothers⟩ := forall_mem_cons.mp hM.forest.each
  have hcases := fun path => reach_put_cases hM.forest.tree a.zero_le hplace hvalue.2 part path
  have hat : keySteps place ++ [.key part] = keySteps x.path := by
    rw [hpath, keySteps_append]
    rfl
  have hxlive : Live (done ++ [x]) x :=
    live_concat_iff.mpr (.inl ⟨rfl, by rw [hpath]; exact append_ne_nil_of_right_ne_nil _ (cons_ne_nil _ _)⟩)
  have hxreach : reach (put h a part x.ref) (keySteps x.path) (.dict h₀.next) = some x.ref := by
    have hunique : ∀ path, reach h path (.dict h₀.next) = some (.dict a) → path = keySteps place :=
      fun path hpath => hM.forest.tree path _ a a.zero_le hpath hplace
    rw [← hat]
    exact reach_put_at hunique hplace (fun path => hvalue.2 _ path a a.zero_le hplace) []
  refine {
    next_lt := hM.next_lt
    closed_old := closed_put hM.closed_old (hM.old x hx) a part
    closed := closed_put hM.closed ((hM.old x hx).mono hM.next_lt.le) a part
    cells := (cells_put_of_ne hea part x.ref).trans hM.cells
    found := hlist ▸ hM.found
    old := hlist ▸ hM.old
    event_lt := hM.event_lt
    reads := fun path => (hreads path).trans (hM.reads path)
    forest := hM.forest.put a.zero_le hplace part
    event_apart := fun path hpath => ?_
    todo_apart := fun y hy path hpath => ?_
    origin := fun path r hr => ?_
    live := fun y hlive hdict => ?_ }
  · rcases hcases path with ⟨rest, -, heq⟩ | ⟨-, heq⟩ <;> rw [heq] at hpath
    · exact hM.todo_apart x mem_cons_self rest hpath
    · exact hM.event_apart path hpath
  · rw [(hothers _ (mem_map_of_mem hy)).2.reach_put a.zero_le hplace] at hpath
    exact hM.todo_apart y (mem_cons_of_mem _ hy) path hpath
  · rcases hcases path with ⟨rest, rfl, -⟩ | ⟨hbeside, heq⟩
    · refine .inr ⟨x, hxlive, ⟨rest, ?_⟩, hxreach⟩
      rw [← hat, append_assoc]
      rfl
    · rw [heq] at hr
      refine (hM.origin path r hr).imp_right ?_
      rintro ⟨y, hlive, hpre, hy⟩
      -- what leads to the value beside the place still does
      have hnot : ¬ x.path <+: y.path := by
        intro hxy
        rw [hat] at hbeside
        exact hbeside ((keySteps_prefix_iff.mpr hxy).trans hpre)
      refine ⟨y, live_concat_iff.mpr (.inr ⟨hlive, fun _ _ => hnot⟩), hpre, ?_⟩
      rcases hcases (keySteps y.path) with ⟨rest, hvia, -⟩ | ⟨-, heq⟩
      · obtain ⟨inner, hinner⟩ := exists_keys_of_via hvia
        refine absurd ⟨inner, ?_⟩ hnot
        rw [hpath, hinner, append_assoc, singleton_append]
      · rw [heq, hy]
  · rcases live_concat_iff.mp hlive with ⟨rfl, -⟩ | ⟨hlive, hstays⟩
    · exact hxreach
    · have hy := hM.live y hlive hdict
      rcases hcases (keySteps y.path) with ⟨rest, hvia, -⟩ | ⟨-, heq⟩
      · obtain ⟨inner, hinner⟩ := exists_keys_of_via hvia
        rcases hput with hxdict | hmissing
        · refine absurd ⟨inner, ?_⟩ (hstays hxdict hxlive.1)
          rw [hpath, hinner, append_assoc, singleton_append]
        · rw [hinner] at hy
          obtain ⟨b, hb⟩ := exists_lookup_dict hplace hy hdict
          exact absurd hb (hmissing b)
      · rw [heq, hy]

theorem KeepsAt.exists_reach {r other : ObjRef} (hkeeps : KeepsAt h r rest other) :
    ∃ value, reach h (keySteps rest) r = some value := by
  rcases hkeeps with hsame | ⟨⟨keys, hkeys⟩, -⟩
  · have hnil : look h (keySteps rest) r = look h [] other := by
      rw [← hsame, append_nil]
    obtain ⟨value, hvalue, -⟩ := Option.map_eq_some_iff.mp hnil
    exact ⟨value, hvalue⟩
  · obtain ⟨b, hb⟩ := exists_reach_of_look hkeys
    exact ⟨_, hb⟩

theorem Merged.walk (hagrees : Agrees h₀ done x) (hM : Merged h₀ e done (x :: todo) h)
    (hplace : reach h (keySteps place) (.dict h₀.next) = some (.dict a)) (hrest : rest ≠ [])
    (hpath : x.path = place ++ rest) :
    Merged h₀ e (done ++ [x]) todo (walkAndSet true x.ref rest a h) := by
  induction rest generalizing place a h with
  | nil => exact absurd rfl hrest
  | cons part rest ih =>
    cases rest with
    | nil =>
      rw [walkAndSet, Bool.true_and]
      split
      case isTrue hkept =>
        rw [Bool.and_eq_true, Bool.not_eq_true'] at hkept
        exact hM.skip (.inl hkept.2)
      case isFalse hkept =>
        have hput : isDictRef x.ref = true ∨ ∀ b, (h.cells a).lookup part ≠ some (.dict b) := by
          by_contra hboth
          obtain ⟨hplain, hdict⟩ := not_or.mp hboth
          obtain ⟨b, hb⟩ := not_forall_not.mp hdict
          refine hkept ?_
          rw [hb, Bool.eq_false_of_not_eq_true hplain]
          rfl
        refine hM.withValue hplace hpath hput fun path => ?_
        by_cases ha : a < h₀.next
        · -- the event has the same there already
          rcases hM.keeps_old hagrees hplace ha hrest hpath with hsame | ⟨⟨keys, hkeys⟩, hplain⟩
          · have hkeeps : KeepsAt h (.dict a) [part] x.ref := .inl hsame
            obtain ⟨old, hreach⟩ := hkeeps.exists_reach
            have hold := lookup_of_reach hreach
            refine look_put_same hold (fun path => ?_) path _
            have hchild : child h (.dict a) (.key part) = some old := hold
            rw [← look_cons_of hchild]
            exact hsame path
          · rcases hput with hdict | hmissing
            · rw [hplain] at hdict
              cases hdict
            · obtain ⟨b, hb⟩ := exists_reach_of_look hkeys
              exact absurd (lookup_of_reach hb) (hmissing b)
        · exact look_of_agree hM.closed_old
            (fun b hb => cells_put_of_ne (fun hba : b = a => ha (hba ▸ hb)) part x.ref)
            (.dict hM.event_lt) path
    | cons key rest =>
      rw [walkAndSet_cons (cons_ne_nil _ _)]
      split
      case h_1 b hb =>
        have hnext : reach h (keySteps (place ++ [part])) (.dict h₀.next) = some (.dict b) := by
          rw [keySteps_append, reach_append_of hplace]
          exact Option.bind_eq_some_iff.mpr ⟨_, hb, rfl⟩
        refine ih hM hnext (cons_ne_nil _ _) ?_
        rw [hpath, append_assoc, singleton_append]
      case h_2 hmissing =>
        -- an old dictionary would have one there
        have ha : h₀.next ≤ a := by
          by_contra hlt
          obtain ⟨value, hvalue⟩ :=
            (hM.keeps_old hagrees hplace (Nat.not_le.mp hlt) hrest hpath).exists_reach
          have hthrough : reach h (keySteps ([part] ++ key :: rest)) (.dict a) = some value := hvalue
          obtain ⟨b, hb⟩ := exists_dict_of_reach hthrough
          exact hmissing b (lookup_of_reach hb)
        obtain ⟨hnew, hnext⟩ := hM.withNew hplace ha fun b hb => hmissing b hb
        refine ih hnew hnext (cons_ne_nil _ _) ?_
        rw [hpath, append_assoc, singleton_append]

/-! ## §5 Keys that change the event -/

variable {keep : Bool} {value : ObjRef}

/-- Where a dictionary reads the same after a walk from it, the value was there, or a dictionary
that was preserved. -/
theorem keeps_of_unchanged (htree : Tree 0 h (.dict a)) (hclosed : Closed h h.next) (ha : a < h.next)
    (hrest : rest ≠ []) {h' : EventHeap} (hwalk : walkAndSet true value rest a h = h')
    (hsame : ∀ path, look h' path (.dict a) = look h path (.dict a)) :
    (∀ path, look h (keySteps rest ++ path) (.dict a) = look h' path value) ∨
      ((∃ keys, look h (keySteps rest) (.dict a) = some (.dict keys)) ∧
        isDictRef value = false) := by
  induction rest generalizing a with
  | nil => exact absurd rfl hrest
  | cons part rest ih =>
    cases rest with
    | nil =>
      rw [walkAndSet, Bool.true_and] at hwalk
      split at hwalk
      case isTrue hkept =>
        rw [Bool.and_eq_true, Bool.not_eq_true'] at hkept
        refine .inr ⟨?_, hkept.2⟩
        obtain ⟨b, hb⟩ := exists_dict_of_any hkept.1
        exact ⟨_, look_of_reach (Option.bind_eq_some_iff.mpr ⟨_, hb, rfl⟩)⟩
      case isFalse =>
        refine .inl fun path => ?_
        have hchild : child h' (.dict a) (.key part) = some value := by
          rw [← hwalk]
          exact child_put_same h a part value
        rw [← look_cons_of hchild, hsame]
        rfl
    | cons key rest =>
      rw [walkAndSet_cons (cons_ne_nil _ _)] at hwalk
      split at hwalk
      case h_1 b hb =>
        have hchild : child h (.dict a) (.key part) = some (.dict b) := hb
        have hreach : reach h [.key part] (.dict a) = some (.dict b) := reach_cons_of hb []
        have hlt : b < h.next := (Below.dict ha).address_lt hclosed hreach
        -- the walk does not come back, so it leaves the dictionary that it started from
        have hcells : h'.cells a = h.cells a := by
          rw [← hwalk]
          refine cells_walkAndSet hclosed hlt ha fun path _ _ hpath => ?_
          have hback := (reach_cons_of hb (keySteps path)).trans hpath
          exact absurd (htree _ [] a a.zero_le hback rfl) (cons_ne_nil _ _)
        have hchild' : child h' (.dict a) (.key part) = some (.dict b) := by
          rw [child, hcells]
          exact hb
        have hsame' : ∀ path, look h' path (.dict b) = look h path (.dict b) := by
          intro path
          rw [← look_cons_of hchild', hsame, look_cons_of hchild]
        refine (ih (htree.of_reach hreach) hlt (cons_ne_nil _ _) hwalk hsame').imp
          (fun hvalue path => ?_) ?_
        · rw [← hvalue]
          exact look_cons_of hchild _
        · rintro ⟨⟨keys, hkeys⟩, hplain⟩
          exact ⟨⟨keys, (look_cons_of hchild _).trans hkeys⟩, hplain⟩
      case h_2 hmissing =>
        have hcells : h'.cells a = (putNew h a part).cells a := by
          rw [← hwalk]
          exact cells_walkAndSet (closed_putNew hclosed a part) (Nat.lt_succ_self h.next)
            (ha.trans (Nat.lt_succ_self _)) fun path _ _ hpath =>
              Nat.ne_of_lt ha (Ref.dict.inj (reach_putNew ha hpath).2)
        have hchild : child h' (.dict a) (.key part) = some (.dict h.next) := by
          rw [child, hcells]
          exact lookup_putNew h a part
        have hlook := (hsame [.key part]).symm.trans (look_cons_of hchild [])
        obtain ⟨b, hb⟩ := exists_reach_of_look hlook
        exact absurd (lookup_of_reach hb) (hmissing b)

theorem Merged.changed (hM : Merged h₀ e done (x :: todo) h) (hnot : ¬ Agrees h₀ done x) :
    ¬ ∀ path, look (walkAndSet true x.ref x.path h₀.next h) path (.dict e) =
      look h₀ path (.dict e) := by
  intro hsame
  refine hnot fun y hlive hdict rest hrest hpath => ?_
  have hy := hM.live y hlive hdict
  have hymem : y ∈ done ++ x :: todo := mem_append_left _ hlive.mem
  have hxmem : x ∈ done ++ x :: todo := mem_append_right _ mem_cons_self
  have hchild := hM.child_event hymem
  obtain ⟨b, hb⟩ := exists_address hdict
  rw [hb] at hy hchild
  have hwalk : walkAndSet true x.ref x.path h₀.next h = walkAndSet true x.ref rest b h := by
    rw [hpath]
    exact walkAndSet_append hy hrest
  rw [hwalk] at hsame
  have hroot : Below h.next (.dict h₀.next : ObjRef) := .dict hM.next_lt
  have hblt : b < h.next := hroot.address_lt hM.closed hy
  have hbelow : ∀ path r, reach h path (.dict b) = some r →
      reach h (keySteps y.path ++ path) (.dict h₀.next) = some r :=
    fun path r hr => (reach_append_of hy path).trans hr
  have htree : Tree 0 h (.dict b) := hM.forest.tree.of_reach hy
  have hcells : (walkAndSet true x.ref rest b h).cells e = h.cells e :=
    cells_walkAndSet hM.closed hblt (hM.event_lt.trans hM.next_lt) fun path _ _ hpath =>
      hM.event_apart _ (hbelow _ _ hpath)
  -- so the dictionary reads the same, which is where the value was written
  have hunchanged : ∀ path, look (walkAndSet true x.ref rest b h) path (.dict b) =
      look h path (.dict b) := by
    intro path
    have hchild' : child (walkAndSet true x.ref rest b h) (.dict e) (.key y.key) = some (.dict b) := by
      rw [child, hcells]
      exact hchild
    rw [← look_cons_of hchild', hsame, ← hM.reads, look_cons_of hchild]
  have hvalue : ∀ path, look (walkAndSet true x.ref rest b h) path x.ref = look h path x.ref := by
    refine look_of_same fun path c hpath => ?_
    have hold : c < h.next := ((hM.old x hxmem).mono hM.next_lt.le).address_lt hM.closed hpath
    refine cells_walkAndSet hM.closed hblt hold fun inner _ _ hinner => ?_
    exact (hM.forest.each _ mem_cons_self).2 _ _ c c.zero_le (hbelow _ _ hinner) hpath
  have hyref : ∀ path, look h₀ path y.ref = look h path (.dict b) := by
    intro path
    rw [← hM.look_ref hymem, hb]
  refine (keeps_of_unchanged htree hM.closed hblt hrest rfl hunchanged).imp (fun hthere path => ?_) ?_
  · rw [hyref, hthere, hvalue, hM.look_ref hxmem]
  · rintro ⟨⟨keys, hkeys⟩, hplain⟩
    exact ⟨⟨keys, (hyref _).trans hkeys⟩, hplain⟩

/-! ## §6 All keys -/

def Unchanged (h₀ : EventHeap) (e : ℕ) (h : EventHeap) : Prop :=
  ∀ path, look h path (.dict e) = look h₀ path (.dict e)

def mergeEntries (result : ℕ) (run : Run) (entries : List Entry) : Run :=
  entries.foldl (fun run x => mergeKeyAt result run (x.key, x.ref)) run

theorem moments_mergeEntries {result : ℕ} {run : Run} (entries : List Entry) {m : EventHeap}
    (hm : m ∈ run.moments) : m ∈ (mergeEntries result run entries).moments := by
  induction entries generalizing run with
  | nil => exact hm
  | cons x entries ih =>
    refine ih ?_
    obtain ⟨key | key, ref⟩ := x <;> exact mem_append_left _ hm

theorem Merged.step (hagrees : Agrees h₀ done x) (hM : Merged h₀ e done (x :: todo) h) :
    Merged h₀ e (done ++ [x]) todo (walkAndSet true x.ref x.path h₀.next h) := by
  by_cases hpath : x.path = []
  · rw [hpath, walkAndSet]
    exact hM.skip (.inr hpath)
  · have hplace : reach h (keySteps []) (.dict h₀.next) = some (.dict h₀.next) := rfl
    exact hM.walk hagrees hplace hpath rfl

def Entry.item (read : Entry → Val) (x : Entry) : Key × Val := (x.key, read x)

variable {read : Entry → Val} {run : Run}

theorem lookup_expandDottedKeys_int {i : ℤ} {items : Items} (hkey : .int i ∉ items.map (·.1)) :
    (expandDottedKeys items).lookup (.int i) = none := by
  have hnone := shape_int_eq_none hkey []
  rw [shape_dict] at hnone
  cases hlookup : (expandDottedKeys items).lookup (.int i) with
  | none => rfl
  | some v =>
    rw [hlookup] at hnone
    cases hnone

theorem mergeKey_eq_walk {items : Items} (read : Entry → Val) (hkey : x.key ∉ items.map (·.1))
    (hreads : Reads run.heap (.dict a) (.dict (expandDottedKeys items))) :
    mergeKeyAt a run (x.key, x.ref) = run.goOn (walkAndSet true x.ref x.path a run.heap) ∧
      mergeKey (expandDottedKeys items) (x.item read) =
        writeAt true (read x) x.path (expandDottedKeys items) := by
  obtain ⟨key | i, ref⟩ := x
  · exact ⟨rfl, rfl⟩
  · have hnone := lookup_expandDottedKeys_int hkey
    have hany := any_isDictRef_of_reads hreads (.int i)
    rw [hnone] at hany
    refine ⟨?_, ?_⟩
    · rw [Entry.path, pathOf, walkAndSet, hany]
      rfl
    · rw [Entry.path, pathOf, writeAt_singleton, hnone]
      rfl

/-- The event reads the same all the time exactly when every entry agrees with those before it, and
then the flattened event reads as it should. -/
theorem Merged.unchanged_iff (hM : Merged h₀ e done todo run.heap)
    (hbefore : ∀ m ∈ run.moments, Unchanged h₀ e m)
    (hread : ∀ x ∈ done ++ todo, Reads h₀ x.ref (read x))
    (hnodup : ((done ++ todo).map (·.key)).Nodup)
    (hreads : Reads run.heap (.dict h₀.next) (.dict (expandDottedKeys (done.map (·.item read))))) :
    ((∀ m ∈ (mergeEntries h₀.next run todo).moments, Unchanged h₀ e m) ↔ EachAfter (Agrees h₀) done todo) ∧
      (EachAfter (Agrees h₀) done todo →
        Merged h₀ e (done ++ todo) [] (mergeEntries h₀.next run todo).heap ∧
          Reads (mergeEntries h₀.next run todo).heap (.dict h₀.next)
            (.dict (expandDottedKeys ((done ++ todo).map (·.item read))))) := by
  induction todo generalizing done run with
  | nil =>
    rw [append_nil]
    exact ⟨iff_of_true hbefore (eachAfter_nil _ _), fun _ => ⟨hM, hreads⟩⟩
  | cons x todo ih =>
    have hkey : x.key ∉ (done.map (·.item read)).map (·.1) := by
      rw [map_append, map_cons] at hnodup
      rw [map_map]
      exact fun hmem => (nodup_append.mp hnodup).2.2 _ hmem _ mem_cons_self rfl
    obtain ⟨hmerge, hpure⟩ := mergeKey_eq_walk read hkey hreads
    have hcons : mergeEntries h₀.next run (x :: todo) =
        mergeEntries h₀.next (run.goOn (walkAndSet true x.ref x.path h₀.next run.heap)) todo := by
      rw [← hmerge]
      rfl
    have hx : x ∈ done ++ x :: todo := mem_append_right _ mem_cons_self
    have hlist : done ++ [x] ++ todo = done ++ x :: todo := by simp
    rw [hcons, eachAfter_cons_iff]
    by_cases hagrees : Agrees h₀ done x
    · have hnext : Merged h₀ e (done ++ [x]) todo
          (run.goOn (walkAndSet true x.ref x.path h₀.next run.heap)).heap := hM.step hagrees
      have hmoments : ∀ m ∈ (run.goOn (walkAndSet true x.ref x.path h₀.next run.heap)).moments,
          Unchanged h₀ e m := by
        intro m hm
        rcases mem_append.mp hm with hm | hm
        · exact hbefore m hm
        · rw [mem_singleton.mp hm]
          exact hnext.reads
      have hwalked : Reads (walkAndSet true x.ref x.path h₀.next run.heap) (.dict h₀.next)
          (.dict (expandDottedKeys ((done ++ [x]).map (·.item read)))) := by
        rw [map_append, map_singleton, expandDottedKeys_concat, hpure]
        refine reads_walkAndSet hM.closed hM.next_lt (Nat.zero_le _) hM.forest.tree
          (fun _ _ _ _ _ => Nat.zero_le _) ((hM.old x hx).mono hM.next_lt.le)
          (hM.forest.each _ mem_cons_self).2 hreads fun path => ?_
        rw [hM.look_ref hx]
        exact hread x hx path
      obtain ⟨hiff, hmerged⟩ := ih hnext hmoments (hlist ▸ hread)
        (hlist ▸ hnodup) hwalked
      refine ⟨hiff.trans (and_iff_right hagrees).symm, fun hall => ?_⟩
      have hfinal := hmerged hall.2
      rwa [hlist] at hfinal
    · refine ⟨iff_of_false (fun hall => ?_) fun hall => hagrees hall.1,
        fun hall => absurd hall.1 hagrees⟩
      refine hM.changed hagrees (hall _ (moments_mergeEntries todo ?_))
      exact mem_append_right _ (mem_singleton_self _)

end Ace3.Query
