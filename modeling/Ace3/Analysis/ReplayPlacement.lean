import Ace3.Analysis.ObservableChange
import Ace3.Lib.Interning
import Mathlib.Algebra.GroupWithZero.Nat

/-!
# Where a Replay Puts New Observables

The new observables of a delta are requests to the observable registry: an analysis asks for the
observable with a key. What the first half of a replay leaves behind is told by the shelf that the
requests lead to.
-/

namespace Ace3.Analysis

open List Function
open Lib

/-! ## §1 What is added to a root -/

def Observable.addChildren (modulePath : AnalysisPath) (children : List NodeUuid)
    (o : Observable) : Observable :=
  { o with
    analysis := o.analysis.map fun slot =>
      if slot.1 = modulePath then
        (slot.1, slot.2.map fun a => { a with observables := a.observables ++ children })
      else slot }

namespace RootAnalysis

variable {root : RootAnalysis} {parent : Parent} {uuid : NodeUuid} {o : Observable}
  {news : List Observable} {children children' : List NodeUuid}

/-- A root without the number of uuids that were drawn for it. -/
def tree (root : RootAnalysis) : RootAnalysis :=
  { root with draws := 0 }

def addChildren (root : RootAnalysis) (parent : Parent) (children : List NodeUuid) :
    RootAnalysis :=
  match parent with
  | .root => { root with children := root.children ++ children }
  | .analysis uuid modulePath => root.modify uuid (·.addChildren modulePath children)

def take (root : RootAnalysis) (parent : Parent) (news : List Observable)
    (children : List NodeUuid) : RootAnalysis :=
  { root with observables := root.observables ++ news }.addChildren parent children

def HasParent (root : RootAnalysis) : Parent → Prop
  | .root => True
  | .analysis uuid modulePath =>
    ∃ a, (root.getObservable uuid).bind (·.analysis.lookup modulePath) = some (some a)

def HasChildren (root : RootAnalysis) (parent : Parent) : Prop :=
  ∀ uuid ∈ root.childrenOf parent, root.Has uuid

theorem addChild_eq (child : NodeUuid) :
    root.addChild parent child = root.addChildren parent [child] := by
  cases parent <;> rfl

theorem modify_id {f : Observable → Observable} (h : ∀ o, f o = o) : root.modify uuid f = root := by
  simp [modify, h]

theorem modify_modify {f g : Observable → Observable} (hf : ∀ o, (f o).uuid = o.uuid) :
    (root.modify uuid f).modify uuid g = root.modify uuid (g ∘ f) := by
  simp only [modify, map_map, RootAnalysis.mk.injEq, true_and, and_true]
  apply map_congr_left
  intro o _
  by_cases huuid : o.uuid = uuid <;> simp [huuid, hf]

@[simp]
theorem addChildren_nil : root.addChildren parent [] = root := by
  cases parent with
  | root => simp [addChildren]
  | analysis uuid modulePath =>
    apply modify_id
    intro o
    have hslot (slot : AnalysisPath × Option AnalysisObject) :
        (if slot.1 = modulePath then
          (slot.1, slot.2.map fun a => { a with observables := a.observables ++ [] })
        else slot) = slot := by
      simp
    simp only [Observable.addChildren, hslot, map_id']

theorem addChildren_addChildren :
    (root.addChildren parent children).addChildren parent children' =
      root.addChildren parent (children ++ children') := by
  cases parent with
  | root => simp [addChildren]
  | analysis uuid modulePath =>
    simp only [addChildren]
    rw [modify_modify (f := Observable.addChildren modulePath children) fun _ => rfl]
    congr 1
    funext o
    simp only [comp_apply, Observable.addChildren, map_map]
    congr 1
    apply map_congr_left
    rintro ⟨path, slot⟩ _
    by_cases hpath : path = modulePath
    · simp [hpath, comp_def]
    · simp [hpath]

theorem take_nil : root.take parent [] children = root.addChildren parent children := by
  simp [take]

theorem take_take {news' : List Observable}
    (h : ∀ o ∈ news', ∀ modulePath, parent ≠ .analysis o.uuid modulePath) :
    (root.take parent news children).take parent news' children' =
      root.take parent (news ++ news') (children ++ children') := by
  unfold take
  rw [← addChildren_addChildren]
  congr 1
  cases parent with
  | root => simp [addChildren]
  | analysis uuid modulePath =>
    simp only [addChildren, modify, map_append, append_assoc, RootAnalysis.mk.injEq,
      true_and, and_true, append_cancel_left_eq]
    have hkeep : ∀ o ∈ news',
        (if o.uuid = uuid then o.addChildren modulePath children else o) = id o := by
      intro o ho
      apply if_neg
      rintro rfl
      exact h o ho modulePath rfl
    rw [map_congr_left hkeep, map_id]

@[simp]
theorem identities_addChildren :
    (root.addChildren parent children).identities = root.identities := by
  cases parent with
  | root => rfl
  | analysis uuid modulePath => exact identities_modify fun _ => rfl

theorem identities_take :
    (root.take parent news children).identities =
      root.identities ++ news.map (·.toObservableIdentity) := by
  rw [take, identities_addChildren]
  simp [identities]

theorem getObservable_modify {f : Observable → Observable} (hf : ∀ o, (f o).uuid = o.uuid) :
    (root.modify uuid f).getObservable uuid = (root.getObservable uuid).map f := by
  have huuid (o : Observable) : ((if o.uuid = uuid then f o else o).uuid = uuid) ↔ o.uuid = uuid := by
    split
    · rw [hf]
    · rfl
  simp only [getObservable, modify, List.find?_map, comp_def, huuid]
  cases hfind : root.observables.find? fun o => o.uuid = uuid with
  | none => rfl
  | some o =>
    have ho : o.uuid = uuid := by simpa using List.find?_some hfind
    simp [ho]

theorem getObservable_append (h : root.getObservable uuid = some o) (news : List Observable) :
    { root with observables := root.observables ++ news }.getObservable uuid = some o := by
  unfold getObservable at h ⊢
  rw [List.find?_append, h]
  rfl

theorem lookup_map_slot {α β : Type*} [DecidableEq α] (f : β → β) (key : α)
    (slots : List (α × β)) :
    (slots.map fun slot => if slot.1 = key then (slot.1, f slot.2) else slot).lookup key =
      (slots.lookup key).map f := by
  induction slots with
  | nil => rfl
  | cons slot slots ih =>
    obtain ⟨key', value⟩ := slot
    by_cases hkey : key' = key
    · simp [hkey]
    · have hne : (key == key') = false := beq_false_of_ne (Ne.symm hkey)
      simp only [map_cons, hkey, if_false, lookup_cons, hne]
      exact ih

theorem lookup_map_slot_other {α β : Type*} [DecidableEq α] (f : β → β) {key key' : α}
    (hkey : key' ≠ key) (slots : List (α × β)) :
    (slots.map fun slot => if slot.1 = key then (slot.1, f slot.2) else slot).lookup key' =
      slots.lookup key' := by
  induction slots with
  | nil => rfl
  | cons slot slots ih =>
    obtain ⟨first, value⟩ := slot
    by_cases hfirst : first = key
    · have hne : (key' == first) = false := beq_false_of_ne (hfirst ▸ hkey)
      simp only [map_cons, if_pos hfirst, lookup_cons, hne]
      exact ih
    · simp only [map_cons, if_neg hfirst, lookup_cons, ih]

theorem childrenOf_addChildren (h : root.HasParent parent) :
    (root.addChildren parent children).childrenOf parent = root.childrenOf parent ++ children := by
  cases parent with
  | root => rfl
  | analysis uuid modulePath =>
    obtain ⟨a, ha⟩ := h
    obtain ⟨o, ho, hslot⟩ := Option.bind_eq_some_iff.mp ha
    simp only [childrenOf, addChildren]
    rw [getObservable_modify (f := Observable.addChildren modulePath children) fun _ => rfl, ho,
      Option.map_some, Option.bind_some,
      Option.bind_some, Observable.addChildren, lookup_map_slot, hslot]
    rfl

theorem HasParent.append (h : root.HasParent parent) (news : List Observable) :
    { root with observables := root.observables ++ news }.HasParent parent ∧
      { root with observables := root.observables ++ news }.childrenOf parent =
        root.childrenOf parent := by
  cases parent with
  | root => exact ⟨trivial, rfl⟩
  | analysis uuid modulePath =>
    obtain ⟨a, ha⟩ := h
    obtain ⟨o, ho, hslot⟩ := Option.bind_eq_some_iff.mp ha
    have hagain := getObservable_append ho news
    refine ⟨⟨a, ?_⟩, ?_⟩
    · rw [hagain, Option.bind_some, hslot]
    · simp only [childrenOf, hagain, ho]

theorem HasParent.addChildren (h : root.HasParent parent) :
    (root.addChildren parent children).HasParent parent := by
  cases parent with
  | root => trivial
  | analysis uuid modulePath =>
    obtain ⟨a, ha⟩ := h
    obtain ⟨o, ho, hslot⟩ := Option.bind_eq_some_iff.mp ha
    refine ⟨{ a with observables := a.observables ++ children }, ?_⟩
    rw [RootAnalysis.addChildren,
      getObservable_modify (f := Observable.addChildren modulePath children) fun _ => rfl, ho,
      Option.map_some, Option.bind_some, Observable.addChildren, lookup_map_slot, hslot]
    rfl

theorem HasParent.has {modulePath : AnalysisPath} (h : root.HasParent (.analysis uuid modulePath)) :
    root.Has uuid := by
  obtain ⟨a, ha⟩ := h
  obtain ⟨o, ho, -⟩ := Option.bind_eq_some_iff.mp ha
  exact has_of_getObservable ho

theorem HasParent.take (h : root.HasParent parent) :
    (root.take parent news children).HasParent parent :=
  (h.append _).1.addChildren

theorem childrenOf_take (h : root.HasParent parent) :
    (root.take parent news children).childrenOf parent = root.childrenOf parent ++ children := by
  obtain ⟨hthere, hchildren⟩ := h.append news
  rw [RootAnalysis.take, childrenOf_addChildren hthere, hchildren]

end RootAnalysis

/-! ## §2 The shelf of a root -/

def room (rt : Runtime) : Room RecordKey := fun keys key =>
  !(rt.observableLimits key.type).any (· ≤ (keys.filter (·.type = key.type)).length)

theorem room_closing (rt : Runtime) : (room rt).Closing := by
  intro keys more key
  unfold room
  cases rt.observableLimits key.type with
  | none => exact fun _ => rfl
  | some limit =>
    simp only [Option.any_some, Bool.not_eq_true', decide_eq_false_iff_not, filter_append,
      length_append]
    omega

def ObservableIdentity.entry (rt : Runtime) (i : ObservableIdentity) : NodeUuid × RecordKey :=
  (i.uuid, i.key rt)

namespace RootAnalysis

variable {rt : Runtime} {root : RootAnalysis} {parent : Parent} {uuid : NodeUuid} {o : Observable}
  {news : List Observable} {children : List NodeUuid}

def shelf (rt : Runtime) (root : RootAnalysis) (parent : Parent) : Shelf NodeUuid RecordKey where
  entries := root.identities.map (·.entry rt)
  taken := root.childrenOf parent

theorem keys_shelf : (root.shelf rt parent).keys = root.keys rt := by
  simp only [Shelf.keys, shelf, map_map]
  rfl

theorem uuids_shelf :
    (root.shelf rt parent).entries.map (·.1) = root.identities.map (·.uuid) := by
  simp only [shelf, map_map]
  rfl

theorem Sound.tidy_shelf (hroot : root.Sound) (rt : Runtime) (hchildren : root.HasChildren parent) :
    (root.shelf rt parent).Tidy := by
  refine ⟨?_, ?_⟩
  · rw [uuids_shelf]
    exact hroot.distinct
  · intro uuid huuid
    rw [uuids_shelf]
    obtain ⟨i, hi, rfl⟩ := hchildren uuid huuid
    exact mem_map_of_mem hi

theorem shelf_take (hparent : root.HasParent parent) :
    (root.take parent news children).shelf rt parent =
      ⟨(root.shelf rt parent).entries ++ news.map (·.entry rt),
        (root.shelf rt parent).taken ++ children⟩ := by
  simp only [shelf, identities_take, childrenOf_take hparent, map_append, map_map]
  rfl

theorem find_key (key : RecordKey) :
    (root.observables.find? fun o => o.key rt = key).map (·.uuid) =
      (root.shelf rt parent).holder key := by
  simp only [Shelf.holder, shelf, identities, map_map, List.find?_map, Option.map_map]
  rfl

theorem Sound.find_eq (hroot : root.Sound) (rt : Runtime) {i : ObservableIdentity}
    (hi : Recordable root i) :
    (root.observables.find? fun o => o.eq rt i) =
      root.observables.find? fun o => o.key rt = i.key rt := by
  apply List.find?_congr
  intro o ho
  have hiff := hroot.eq_iff_key_of_recordable rt (mem_map_of_mem ho) hi
  by_cases hkey : o.key rt = i.key rt
  · rw [hiff.mpr hkey, decide_eq_true hkey]
  · rw [decide_eq_false hkey, Bool.eq_false_iff]
    exact fun heq => hkey (hiff.mp heq)

theorem Sound.getExistingObservable_eq (hroot : root.Sound) (rt : Runtime) (parent : Parent)
    {i : ObservableIdentity} (hi : Recordable root i) :
    (root.getExistingObservable rt parent i).map (·.uuid) =
      (root.shelf rt parent).own (i.key rt) := by
  have hchild (uuid : NodeUuid) :
      ((root.getObservable uuid).filter (·.eq rt i)).map (·.uuid) =
        if (uuid, i.key rt) ∈ (root.shelf rt parent).entries then some uuid else none := by
    cases hget : root.getObservable uuid with
    | none =>
      rw [if_neg]
      · rfl
      · intro hmem
        obtain ⟨j, hj, hentry⟩ := mem_map.mp hmem
        obtain ⟨rfl, -⟩ := Prod.mk.inj hentry
        exact getObservable_ne_none_iff.mpr ⟨j, hj, rfl⟩ hget
    | some o =>
      obtain rfl := getObservable_uuid hget
      have hmem := getObservable_mem hget
      have hiff := hroot.eq_iff_key_of_recordable rt hmem hi
      have hentry : (o.uuid, i.key rt) ∈ (root.shelf rt parent).entries ↔ o.key rt = i.key rt := by
        constructor
        · intro h
          obtain ⟨j, hj, hentry⟩ := mem_map.mp h
          obtain ⟨huuid, hkey⟩ := Prod.mk.inj hentry
          rw [← hkey, inj_on_of_nodup_map hroot.distinct hj hmem huuid]
        · intro h
          exact mem_map.mpr ⟨_, hmem, Prod.ext rfl h⟩
      by_cases hkey : o.key rt = i.key rt
      · rw [if_pos (hentry.mpr hkey)]
        simp [hiff.mpr hkey]
      · rw [if_neg (mt hentry.mp hkey)]
        simp [mt hiff.mp hkey]
  rw [getExistingObservable, map_findSome?, Shelf.own]
  simp only [comp_def, hchild]
  rw [← List.findSome?_guard]
  congr 1
  funext uuid
  simp [Option.guard]

end RootAnalysis

/-! ## §3 Adding an observable -/

namespace RootAnalysis

variable {rt : Runtime} {root root' : RootAnalysis} {parent : Parent} {uuid : NodeUuid}
  {o : Observable}

/-- What a request makes of a root: the new observables and children are those that the shelf
gets. -/
structure Takes (rt : Runtime) (root : RootAnalysis) (parent : Parent)
    (shelf' : Shelf NodeUuid RecordKey) (news : List Observable) (children : List NodeUuid) :
    Prop where
  entries : shelf'.entries = (root.shelf rt parent).entries ++ news.map (·.entry rt)
  taken : shelf'.taken = (root.shelf rt parent).taken ++ children

theorem Takes.nothing : Takes rt root parent (root.shelf rt parent) [] [] :=
  ⟨(append_nil _).symm, (append_nil _).symm⟩

theorem Takes.child (uuid : NodeUuid) :
    Takes rt root parent
      { root.shelf rt parent with taken := (root.shelf rt parent).taken ++ [uuid] } [] [uuid] :=
  ⟨(append_nil _).symm, rfl⟩

def Answers (rt : Runtime) (root : RootAnalysis) (parent : Parent)
    (request : Option (RecordKey × NodeUuid)) (result : RootAnalysis × Option Observable) : Prop :=
  ∃ news children, result.1 = root.take parent news children ∧
    result.2.map (·.uuid) = ((root.shelf rt parent).ask (room rt) request).2 ∧
      Takes rt root parent ((root.shelf rt parent).ask (room rt) request).1 news children

theorem Answers.refused {request : Option (RecordKey × NodeUuid)}
    (h : (root.shelf rt parent).ask (room rt) request = (root.shelf rt parent, none)) :
    Answers rt root parent request (root, none) := by
  refine ⟨[], [], ?_, ?_, ?_⟩
  · rw [take_nil, addChildren_nil]
  · rw [h, Option.map_none]
  · rw [h]
    exact .nothing

theorem Sound.record_eq (hroot : root.Sound) (rt : Runtime) (parent : Parent)
    (ho : Recordable root o.toObservableIdentity) (hblank : ¬ isBlank o.value) :
    match (root.shelf rt parent).holder (o.key rt) with
    | some i => ∃ e, root.record rt o = (root, some e) ∧ e.uuid = i ∧
        e.toObservableIdentity ∈ root.identities ∧ e.key rt = o.key rt
    | none =>
      root.record rt o =
        if room rt (root.keys rt) (o.key rt) then
          ({ root with observables := root.observables ++ [o] }, some o)
        else (root, none) := by
  rw [← find_key]
  simp only [RootAnalysis.record, hblank, Bool.false_eq_true, if_false, hroot.find_eq rt ho]
  cases hfind : root.observables.find? fun e => e.key rt = o.key rt with
  | some e =>
    have hmem := List.mem_of_find?_eq_some hfind
    have hkey : e.key rt = o.key rt := by simpa using List.find?_some hfind
    exact ⟨e, rfl, rfl, mem_map_of_mem hmem, hkey⟩
  | none =>
    simp only [Option.map_none, getByType_length rt, room, key_type]
    cases (rt.observableLimits o.type).any
      (· ≤ ((root.keys rt).filter (·.type = o.type)).length) <;> rfl

theorem Sound.addObservable_eq (hroot : root.Sound) (rt : Runtime) (parent : Parent)
    (ho : Recordable root o.toObservableIdentity) (hblank : ¬ isBlank o.value) :
    Answers rt root parent (some (o.key rt, o.uuid)) (root.addObservable rt parent o) := by
  have hown := hroot.getExistingObservable_eq rt parent ho
  have hrecord := hroot.record_eq rt parent ho hblank
  unfold Answers Shelf.ask RootAnalysis.addObservable Shelf.place
  dsimp only
  rw [← hown]
  cases hexisting : root.getExistingObservable rt parent o.toObservableIdentity with
  | some e =>
    refine ⟨[], [], ?_, rfl, .nothing⟩
    rw [take_nil, addChildren_nil]
  | none =>
    simp only [Option.map_none]
    cases hholder : (root.shelf rt parent).holder (o.key rt) with
    | some i =>
      rw [hholder] at hrecord
      obtain ⟨e, hrecord, rfl, -, -⟩ := hrecord
      simp only [hrecord]
      refine ⟨[], [e.uuid], ?_, rfl, .child e.uuid⟩
      rw [take_nil, addChild_eq]
    | none =>
      rw [hholder] at hrecord
      simp only [hrecord, keys_shelf]
      by_cases hroom : room rt (root.keys rt) (o.key rt)
      · simp only [if_pos hroom]
        exact ⟨[o], [o.uuid], addChild_eq _, rfl, rfl, rfl⟩
      · simp only [if_neg hroom]
        refine ⟨[], [], ?_, rfl, .nothing⟩
        rw [take_nil, addChildren_nil]

theorem Sound.addObservable_blank (hroot : root.Sound) (rt : Runtime) (parent : Parent)
    (ho : Recordable root o.toObservableIdentity) (hblank : isBlank o.value)
    (hfile : o.type = fFile) : root.addObservable rt parent o = (root, none) := by
  have hrecords := hroot.addObservable rt parent ho fun _ => hfile
  have hnone : (root.addObservable rt parent o).2 = none := by
    have hadmits := hrecords.admits
    rw [recordKey, if_pos hblank] at hadmits
    exact Option.map_eq_none_iff.mp hadmits
  unfold RootAnalysis.addObservable at hnone ⊢
  split at hnone
  · cases hnone
  next hexisting =>
    simp only [RootAnalysis.record, hblank, if_true]

theorem Sound.recordAndAdd_eq (hroot : root.Sound) (rt : Runtime) (hparent : root.HasParent parent)
    (hchildren : root.HasChildren parent) (hnumber : o.uuid.root = root.number)
    (hdraw : o.uuid.draw < root.draws) (hnew : ¬ root.Has o.uuid) (hblank : ¬ isBlank o.value) :
    Answers rt root parent (some (o.key rt, o.uuid))
      (match root.record rt o with
        | (root, none) => (root, none)
        | (root, some e) => root.addObservable rt parent e) := by
  have hrecord := hroot.record_eq rt parent (.inr ⟨hnumber, hdraw, hnew⟩) hblank
  cases hholder : (root.shelf rt parent).holder (o.key rt) with
  | some i =>
    -- the one that the registry has is added
    rw [hholder] at hrecord
    obtain ⟨e, hrecord, rfl, hmem, hkey⟩ := hrecord
    have hadd := hroot.addObservable_eq rt parent (.inl hmem) (hroot.notBlank _ hmem)
    simp only [hrecord]
    rw [hkey] at hadd
    unfold Answers Shelf.ask at hadd ⊢
    dsimp only at hadd ⊢
    rwa [Shelf.place_of_holder hholder _ o.uuid] at hadd
  | none =>
    rw [hholder] at hrecord
    by_cases hroom : room rt (root.keys rt) (o.key rt)
    · -- the new one is in the registry when it is added
      rw [if_pos hroom] at hrecord
      have hgrows := hroot.grows_append hnumber hdraw hnew hblank
      have hmem : o.toObservableIdentity ∈
          ({ root with observables := root.observables ++ [o] } : RootAnalysis).identities := by
        simp [identities]
      obtain ⟨news, children, htake, hplaced, htakes⟩ :=
        hgrows.sound.addObservable_eq rt parent (.inl hmem) hblank
      have hshelf : ({ root with observables := root.observables ++ [o] } : RootAnalysis).shelf rt
          parent = ⟨(root.shelf rt parent).entries ++ [(o.uuid, o.key rt)],
            (root.shelf rt parent).taken⟩ := by
        simp only [shelf, (hparent.append _).2]
        simp [identities, ObservableIdentity.entry]
      have hfresh : (root.shelf rt parent).Fresh o.uuid := by
        intro hmem
        rw [uuids_shelf] at hmem
        obtain ⟨i, hi, huuid⟩ := mem_map.mp hmem
        exact hnew ⟨i, hi, huuid⟩
      have hplace := Shelf.place_admitted (hroot.tidy_shelf rt hchildren) hholder
        (keys_shelf ▸ hroom) hfresh o.uuid
      rw [← hshelf] at hplace
      simp only [Shelf.ask, hplace] at hplaced htakes
      simp only [hrecord]
      refine ⟨o :: news, children, ?_, hplaced, ?_, ?_⟩
      · rw [htake]
        simp only [take, append_assoc, singleton_append]
      · refine htakes.entries.trans ?_
        rw [hshelf, append_assoc, singleton_append]
        rfl
      · refine htakes.taken.trans ?_
        rw [hshelf]
    · rw [if_neg hroom] at hrecord
      simp only [hrecord]
      apply Answers.refused
      simp only [Shelf.ask, Shelf.place, Shelf.own_eq_none hholder, hholder, keys_shelf,
        if_neg hroom]

end RootAnalysis

/-! ## §4 Adding new observables -/

namespace ObservableSpec

/-- The file of the spec can be stored; anything else needs no file. -/
def Storable (rt : Runtime) (spec : ObservableSpec) : Prop :=
  spec.type = fFile → (rt.storeFile spec.value spec.filePath).isSome

instance (rt : Runtime) : DecidablePred (Storable rt) := fun spec =>
  inferInstanceAs (Decidable (spec.type = fFile → _))

def draws (rt : Runtime) (spec : ObservableSpec) : Nat :=
  if spec.type = fFile ∨ (rt.construct spec.type spec.value).isSome then 1 else 0

/-- What the spec asks the registry for, where a new observable would get this uuid. -/
def request (rt : Runtime) (spec : ObservableSpec) (uuid : NodeUuid) :
    Option (RecordKey × NodeUuid) :=
  (spec.key rt).map (·, uuid)

def marks (rt : Runtime) (spec : ObservableSpec) (placed : Option NodeUuid) :
    List (NodeUuid × Change) :=
  placed.toList.map (·, spec.change rt)

end ObservableSpec

namespace RootAnalysis

variable {rt : Runtime} {root : RootAnalysis} {parent : Parent} {spec : ObservableSpec}

def draw (root : RootAnalysis) (count : Nat) : RootAnalysis :=
  { root with draws := root.draws + count }

theorem Sound.grows_draws (hroot : root.Sound) (count : Nat) : Grows root (root.draw count) :=
  hroot.grows rfl (Nat.le_add_right _ _) rfl

theorem Sound.added_eq (hroot : root.Sound) (hparent : root.HasParent parent)
    (hchildren : root.HasChildren parent) (hstore : spec.Storable rt) :
    ∃ result,
      (if spec.type = fFile then
        root.addFileObservable rt parent spec.value spec.filePath spec.volatile
      else
        some (root.addObservableBySpec rt parent spec.type spec.value (parseTime rt spec.time)
          spec.volatile)) = some result ∧
      Answers rt (root.draw (spec.draws rt)) parent (spec.request rt root.nextUuid) result := by
  by_cases hfile : spec.type = fFile
  · obtain ⟨⟨sha256, path⟩, hstored⟩ := Option.isSome_iff_exists.mp (hstore hfile)
    have hdraws : spec.draws rt = 1 := if_pos (.inl hfile)
    rw [if_pos hfile, hdraws, RootAnalysis.addFileObservable, hstored]
    refine ⟨_, rfl, ?_⟩
    have hdraw := (hroot.grows_draws 1).sound
    have ho : Recordable (root.draw 1) ⟨root.nextUuid, fFile, sha256, none, some path⟩ :=
      hroot.recordable_next rfl
    have hkey : spec.key rt =
        if isBlank sha256 then none else some ⟨fFile, none, sha256, some path⟩ := by
      simp [ObservableSpec.key, hfile, hstored]
    by_cases hblank : isBlank sha256
    · rw [if_pos hblank] at hkey
      have hadd := hdraw.addObservable_blank rt parent
        (o := .new ⟨root.nextUuid, fFile, sha256, none, some path⟩ spec.volatile) ho hblank rfl
      rw [ObservableSpec.request, hkey, Option.map_none]
      exact hadd ▸ Answers.refused rfl
    · rw [if_neg hblank] at hkey
      have hadd := hdraw.addObservable_eq rt parent
        (o := .new ⟨root.nextUuid, fFile, sha256, none, some path⟩ spec.volatile) ho hblank
      rw [ObservableSpec.request, hkey, Option.map_some]
      exact hadd
  · rw [if_neg hfile]
    refine ⟨_, rfl, ?_⟩
    unfold RootAnalysis.addObservableBySpec recordBySpec
    have hkey : spec.key rt = (rt.construct spec.type spec.value).bind fun value =>
        if isBlank value then none
        else some ⟨spec.type, parseTime rt spec.time, rt.compareKey spec.type value, none⟩ :=
      if_neg hfile
    cases hconstruct : rt.construct spec.type spec.value with
    | none =>
      have hdraws : spec.draws rt = 0 := if_neg (by simp [hfile, hconstruct])
      rw [hdraws, ObservableSpec.request, hkey, hconstruct]
      exact Answers.refused rfl
    | some value =>
      have hdraws : spec.draws rt = 1 := if_pos (.inr (by rw [hconstruct]; rfl))
      rw [hdraws, ObservableSpec.request, hkey, hconstruct, Option.bind_some]
      dsimp only
      by_cases hblank : isBlank value
      · have hrecord : (root.draw 1).record rt
            (.new ⟨root.nextUuid, spec.type, value, parseTime rt spec.time, none⟩ spec.volatile) =
              (root.draw 1, none) := if_pos hblank
        rw [if_pos hblank, Option.map_none]
        unfold draw at hrecord ⊢
        rw [hrecord]
        exact Answers.refused rfl
      · have hparent : (root.draw 1).HasParent parent := hparent
        have hadd := (hroot.grows_draws 1).sound.recordAndAdd_eq rt
          (o := .new ⟨root.nextUuid, spec.type, value, parseTime rt spec.time, none⟩ spec.volatile)
          hparent hchildren rfl (Nat.lt_succ_self _) hroot.not_has_nextUuid hblank
        rw [if_neg hblank, Option.map_some]
        rw [show (Observable.new ⟨root.nextUuid, spec.type, value, parseTime rt spec.time, none⟩
          spec.volatile).key rt =
            ⟨spec.type, parseTime rt spec.time, rt.compareKey spec.type value, none⟩ from
              if_neg hfile] at hadd
        exact hadd

theorem Sound.applyObservableSpec_eq (hroot : root.Sound) (hparent : root.HasParent parent)
    (hchildren : root.HasChildren parent) (hstore : spec.Storable rt)
    (same : NodeUuid → NodeUuid → Bool) :
    let asked := (root.shelf rt parent).ask (room rt) (spec.request rt root.nextUuid)
    ∃ news children,
      root.applyObservableSpec rt parent spec =
        some (((root.take parent news children).change same (spec.marks rt asked.2)).draw
          (spec.draws rt), asked.2) ∧
      Takes rt root parent asked.1 news children := by
  intro asked
  obtain ⟨⟨root', added⟩, hadded, news, children, htake, hplaced, htakes⟩ :=
    hroot.added_eq hparent hchildren hstore
  refine ⟨news, children, ?_, ⟨htakes.entries, htakes.taken⟩⟩
  have hplaced : asked.2 = added.map (·.uuid) := hplaced.symm
  have hdrawn : (root.draw (spec.draws rt)).take parent news children =
      (root.take parent news children).draw (spec.draws rt) := by
    cases parent <;> rfl
  rw [RootAnalysis.applyObservableSpec, hadded, hplaced]
  obtain rfl : root' = (root.take parent news children).draw (spec.draws rt) := htake.trans hdrawn
  cases added with
  | none =>
    simp only [Option.map_some, Option.map_none, ObservableSpec.marks, Option.toList_none,
      map_nil, change_nil]
  | some o =>
    simp only [Option.map_some, ObservableSpec.marks, Option.toList_some, map_cons,
      map_nil, change_cons, change_nil]
    have hmark : (fun o : Observable => o.applySpec rt spec) = (spec.change rt).apply same := by
      funext o
      exact applySpec_eq_change rt same o spec
    rw [hmark]
    rfl

end RootAnalysis

/-! ## §5 Adding all new observables -/

def requests (rt : Runtime) (number draws : Nat) :
    List ObservableSpec → List (Option (RecordKey × NodeUuid))
  | [] => []
  | spec :: specs => spec.request rt ⟨number, draws⟩ :: requests rt number (draws + spec.draws rt) specs

def allMarks (rt : Runtime) :
    List ObservableSpec → List (Option NodeUuid) → List (NodeUuid × Change)
  | spec :: specs, placed :: rest => spec.marks rt placed ++ allMarks rt specs rest
  | _, _ => []

/-- `uuid_map` after the specs were placed. -/
def enterAll (uuidMap : UuidMap) : List ObservableSpec → List (Option NodeUuid) → UuidMap
  | _ :: specs, none :: rest => enterAll uuidMap specs rest
  | spec :: specs, some uuid :: rest => enterAll ((spec.uuid, uuid) :: uuidMap) specs rest
  | _, _ => uuidMap

def allDraws (rt : Runtime) (specs : List ObservableSpec) : Nat :=
  (specs.map (·.draws rt)).sum

theorem requests_keys (rt : Runtime) (number draws number' draws' : Nat)
    (specs : List ObservableSpec) :
    (requests rt number draws specs).map (Option.map (·.1)) =
      (requests rt number' draws' specs).map (Option.map (·.1)) := by
  induction specs generalizing draws draws' with
  | nil => rfl
  | cons spec specs ih =>
    rw [requests, requests, map_cons, map_cons, ih _ (draws' + spec.draws rt)]
    simp only [ObservableSpec.request, Option.map_map, comp_def]

section Append

variable {rt : Runtime} {number draws : Nat} {specs specs' : List ObservableSpec}
  {placed placed' : List (Option NodeUuid)} {uuidMap : UuidMap}

end Append

theorem mem_allMarks {rt : Runtime} {specs : List ObservableSpec} {placed : List (Option NodeUuid)}
    {c : NodeUuid × Change} (h : c ∈ allMarks rt specs placed) :
    some c.1 ∈ placed ∧ c.2.relationships = [] := by
  induction specs generalizing placed with
  | nil => cases h
  | cons spec specs ih =>
    cases placed with
    | nil => cases h
    | cons first placed =>
      rw [allMarks] at h
      rcases mem_append.mp h with h | h
      · obtain ⟨uuid, hplaced, rfl⟩ := mem_map.mp h
        obtain rfl := Option.mem_toList.mp hplaced
        exact ⟨mem_cons_self, rfl⟩
      · exact ⟨mem_cons_of_mem _ (ih h).1, (ih h).2⟩

theorem allFresh_requests (rt : Runtime) {number draws : Nat} {specs : List ObservableSpec}
    {s : Shelf NodeUuid RecordKey}
    (h : ∀ entry ∈ s.entries, entry.1.root = number ∧ entry.1.draw < draws) :
    s.AllFresh (requests rt number draws specs) := by
  induction specs generalizing draws s with
  | nil => trivial
  | cons spec specs ih =>
    rw [requests, ObservableSpec.request]
    cases hkey : spec.key rt with
    | none =>
      apply ih
      intro entry hentry
      exact ⟨(h entry hentry).1, Nat.lt_of_lt_of_le (h entry hentry).2 (Nat.le_add_right _ _)⟩
    | some key =>
      have hdraws : spec.draws rt = 1 := by
        apply if_pos
        unfold ObservableSpec.key at hkey
        split at hkey
        next hfile => exact .inl hfile
        next =>
          obtain ⟨value, hvalue, -⟩ := Option.bind_eq_some_iff.mp hkey
          exact .inr (Option.isSome_iff_exists.mpr ⟨value, hvalue⟩)
      refine ⟨?_, ih ?_⟩
      · intro hmem
        obtain ⟨entry, hentry, heq⟩ := mem_map.mp hmem
        have hlt := (h entry hentry).2
        rw [heq] at hlt
        exact Nat.lt_irrefl _ hlt
      · rw [hdraws]
        intro entry hentry
        rcases mem_append.mp hentry with hentry | hentry
        · exact ⟨(h entry hentry).1, Nat.lt_succ_of_lt (h entry hentry).2⟩
        · rw [mem_singleton.mp hentry]
          exact ⟨rfl, Nat.lt_succ_self _⟩

namespace RootAnalysis

variable {rt : Runtime} {root : RootAnalysis} {parent : Parent}
  {same : NodeUuid → NodeUuid → Bool} {changes : List (NodeUuid × Change)}
  {news : List Observable} {children : List NodeUuid}

theorem Sound.allFresh (hroot : root.Sound) (rt : Runtime) (parent : Parent)
    (specs : List ObservableSpec) :
    (root.shelf rt parent).AllFresh (requests rt root.number root.draws specs) := by
  apply allFresh_requests
  intro entry hentry
  obtain ⟨i, hi, rfl⟩ := mem_map.mp hentry
  exact hroot.drawn i hi

theorem getObservable_change (uuid : NodeUuid) :
    (root.change same changes).getObservable uuid =
      (root.getObservable uuid).map fun o => (Change.total changes o.uuid).apply same o := by
  rw [getObservable, change, List.find?_map]
  rfl

theorem slot_change (uuid : NodeUuid) (modulePath : AnalysisPath) :
    ((root.change same changes).getObservable uuid).bind (·.analysis.lookup modulePath) =
      (root.getObservable uuid).bind (·.analysis.lookup modulePath) := by
  rw [getObservable_change]
  cases root.getObservable uuid <;> rfl

theorem childrenOf_change :
    (root.change same changes).childrenOf parent = root.childrenOf parent := by
  cases parent with
  | root => rfl
  | analysis uuid modulePath => simp only [childrenOf, slot_change]

theorem HasParent.change (h : root.HasParent parent) :
    (root.change same changes).HasParent parent := by
  cases parent with
  | root => trivial
  | analysis uuid modulePath =>
    obtain ⟨a, ha⟩ := h
    exact ⟨a, (slot_change uuid modulePath).trans ha⟩

theorem shelf_change : (root.change same changes).shelf rt parent = root.shelf rt parent := by
  simp only [shelf, identities_change, childrenOf_change]

theorem shelf_draw (count : Nat) : (root.draw count).shelf rt parent = root.shelf rt parent := by
  cases parent <;> rfl

theorem total_eq_nothing {uuid : NodeUuid} (h : ∀ c ∈ changes, c.1 ≠ uuid) :
    Change.total changes uuid = .nothing := by
  induction changes with
  | nil => rfl
  | cons first changes ih =>
    rw [Change.total, foldr_cons, if_neg (h first mem_cons_self)]
    exact ih fun c hc => h c (mem_cons_of_mem _ hc)

theorem addChildren_change :
    (root.change same changes).addChildren parent children =
      (root.addChildren parent children).change same changes := by
  cases parent with
  | root => rfl
  | analysis uuid modulePath =>
    simp only [addChildren, modify, change, map_map, RootAnalysis.mk.injEq, true_and, and_true]
    apply map_congr_left
    intro o _
    by_cases huuid : o.uuid = uuid
    · rw [comp_apply, comp_apply, if_pos huuid, if_pos]
      · rfl
      · exact huuid
    · rw [comp_apply, comp_apply, if_neg huuid, if_neg]
      exact huuid

theorem take_change (h : ∀ c ∈ changes, ∀ o ∈ news, c.1 ≠ o.uuid) :
    (root.change same changes).take parent news children =
      (root.take parent news children).change same changes := by
  rw [take, take, ← addChildren_change]
  congr 1
  simp only [change, map_append, RootAnalysis.mk.injEq, true_and, and_true,
    append_cancel_left_eq]
  symm
  have hkeep : ∀ o ∈ news, (Change.total changes o.uuid).apply same o = id o := by
    intro o ho
    rw [total_eq_nothing fun c hc => h c hc o ho]
    rfl
  rw [map_congr_left hkeep, map_id]

theorem Takes.not_has {shelf' : Shelf NodeUuid RecordKey}
    (h : Takes rt root parent shelf' news children) (htidy : shelf'.Tidy) :
    ∀ o ∈ news, ¬ root.Has o.uuid := by
  rintro o ho ⟨i, hi, huuid⟩
  have hdistinct := htidy.distinct
  rw [h.entries, map_append, nodup_append] at hdistinct
  refine hdistinct.2.2 i.uuid ?_ o.uuid ?_ huuid
  · rw [uuids_shelf]
    exact mem_map_of_mem hi
  · rw [map_map]
    exact mem_map_of_mem ho

theorem hasChildren_of_tidy (h : (root.shelf rt parent).Tidy) : root.HasChildren parent := by
  intro uuid huuid
  have hmem := h.taken uuid huuid
  rw [uuids_shelf] at hmem
  exact mem_map.mp hmem

theorem take_marked_take {news' : List Observable} {children' : List NodeUuid}
    {changes' : List (NodeUuid × Change)} {count count' : Nat}
    (hmarked : ∀ c ∈ changes, ∀ o ∈ news', c.1 ≠ o.uuid)
    (hparent : ∀ o ∈ news', ∀ modulePath, parent ≠ .analysis o.uuid modulePath) :
    (((((root.take parent news children).change same changes).draw count).take parent news'
      children').change same changes').draw count' =
        ((root.take parent (news ++ news') (children ++ children')).change same
          (changes ++ changes')).draw (count + count') := by
  have hdraw (root : RootAnalysis) : (root.draw count).take parent news' children' =
      (root.take parent news' children').draw count := by
    cases parent <;> rfl
  rw [hdraw, take_change hmarked, take_take hparent, change_append]
  simp only [draw, change, Nat.add_assoc]

/-- The loop over the new observables is the requests of the specs; what they got is marked. -/
theorem Sound.applyObservableSpecs_eq (hroot : root.Sound) (hparent : root.HasParent parent)
    (hchildren : root.HasChildren parent) {specs : List ObservableSpec}
    (hstore : ∀ spec ∈ specs, spec.Storable rt) (same : NodeUuid → NodeUuid → Bool)
    (uuidMap : UuidMap) :
    let asked := (root.shelf rt parent).askAll (room rt)
      (requests rt root.number root.draws specs)
    ∃ news children,
      root.applyObservableSpecs rt parent uuidMap specs =
        some (((root.take parent news children).change same (allMarks rt specs asked.2)).draw
          (allDraws rt specs), enterAll uuidMap specs asked.2) ∧
      Takes rt root parent asked.1 news children := by
  induction specs generalizing root uuidMap with
  | nil =>
    refine ⟨[], [], ?_, .nothing⟩
    rw [take_nil, addChildren_nil]
    simp only [Shelf.askAll, requests, allMarks, change_nil]
    rfl
  | cons spec specs ih =>
    have hfresh := hroot.allFresh rt parent (spec :: specs)
    have hfirst := (hroot.tidy_shelf rt hchildren).ask (room rt) hfresh
    obtain ⟨news₁, children₁, hspec, htakes₁⟩ :=
      hroot.applyObservableSpec_eq hparent hchildren (hstore spec mem_cons_self) same
    rw [show root.nextUuid = ⟨root.number, root.draws⟩ from rfl] at hspec htakes₁
    obtain ⟨s₁, placed, hask⟩ : ∃ s₁ placed, (root.shelf rt parent).ask (room rt)
      (spec.request rt ⟨root.number, root.draws⟩) = (s₁, placed) := ⟨_, _, rfl⟩
    rw [hask] at hspec htakes₁ hfirst
    have hsound := (hroot.applyObservableSpec hspec).grows.sound
    obtain ⟨next, hnext⟩ : ∃ next, next = ((root.take parent news₁ children₁).change same
      (spec.marks rt placed)).draw (spec.draws rt) := ⟨_, rfl⟩
    rw [← hnext] at hspec hsound
    -- the root after the first spec has the shelf after the first request
    have hshelf : next.shelf rt parent = s₁ := by
      rw [hnext, shelf_draw, shelf_change, shelf_take hparent, ← htakes₁.entries, ← htakes₁.taken]
    have hnextParent : next.HasParent parent := by
      subst hnext
      exact hparent.take.change
    have hnextChildren : next.HasChildren parent := hasChildren_of_tidy (hshelf ▸ hfirst)
    have hnumber : next.number = root.number := (hroot.applyObservableSpec hspec).grows.number
    have hdraws : next.draws = root.draws + spec.draws rt := by
      subst hnext
      cases parent <;> rfl
    have hrest (uuidMap : UuidMap) := ih hsound hnextParent hnextChildren
      (fun spec hspec => hstore spec (mem_cons_of_mem _ hspec)) uuidMap
    rw [hshelf, hnumber, hdraws] at hrest
    have htidy : (s₁.askAll (room rt) (requests rt root.number (root.draws + spec.draws rt)
        specs)).1.Tidy := by
      have hall := (hroot.tidy_shelf rt hchildren).askAll (room rt) hfresh
      rwa [requests, Shelf.askAll, hask] at hall
    -- the rest of the loop, with the entry of the first spec in `uuid_map`
    obtain ⟨uuidMap₁, hloop, henter⟩ : ∃ uuidMap₁,
        root.applyObservableSpecs rt parent uuidMap (spec :: specs) =
          next.applyObservableSpecs rt parent uuidMap₁ specs ∧
        ∀ rest, enterAll uuidMap (spec :: specs) (placed :: rest) = enterAll uuidMap₁ specs rest := by
      cases placed with
      | none =>
        refine ⟨uuidMap, ?_, fun _ => rfl⟩
        rw [RootAnalysis.applyObservableSpecs, hspec]
      | some uuid =>
        refine ⟨(spec.uuid, uuid) :: uuidMap, ?_, fun _ => rfl⟩
        rw [RootAnalysis.applyObservableSpecs, hspec]
    obtain ⟨news₂, children₂, hrest, htakes₂⟩ := hrest uuidMap₁
    have hnew := htakes₂.not_has htidy
    simp only [requests, Shelf.askAll, hask, allMarks, henter]
    refine ⟨news₁ ++ news₂, children₁ ++ children₂, ?_, ⟨?_, ?_⟩⟩
    · rw [hloop, hrest, hnext, take_marked_take]
      · simp only [allDraws, map_cons, sum_cons]
      · intro c hc o ho huuid
        obtain ⟨uuid, hplaced, rfl⟩ := mem_map.mp hc
        obtain rfl := Option.mem_toList.mp hplaced
        apply hnew o ho
        rw [← huuid]
        apply hnextChildren
        rw [show next.childrenOf parent = (next.shelf rt parent).taken from rfl, hshelf]
        exact Shelf.mem_taken_of_ask hask
      · rintro o ho modulePath rfl
        exact hnew o ho hnextParent.has
    · rw [htakes₂.entries, hshelf, htakes₁.entries, map_append, append_assoc]
    · rw [htakes₂.taken, hshelf, htakes₁.taken, append_assoc]

end RootAnalysis

end Ace3.Analysis
