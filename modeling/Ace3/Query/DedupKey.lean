import Ace3.Lib.FallibleMap
import Ace3.Query.EventFlattening
import Mathlib.Data.List.Sort

/-!
# Keys for Duplicates

Two events are duplicates when the tuples of their values are equal for Python. A tuple is hashed
before it is compared, and lists and dictionaries have no hash, so a value may be one but not have
one in it. Where there is a hash, Python's equality is coarser than that of JSON: `True` is 1, and
an empty list and an empty dictionary both become the empty tuple.
-/

namespace Ace3.Query

open List
open Lib Lib.Nested

/-! ## §1 JSON -/

/-- The value of a dictionary that was read from JSON: names are strings, and no two of them are
the same. -/
inductive IsJson : Val → Prop
  | atom {s : Scalar} (h : ∀ raw, s ≠ .bytes raw) : IsJson (.atom s)
  | list {items : List Val} (h : ∀ v ∈ items, IsJson v) : IsJson (.list items)
  | dict {items : Items} (hnodup : (items.map (·.1)).Nodup)
      (hkeys : ∀ item ∈ items, ∃ s, item.1 = .str s) (h : ∀ item ∈ items, IsJson item.2) :
      IsJson (.dict items)

structure JsonEvent where
  event : Event
  json : IsJson (.dict event.items)

/-- What a JSON value says: an array is the list of its elements, and an object gives a value to
each of its names, in no order. Two values are equal as JSON when they mean the same. -/
inductive Meaning where
  | scalar (s : Scalar)
  | array (items : List Meaning)
  | object (fields : Key → Option Meaning)

def byValue : Scalar → Scalar
  | .int i => .float i
  | s => s

mutual

def meaning : Val → Meaning
  | .atom s => .scalar (byValue s)
  | .list items => .array (meanings items)
  | .dict items => .object (fieldMeanings items)

def meanings : List Val → List Meaning
  | [] => []
  | v :: items => meaning v :: meanings items

def fieldMeanings : Items → Key → Option Meaning
  | [], _ => none
  | (name, v) :: items, key => if key = name then some (meaning v) else fieldMeanings items key

end

theorem meanings_eq (items : List Val) : meanings items = items.map meaning := by
  induction items with
  | nil => rw [meanings, map_nil]
  | cons v items ih => rw [meanings, ih, map_cons]

theorem fieldMeanings_eq (items : Items) (key : Key) :
    fieldMeanings items key = (items.lookup key).map meaning := by
  induction items with
  | nil => rw [fieldMeanings, lookup_nil, Option.map_none]
  | cons item items ih =>
    rw [fieldMeanings, OrderedDict.lookup_cons_ite, ih]
    split <;> rfl

/-! ## §2 The key -/

/-- The order of names; the names of a JSON object are strings. -/
def keyLe : Key → Key → Prop
  | .int i, .int j => i ≤ j
  | .int _, .str _ => True
  | .str s, .str t => s ≤ t
  | .str _, .int _ => False

instance (k k' : Key) : Decidable (keyLe k k') := by
  cases k <;> cases k' <;> unfold keyLe <;> infer_instance

inductive DedupPart where
  | value (s : Scalar)
  /-- `tuple(value)`. -/
  | tuple (items : List Val)
  /-- `tuple(sorted(value.items()))`. -/
  | pairs (items : Items)

/-- The part for the value of a field; a missing field has `None`. -/
def partOf : Option Val → DedupPart
  | none => .value .null
  | some (.atom s) => .value s
  | some (.list items) => .tuple items
  | some (.dict items) => .pairs (items.insertionSort fun a b => keyLe a.1 b.1)

def computeDedupKey (event : Event) (dedupFields : List String) : List DedupPart :=
  dedupFields.map fun fieldSpec => partOf (event.get? (.str fieldSpec))

/-! ## §3 Hashing -/

/-- What `==` sees of a scalar: `True`, 1 and 1.0 are the same. -/
def pyScalar : Scalar → Scalar
  | .bool b => .float (if b then 1 else 0)
  | .int i => .float i
  | s => s

inductive HashedElement where
  | scalar (s : Scalar)
  | pair (key : Key) (s : Scalar)
  deriving DecidableEq

inductive HashedPart where
  | scalar (s : Scalar)
  | tuple (elements : List HashedElement)
  deriving DecidableEq

/-- What `==` sees of a value with a hash. -/
def hashValue : Val → Option Scalar
  | .atom s => some (pyScalar s)
  | _ => none

def hashPart : DedupPart → Option HashedPart
  | .value s => some (.scalar (pyScalar s))
  | .tuple items => (items.mapM hashValue).map fun elements => .tuple (elements.map .scalar)
  | .pairs items =>
    (items.mapM fun item => (hashValue item.2).map (HashedElement.pair item.1)).map .tuple

/-- What a set sees of a key: hashing it raises a `TypeError` when a list or a dictionary is left in
it, and otherwise two keys are equal when this is equal. -/
def hashKey (key : List DedupPart) : Option (List HashedPart) := key.mapM hashPart

/-- No list or dictionary is in the value, unless it is one itself. -/
def IsFlat : Val → Prop
  | .atom _ => True
  | .list items => ∀ v ∈ items, ∃ s, v = .atom s
  | .dict items => ∀ item ∈ items, ∃ s, item.2 = .atom s

theorem hashValue_isSome_iff {v : Val} : (hashValue v).isSome ↔ ∃ s, v = .atom s := by
  cases v <;> simp [hashValue]

theorem isSome_mapM_iff {α β : Type} {f : α → Option β} {l : List α} :
    (l.mapM f).isSome ↔ ∀ a ∈ l, (f a).isSome := by
  simp only [Option.isSome_iff_exists]
  exact FallibleMap.exists_mapM_iff

theorem hashPart_isSome_iff {v : Val} : (hashPart (partOf (some v))).isSome ↔ IsFlat v := by
  cases v with
  | atom s => simp [partOf, hashPart, IsFlat]
  | list items =>
    simp only [partOf, hashPart, Option.isSome_map, isSome_mapM_iff, hashValue_isSome_iff, IsFlat]
  | dict items =>
    simp only [partOf, hashPart, Option.isSome_map, isSome_mapM_iff, hashValue_isSome_iff, IsFlat,
      mem_insertionSort]

/-! ## §4 Two equalities -/

/-- What Python's equality leaves of the meaning of a scalar. -/
def conflateScalar : Meaning → Meaning
  | .scalar s => .scalar (pyScalar s)
  | m => m

open Classical in
/-- What the equality of keys leaves of the meaning of a flat value: true is 1, false is 0, and the
empty object is the empty array. -/
noncomputable def conflate : Meaning → Meaning
  | .scalar s => .scalar (pyScalar s)
  | .array items => .array (items.map conflateScalar)
  | .object fields =>
    if ∀ key, fields key = none then .array []
    else .object fun key => (fields key).map conflateScalar

theorem pyScalar_byValue (s : Scalar) : pyScalar (byValue s) = pyScalar s := by
  cases s <;> rfl

theorem conflate_object_eq_iff {fields fields' : Key → Option Meaning} :
    conflate (.object fields) = conflate (.object fields') ↔
      ∀ key, (fields key).map conflateScalar = (fields' key).map conflateScalar := by
  have hnone : ∀ fields : Key → Option Meaning,
      (∀ key, (fields key).map conflateScalar = none) ↔ ∀ key, fields key = none :=
    fun fields => forall_congr' fun _ => Option.map_eq_none_iff
  rw [conflate, conflate]
  split <;> split <;> rename_i h h'
  · simp [h, h']
  · refine iff_of_false nofun fun heq => h' ((hnone _).mp fun key => ?_)
    rw [← heq, h, Option.map_none]
  · refine iff_of_false nofun fun heq => h ((hnone _).mp fun key => ?_)
    rw [heq, h', Option.map_none]
  · rw [Meaning.object.injEq, funext_iff]

theorem conflate_object_eq_array_iff {fields : Key → Option Meaning} {items : List Meaning} :
    conflate (.object fields) = conflate (.array items) ↔
      (∀ key, fields key = none) ∧ items = [] := by
  rw [conflate, conflate]
  split <;> rename_i h
  · simp [h, eq_comm]
  · exact iff_of_false nofun fun hboth => h hboth.1

theorem exists_scalars {items : List Val} (h : ∀ v ∈ items, ∃ s, v = .atom s) :
    ∃ scalars : List Scalar, items = scalars.map .atom := by
  induction items with
  | nil => exact ⟨[], rfl⟩
  | cons v items ih =>
    obtain ⟨⟨s, rfl⟩, hrest⟩ := forall_mem_cons.mp h
    obtain ⟨scalars, rfl⟩ := ih hrest
    exact ⟨s :: scalars, rfl⟩

theorem exists_entries {items : Items} (h : ∀ item ∈ items, ∃ s, item.2 = .atom s) :
    ∃ entries : List (Key × Scalar), items = entries.map fun entry => (entry.1, .atom entry.2) := by
  induction items with
  | nil => exact ⟨[], rfl⟩
  | cons item items ih =>
    obtain ⟨⟨s, hs⟩, hrest⟩ := forall_mem_cons.mp h
    obtain ⟨entries, rfl⟩ := ih hrest
    exact ⟨(item.1, s) :: entries, by rw [map_cons, ← hs]⟩

/-- The entries as `==` sees them. -/
def pyEntries (entries : List (Key × Scalar)) : List (Key × Scalar) :=
  entries.map fun entry => (entry.1, pyScalar entry.2)

theorem hashPart_list (scalars : List Scalar) :
    hashPart (partOf (some (.list (scalars.map .atom)))) =
      some (.tuple ((scalars.map pyScalar).map .scalar)) := by
  have hmapM : (scalars.map (Nested.atom (κ := Key))).mapM hashValue =
      some (scalars.map pyScalar) := by
    rw [FallibleMap.mapM_eq_some_iff, forall₂_map_left_iff, forall₂_map_right_iff]
    exact forall₂_same.mpr fun _ _ => rfl
  rw [partOf, hashPart, hmapM, Option.map_some]

theorem hashPart_dict (entries : List (Key × Scalar)) :
    hashPart (partOf (some (.dict (entries.map fun entry => (entry.1, .atom entry.2))))) =
      some (.tuple (((pyEntries entries).insertionSort fun a b => keyLe a.1 b.1).map
        fun entry => .pair entry.1 entry.2)) := by
  have hsort : (entries.map fun entry => (entry.1, (.atom entry.2 : Val))).insertionSort
      (fun a b => keyLe a.1 b.1) =
        (entries.insertionSort fun a b => keyLe a.1 b.1).map
          fun entry => (entry.1, (.atom entry.2 : Val)) :=
    (map_insertionSort (fun a b : Key × Scalar => keyLe a.1 b.1)
      (fun a b : Key × Val => keyLe a.1 b.1) _ _ fun _ _ _ _ => Iff.rfl).symm
  have hsort' : (pyEntries entries).insertionSort (fun a b => keyLe a.1 b.1) =
      pyEntries (entries.insertionSort fun a b => keyLe a.1 b.1) :=
    (map_insertionSort (fun a b : Key × Scalar => keyLe a.1 b.1)
      (fun a b : Key × Scalar => keyLe a.1 b.1) (fun entry => (entry.1, pyScalar entry.2)) entries
      fun _ _ _ _ => Iff.rfl).symm
  rw [partOf, hashPart, hsort, hsort']
  have hmapM : ((entries.insertionSort fun a b => keyLe a.1 b.1).map
      fun entry => (entry.1, (.atom entry.2 : Val))).mapM
        (fun item => (hashValue item.2).map (HashedElement.pair item.1)) =
      some ((pyEntries (entries.insertionSort fun a b => keyLe a.1 b.1)).map
        fun entry => .pair entry.1 entry.2) := by
    rw [FallibleMap.mapM_eq_some_iff, pyEntries, forall₂_map_left_iff,
      forall₂_map_right_iff, forall₂_map_right_iff]
    exact forall₂_same.mpr fun _ _ => rfl
  rw [hmapM, Option.map_some]

theorem keyLe_total (k k' : Key) : keyLe k k' ∨ keyLe k' k := by
  cases k with
  | int i =>
    cases k' with
    | int j => exact le_total i j
    | str t => exact .inl trivial
  | str s =>
    cases k' with
    | int j => exact .inr trivial
    | str t => exact String.le_total s t

theorem keyLe_trans {k k' k'' : Key} (h : keyLe k k') (h' : keyLe k' k'') : keyLe k k'' := by
  cases k <;> cases k' <;> cases k'' <;> simp only [keyLe] at *
  · exact String.le_trans h h'
  · exact h.trans h'

theorem keyLe_antisymm {k k' : Key} (h : keyLe k k') (h' : keyLe k' k) : k = k' := by
  cases k <;> cases k' <;> simp only [keyLe, Key.int.injEq, Key.str.injEq] at *
  · exact String.le_antisymm h h'
  · exact le_antisymm h h'

/-- Sorted, entries with distinct keys are the same when they are found under the same keys. -/
theorem insertionSort_entries_eq_iff {entries entries' : List (Key × Scalar)}
    (h : (entries.map (·.1)).Nodup) (h' : (entries'.map (·.1)).Nodup) :
    (entries.insertionSort fun a b => keyLe a.1 b.1) =
        (entries'.insertionSort fun a b => keyLe a.1 b.1) ↔
      ∀ key, entries.lookup key = entries'.lookup key := by
  have : Std.Total fun a b : Key × Scalar => keyLe a.1 b.1 := ⟨fun a b => keyLe_total a.1 b.1⟩
  have : IsTrans (Key × Scalar) fun a b => keyLe a.1 b.1 := ⟨fun _ _ _ => keyLe_trans⟩
  have hfound : ∀ key value, OrderedDict.get? ⟨entries, h⟩ key = some value ↔
      (key, value) ∈ entries := fun _ _ => OrderedDict.get?_eq_some_iff
  have hfound' : ∀ key value, OrderedDict.get? ⟨entries', h'⟩ key = some value ↔
      (key, value) ∈ entries' := fun _ _ => OrderedDict.get?_eq_some_iff
  simp only [OrderedDict.get?] at hfound hfound'
  have hperm := perm_insertionSort (fun a b : Key × Scalar => keyLe a.1 b.1) entries
  have hperm' := perm_insertionSort (fun a b : Key × Scalar => keyLe a.1 b.1) entries'
  have hiff : entries.Perm entries' ↔ ∀ key, entries.lookup key = entries'.lookup key := by
    rw [perm_ext_iff_of_nodup h.of_map h'.of_map]
    constructor
    · intro hmem key
      ext value
      rw [hfound, hfound', hmem]
    · rintro hlookup ⟨key, value⟩
      rw [← hfound, ← hfound', hlookup]
  rw [← hiff]
  constructor
  · intro heq
    exact hperm.symm.trans (heq ▸ hperm')
  · intro hentries
    -- two entries with one key are the same entry
    have hsame : ∀ a ∈ entries, ∀ b ∈ entries, a.1 = b.1 → a = b := inj_on_of_nodup_map h
    refine List.Perm.eq_of_pairwise ?_
      (pairwise_insertionSort (fun a b : Key × Scalar => keyLe a.1 b.1) _) (pairwise_insertionSort _ _)
      ((hperm.trans hentries).trans hperm'.symm)
    intro a b ha hb hle hge
    rw [mem_insertionSort] at ha hb
    exact hsame a ha b (hentries.mem_iff.mpr hb) (keyLe_antisymm hle hge)

theorem conflateScalar_atom (s : Scalar) : conflateScalar (meaning (.atom s)) = .scalar (pyScalar s) := by
  rw [meaning, conflateScalar, pyScalar_byValue]

theorem scalar_injective : Function.Injective Meaning.scalar := fun _ _ h => Meaning.scalar.inj h

theorem conflate_list (scalars : List Scalar) :
    conflate (meaning (.list (scalars.map .atom))) =
      .array ((scalars.map pyScalar).map .scalar) := by
  rw [meaning, conflate, meanings_eq, map_map, map_map, map_map]
  exact congrArg Meaning.array (map_congr_left fun s _ => conflateScalar_atom s)

theorem map_fieldMeanings (entries : List (Key × Scalar)) (key : Key) :
    (fieldMeanings (entries.map fun entry => (entry.1, .atom entry.2)) key).map conflateScalar =
      ((pyEntries entries).lookup key).map .scalar := by
  rw [fieldMeanings_eq, lookup_map_snd, pyEntries, lookup_map_snd, Option.map_map, Option.map_map,
    Option.map_map]
  exact congrArg (Option.map · _) (funext fun s => conflateScalar_atom s)

theorem keys_pyEntries (entries : List (Key × Scalar)) :
    (pyEntries entries).map (·.1) = entries.map (·.1) := by
  rw [pyEntries, map_map]
  rfl

theorem fieldMeanings_eq_none_iff (items : Items) :
    (∀ key, fieldMeanings items key = none) ↔ items = [] := by
  cases items with
  | nil => exact iff_of_true (fun _ => by rw [fieldMeanings]) rfl
  | cons item items =>
    refine iff_of_false (fun h => ?_) (cons_ne_nil _ _)
    have hfirst := h item.1
    rw [fieldMeanings, if_pos rfl] at hfirst
    cases hfirst

theorem hashPart_list_eq_dict_iff (scalars : List Scalar) (entries : List (Key × Scalar)) :
    hashPart (partOf (some (.list (scalars.map .atom)))) =
        hashPart (partOf (some (.dict (entries.map fun entry => (entry.1, .atom entry.2))))) ↔
      conflate (meaning (.list (scalars.map .atom))) =
        conflate (meaning (.dict (entries.map fun entry => (entry.1, .atom entry.2)))) := by
  rw [hashPart_list, hashPart_dict, Option.some.injEq, HashedPart.tuple.injEq, meaning,
    @eq_comm _ (conflate _), meaning, conflate_object_eq_array_iff, fieldMeanings_eq_none_iff,
    meanings_eq]
  simp only [map_eq_nil_iff]
  constructor
  · intro heq
    cases scalars with
    | nil =>
      have hlength := congrArg List.length heq
      simp only [map_nil, length_nil, pyEntries, length_map,
        length_insertionSort] at hlength
      exact ⟨length_eq_zero_iff.mp hlength.symm, rfl⟩
    | cons s scalars =>
      cases hsort : (pyEntries entries).insertionSort fun a b => keyLe a.1 b.1 with
      | nil => simp [hsort] at heq
      | cons entry rest => simp [hsort] at heq
  · rintro ⟨rfl, rfl⟩
    rfl

/-- Two flat values have one hash when Python's equality leaves the same of what they mean. -/
theorem hashPart_eq_iff {v w : Val} (hv : IsJson v) (hw : IsJson w) (hflat : IsFlat v)
    (hflat' : IsFlat w) :
    hashPart (partOf (some v)) = hashPart (partOf (some w)) ↔
      conflate (meaning v) = conflate (meaning w) := by
  cases v with
  | atom s =>
    have hs : conflate (meaning (.atom s)) = .scalar (pyScalar s) := conflateScalar_atom s
    cases w with
    | atom t =>
      have ht : conflate (meaning (.atom t)) = .scalar (pyScalar t) := conflateScalar_atom t
      rw [hs, ht]
      simp [partOf, hashPart]
    | list others =>
      obtain ⟨scalars, rfl⟩ := exists_scalars hflat'
      rw [hs, hashPart_list, conflate_list]
      exact iff_of_false nofun nofun
    | dict others =>
      obtain ⟨entries, rfl⟩ := exists_entries hflat'
      rw [hs, hashPart_dict, meaning, conflate]
      refine iff_of_false nofun ?_
      split <;> exact nofun
  | list items =>
    obtain ⟨scalars, rfl⟩ := exists_scalars hflat
    cases w with
    | atom t =>
      have ht : conflate (meaning (.atom t)) = .scalar (pyScalar t) := conflateScalar_atom t
      rw [ht, hashPart_list, conflate_list]
      exact iff_of_false nofun nofun
    | list others =>
      obtain ⟨scalars', rfl⟩ := exists_scalars hflat'
      rw [hashPart_list, hashPart_list, conflate_list, conflate_list, Option.some.injEq,
        HashedPart.tuple.injEq, Meaning.array.injEq, scalar_injective.list_map.eq_iff,
        List.map_inj_right fun _ _ h => HashedElement.scalar.inj h]
    | dict others =>
      obtain ⟨entries, rfl⟩ := exists_entries hflat'
      exact hashPart_list_eq_dict_iff scalars entries
  | dict items =>
    obtain ⟨entries, rfl⟩ := exists_entries hflat
    cases w with
    | atom t =>
      have ht : conflate (meaning (.atom t)) = .scalar (pyScalar t) := conflateScalar_atom t
      rw [ht, hashPart_dict, meaning, conflate]
      refine iff_of_false nofun ?_
      split <;> exact nofun
    | list others =>
      obtain ⟨scalars', rfl⟩ := exists_scalars hflat'
      rw [eq_comm, hashPart_list_eq_dict_iff, eq_comm]
    | dict others =>
      obtain ⟨entries', rfl⟩ := exists_entries hflat'
      have hkeys : ∀ {entries : List (Key × Scalar)},
          IsJson (.dict (entries.map fun entry => (entry.1, .atom entry.2))) →
            ((pyEntries entries).map (·.1)).Nodup := by
        intro entries hjson
        cases hjson with
        | dict hnodup hkeys h =>
          rw [keys_pyEntries]
          rwa [map_map] at hnodup
      have hpair : Function.Injective fun entry : Key × Scalar =>
          HashedElement.pair entry.1 entry.2 := by
        rintro ⟨k, s⟩ ⟨k', s'⟩ heq
        cases heq
        rfl
      rw [hashPart_dict, hashPart_dict, Option.some.injEq, HashedPart.tuple.injEq,
        hpair.list_map.eq_iff, insertionSort_entries_eq_iff (hkeys hv) (hkeys hw), meaning,
        meaning, conflate_object_eq_iff]
      refine forall_congr' fun key => ?_
      rw [map_fieldMeanings, map_fieldMeanings]
      exact (Option.map_injective scalar_injective).eq_iff.symm

end Ace3.Query
