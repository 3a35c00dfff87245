import Ace3.Collectors.HuntMerge
import Ace3.Lib.ObjectHeap

/-!
# What a Merge Keeps

Every entry of the override is in the merged configuration, and every entry of the base that is not
replaced, at the path of keys where it was. Merging the same override again changes nothing.
-/

namespace Ace3.Collectors

open List
open Lib Lib.Nested Lib.ListMerge

/-! ## §1 Lists -/

theorem truthy_equalTo (v : Yaml) : truthy (equalTo v) = truthy v := by
  cases v with
  | atom a =>
    cases a with
    | bool b => cases b <;> rfl
    | null | int _ | str _ | other _ => rfl
  | list items => cases items <;> rfl
  | dict items =>
    have hlength : (sortItems (canonItems YamlAtom.value items)).length = items.length := by
      rw [sortItems, length_insertionSort, canonItems_eq, length_map]
    show (!(sortItems (canonItems YamlAtom.value items)).isEmpty) = !items.isEmpty
    rw [Bool.eq_iff_iff]
    simp only [Bool.not_eq_true', isEmpty_eq_false_iff, ← length_pos_iff, hlength]

theorem hashed_equalTo (v : Yaml) : hashed (equalTo v) = hashed v := by
  cases v with
  | atom a => exact congrArg Except.ok (YamlAtom.value_value a)
  | list items => rfl
  | dict items => rfl

theorem mapM_hashed_canonList (items : List Yaml) :
    (items.map equalTo).mapM hashed = items.mapM hashed := by
  induction items with
  | nil => rfl
  | cons v items ih => simp only [map_cons, mapM_cons, hashed_equalTo, ih]

theorem mapM_hashed_keys (keys : List String) :
    (keys.map fun key => (.atom (.str key) : Yaml)).mapM hashed =
      .ok (keys.map YamlAtom.str) := by
  induction keys with
  | nil => rfl
  | cons key keys ih =>
    rw [map_cons, mapM_cons, ih]
    rfl

theorem frozenset_equalTo (v : Yaml) : frozenset (equalTo v) = frozenset v := by
  cases v with
  | atom a =>
    cases a with
    | null | bool _ | int _ | str _ | other _ => rfl
  | list items =>
    show (do let elements ← (canonList YamlAtom.value items).mapM hashed; pure elements.toFinset) = _
    rw [canonList_eq, mapM_hashed_canonList]
    rfl
  | dict items =>
    -- the keys come in another order
    have hkeys (items : YamlDict) : frozenset (.dict items) =
        .ok ((items.map (·.1)).map YamlAtom.str).toFinset := by
      show (do
        let elements ← (items.map fun item : String × Yaml =>
          (.atom (.str item.1) : Yaml)).mapM hashed
        pure elements.toFinset) = _
      have hmap : (items.map fun item : String × Yaml => (.atom (.str item.1) : Yaml)) =
          (items.map (·.1)).map fun key => .atom (.str key) := by
        rw [map_map]
        rfl
      rw [hmap, mapM_hashed_keys]
      rfl
    rw [equalTo, canon, hkeys, hkeys]
    refine congrArg Except.ok (toFinset_eq_of_perm _ _ (List.Perm.map _ ?_))
    have hperm : (sortItems (canonItems YamlAtom.value items)).Perm
        (canonItems YamlAtom.value items) := perm_insertionSort _ _
    refine (hperm.map _).trans ?_
    rw [canonItems_eq, map_map]
    exact List.Perm.refl _

theorem filter_truthy_map (v : Option Yaml) :
    (v.map equalTo).filter truthy = (v.filter truthy).map equalTo := by
  cases v with
  | none => rfl
  | some v => simp only [Option.map_some, Option.filter, truthy_equalTo]; split <;> rfl

theorem identityFrom_map (type fields field : Option Yaml) :
    identityFrom (type.map equalTo) (fields.map equalTo) (field.map equalTo) =
      identityFrom type fields field := by
  cases type with
  | none => rfl
  | some type =>
    rw [identityFrom, Option.map_some, identityFrom, filter_truthy_map, filter_truthy_map]
    have hfields : ((fields.filter truthy).map equalTo).or
        (((field.filter truthy).map equalTo).map fun field => .list [field]) =
        ((fields.filter truthy).or ((field.filter truthy).map fun field => .list [field])).map
          equalTo := by
      cases fields.filter truthy with
      | some _ => rfl
      | none => cases field.filter truthy <;> rfl
    simp only [hfields]
    cases (fields.filter truthy).or ((field.filter truthy).map fun field => .list [field]) with
    | none => rfl
    | some fields => simp only [Option.map_some, frozenset_equalTo, hashed_equalTo]

theorem identity_congr {v w : Yaml} (h : equalTo v = equalTo w) :
    getObservableMappingIdentity v = getObservableMappingIdentity w := by
  cases v with
  | atom a =>
    cases w with
    | atom b => rfl
    | list | dict => cases h
  | list items =>
    cases w with
    | list others => rfl
    | atom | dict => cases h
  | dict items =>
    cases w with
    | atom | list => cases h
    | dict others =>
      rw [getObservableMappingIdentity, getObservableMappingIdentity, ← identityFrom_map,
        lookup_of_canon h, lookup_of_canon h, lookup_of_canon h, identityFrom_map]

def identityOf (v : Yaml) : Option MappingIdentity :=
  match getObservableMappingIdentity v with
  | .ok identity => identity
  | .error _ => none

theorem respects_identityOf : Respects identityOf equalTo := fun v w h => by
  rw [identityOf, identityOf, identity_congr h]

/-- No `TypeError` comes up for the entry. -/
def HasIdentity (v : Yaml) : Prop := getObservableMappingIdentity v = .ok (identityOf v)

variable {v : Yaml}

theorem hasIdentity_of_eq_ok {identity : Option MappingIdentity}
    (h : getObservableMappingIdentity v = .ok identity) : HasIdentity v := by
  rw [HasIdentity, identityOf, h]

variable {items : List Yaml}

theorem identityMap_spec {k : Nat} {map map' : OrderedDict MappingIdentity Nat}
    (h : identityMap k items map = .ok map') : (∀ v ∈ items, HasIdentity v) ∧
      ∀ i, map'.get? i = ((lastAt identityOf i items).map (· + k)).or (map.get? i) := by
  induction items generalizing k map with
  | nil =>
    obtain rfl := Except.ok.inj h
    exact ⟨fun _ hv => absurd hv not_mem_nil, fun _ => rfl⟩
  | cons v items ih =>
    rw [identityMap] at h
    cases hid : getObservableMappingIdentity v with
    | error e => simp only [hid, bind, Except.bind, reduceCtorEq] at h
    | ok identity =>
      have hof : identityOf v = identity := by rw [identityOf, hid]
      have hhead := hasIdentity_of_eq_ok hid
      cases identity with
      | none =>
        simp only [hid, bind, Except.bind] at h
        obtain ⟨hitems, hget⟩ := ih h
        refine ⟨forall_mem_cons.mpr ⟨hhead, hitems⟩, fun i => ?_⟩
        rw [hget, lastAt, hof]
        cases lastAt identityOf i items <;> simp [Nat.add_comm, Nat.add_left_comm]
      | some identity =>
        simp only [hid, bind, Except.bind] at h
        obtain ⟨hitems, hget⟩ := ih h
        refine ⟨forall_mem_cons.mpr ⟨hhead, hitems⟩, fun i => ?_⟩
        rw [hget, lastAt, hof, OrderedDict.get?_set]
        cases lastAt identityOf i items with
        | some n => simp [Nat.add_comm, Nat.add_left_comm]
        | none =>
          by_cases hi : i = identity
          · simp [hi]
          · have hne : identity ≠ i := fun heq => hi heq.symm
            simp [hi, hne]

theorem exists_identityMap (h : ∀ v ∈ items, HasIdentity v) (k : Nat)
    (map : OrderedDict MappingIdentity Nat) : ∃ map', identityMap k items map = .ok map' := by
  induction items generalizing k map with
  | nil => exact ⟨map, rfl⟩
  | cons v items ih =>
    obtain ⟨hv, hitems⟩ := forall_mem_cons.mp h
    rw [HasIdentity] at hv
    rw [identityMap, hv]
    cases identityOf v with
    | none => exact ih hitems (k + 1) map
    | some identity => exact ih hitems (k + 1) _

theorem mergeListItem_of_hasIdentity {item : Yaml} (h : HasIdentity item)
    (map : OrderedDict MappingIdentity Nat) (result : List Yaml) :
    mergeListItem map result item =
      .ok (ListMerge.mergeItem identityOf equalTo map.get? result item) := by
  rw [HasIdentity] at h
  simp only [mergeListItem, h, bind, Except.bind, ListMerge.mergeItem, pure, Except.pure]
  cases (identityOf item).bind map.get? with
  | some n => rfl
  | none =>
    simp only
    split <;> rfl

theorem foldlM_mergeListItem {map : OrderedDict MappingIdentity Nat} {result merged : List Yaml}
    (h : items.foldlM (mergeListItem map) result = .ok merged) :
    (∀ v ∈ items, HasIdentity v) ∧
      merged = items.foldl (ListMerge.mergeItem identityOf equalTo map.get?) result := by
  induction items generalizing result with
  | nil =>
    obtain rfl := Except.ok.inj h
    exact ⟨fun _ hv => absurd hv not_mem_nil, rfl⟩
  | cons v items ih =>
    rw [foldlM_cons] at h
    cases hid : getObservableMappingIdentity v with
    | error e => simp only [mergeListItem, hid, bind, Except.bind, reduceCtorEq] at h
    | ok identity =>
      have hhead := hasIdentity_of_eq_ok hid
      rw [mergeListItem_of_hasIdentity hhead] at h
      obtain ⟨hitems, rfl⟩ := ih h
      exact ⟨forall_mem_cons.mpr ⟨hhead, hitems⟩, rfl⟩

theorem foldlM_mergeListItem_of (h : ∀ v ∈ items, HasIdentity v)
    (map : OrderedDict MappingIdentity Nat) (result : List Yaml) :
    items.foldlM (mergeListItem map) result =
      .ok (items.foldl (ListMerge.mergeItem identityOf equalTo map.get?) result) := by
  induction items generalizing result with
  | nil => rfl
  | cons v items ih =>
    obtain ⟨hv, hitems⟩ := forall_mem_cons.mp h
    rw [foldlM_cons, mergeListItem_of_hasIdentity hv]
    exact ih hitems _

theorem mergeList_eq_ok_iff {base items merged : List Yaml} :
    mergeList base items = .ok merged ↔ (∀ v ∈ base ++ items, HasIdentity v) ∧
      merged = ListMerge.merge identityOf equalTo base items := by
  have hget {map : OrderedDict MappingIdentity Nat} (hmap : identityMap 0 base .empty = .ok map) :
      map.get? = fun i => lastAt identityOf i base := by
    funext i
    rw [(identityMap_spec hmap).2, OrderedDict.get?_empty, Option.or_none]
    simp
  rw [forall_mem_append, mergeList]
  constructor
  · intro h
    cases hmap : identityMap 0 base .empty with
    | error e => simp only [hmap, bind, Except.bind, reduceCtorEq] at h
    | ok map =>
      simp only [hmap, bind, Except.bind] at h
      obtain ⟨hitems, rfl⟩ := foldlM_mergeListItem h
      exact ⟨⟨(identityMap_spec hmap).1, hitems⟩, by rw [hget hmap]; rfl⟩
  · rintro ⟨⟨hbase, hitems⟩, rfl⟩
    obtain ⟨map, hmap⟩ := exists_identityMap hbase 0 .empty
    simp only [hmap, bind, Except.bind, foldlM_mergeListItem_of hitems, hget hmap]
    rfl

/-! ## §2 Paths -/

/-- The value of a key of the override, where the base may have one too. -/
def mergeAt : (old : Option Yaml) → Yaml → Except TypeError Yaml
  | none, v => .ok v
  | some old, v => mergeValue old v

theorem mergeItems_cons (base : YamlDict) (key : String) (v : Yaml) (override : YamlDict) :
    mergeItems base ((key, v) :: override) =
      (mergeAt (base.lookup key) v).bind fun merged =>
        mergeItems (OrderedDict.setItems key merged base) override := by
  rw [mergeItems]
  cases base.lookup key <;> rfl

variable {base override merged : YamlDict} {key : String}

theorem mergeItems_cons_eq_ok (h : mergeItems base ((key, v) :: override) = .ok merged) :
    ∃ y, mergeAt (base.lookup key) v = .ok y ∧
      mergeItems (OrderedDict.setItems key y base) override = .ok merged := by
  rw [mergeItems_cons] at h
  cases hat : mergeAt (base.lookup key) v with
  | error e => simp only [hat, Except.bind, reduceCtorEq] at h
  | ok y => exact ⟨y, rfl, by rwa [hat] at h⟩

theorem lookup_eq_none_of_not_mem {items : YamlDict} (h : key ∉ items.map (·.1)) :
    items.lookup key = none := by
  induction items with
  | nil => rfl
  | cons item items ih =>
    rw [map_cons, mem_cons, not_or] at h
    obtain ⟨k, v⟩ := item
    rw [OrderedDict.lookup_cons_ite, if_neg h.1, ih h.2]

theorem lookup_mergeItems_of_none (h : mergeItems base override = .ok merged)
    (hkey : override.lookup key = none) :
    merged.lookup key = base.lookup key := by
  induction override generalizing base with
  | nil => rw [Except.ok.inj h]
  | cons item override ih =>
    obtain ⟨k, v⟩ := item
    obtain ⟨y, -, hrest⟩ := mergeItems_cons_eq_ok h
    rw [OrderedDict.lookup_cons_ite] at hkey
    split_ifs at hkey with hk
    rw [ih hrest hkey, OrderedDict.lookup_setItems, if_neg hk]

theorem lookup_mergeItems_of_some (hnodup : (override.map (·.1)).Nodup)
    (h : mergeItems base override = .ok merged) (hkey : override.lookup key = some v) :
    ∃ y, mergeAt (base.lookup key) v = .ok y ∧ merged.lookup key = some y := by
  induction override generalizing base with
  | nil => cases hkey
  | cons item override ih =>
    obtain ⟨k, w⟩ := item
    obtain ⟨hk, hnodup⟩ := nodup_cons.mp hnodup
    obtain ⟨y, hy, hrest⟩ := mergeItems_cons_eq_ok h
    rw [OrderedDict.lookup_cons_ite] at hkey
    split_ifs at hkey with heq
    · obtain rfl := Option.some.inj hkey
      subst heq
      refine ⟨y, hy, ?_⟩
      rw [lookup_mergeItems_of_none hrest (lookup_eq_none_of_not_mem hk),
        OrderedDict.lookup_setItems, if_pos rfl]
    · obtain ⟨y', hy', hlookup⟩ := ih hnodup hrest hkey
      rw [OrderedDict.lookup_setItems, if_neg heq] at hy'
      exact ⟨y', hy', hlookup⟩

variable {y : Yaml}

theorem mergeValue_dict {base override : YamlDict}
    (h : mergeValue (.dict base) (.dict override) = .ok y) :
    ∃ merged, mergeItems base override = .ok merged ∧ y = .dict merged := by
  rw [mergeValue] at h
  cases hitems : mergeItems base override with
  | error e => simp only [hitems, Functor.map, Except.map, reduceCtorEq] at h
  | ok merged =>
    simp only [hitems, Functor.map, Except.map, Except.ok.injEq] at h
    exact ⟨merged, rfl, h.symm⟩

theorem mergeValue_list {base items : List Yaml} (h : mergeValue (.list base) (.list items) = .ok y) :
    ∃ merged, mergeList base items = .ok merged ∧ y = .list merged := by
  rw [mergeValue] at h
  cases hlist : mergeList base items with
  | error e => simp only [hlist, Functor.map, Except.map, reduceCtorEq] at h
  | ok merged =>
    simp only [hlist, Functor.map, Except.map, Except.ok.injEq] at h
    exact ⟨merged, rfl, h.symm⟩

variable {old : Option Yaml}

theorem mergeAt_dict {override : YamlDict} (h : mergeAt old (.dict override) = .ok y) :
    y = .dict override ∨
      ∃ base merged, old = some (.dict base) ∧ mergeItems base override = .ok merged ∧
        y = .dict merged := by
  cases old with
  | none => exact Or.inl (Except.ok.inj h).symm
  | some old =>
    cases old with
    | atom a => exact Or.inl (Except.ok.inj h).symm
    | list items => exact Or.inl (Except.ok.inj h).symm
    | dict base =>
      obtain ⟨merged, hitems, hy⟩ := mergeValue_dict h
      exact Or.inr ⟨base, merged, rfl, hitems, hy⟩

theorem mergeAt_list (h : mergeAt old (.list items) = .ok y) : y = .list items ∨
      ∃ base merged, old = some (.list base) ∧ mergeList base items = .ok merged ∧
        y = .list merged := by
  cases old with
  | none => exact Or.inl (Except.ok.inj h).symm
  | some old =>
    cases old with
    | atom a => exact Or.inl (Except.ok.inj h).symm
    | dict base => exact Or.inl (Except.ok.inj h).symm
    | list base =>
      obtain ⟨merged, hlist, hy⟩ := mergeValue_list h
      exact Or.inr ⟨base, merged, rfl, hlist, hy⟩

theorem mergeAt_atom {a : YamlAtom} (h : mergeAt old (.atom a) = .ok y) : y = .atom a := by
  cases old with
  | none => exact (Except.ok.inj h).symm
  | some old => exact (Except.ok.inj h).symm

/-- No dictionary of a configuration has a key twice. -/
abbrev Distinct (v : Yaml) : Prop := ObjectHeap.Distinct v

variable {path : List String}

theorem find_of_override (hdistinct : Distinct (.dict override))
    (h : mergeItems base override = .ok merged) (hpath : find path (.dict override) = some v) :
    ∃ y old, find path (.dict merged) = some y ∧ mergeAt old v = .ok y ∧
      ∀ x ∈ old, find path (.dict base) = some x := by
  induction path generalizing base override merged with
  | nil =>
    obtain rfl := Option.some.inj hpath
    refine ⟨.dict merged, some (.dict base), rfl, ?_, fun x hx => hx⟩
    rw [mergeAt, mergeValue, h]
    rfl
  | cons key path ih =>
    obtain ⟨w, hw, hrest⟩ := Option.bind_eq_some_iff.mp hpath
    obtain ⟨hnodup, hitems⟩ : (override.map (·.1)).Nodup ∧ ∀ item ∈ override, Distinct item.2 := by
      cases hdistinct with
      | dict hnodup hitems => exact ⟨hnodup, hitems⟩
    obtain ⟨y, hy, hlookup⟩ := lookup_mergeItems_of_some hnodup h hw
    -- a value that takes the place of the one in the base
    have hreplaced : y = w → ∃ y old, find (key :: path) (.dict merged) = some y ∧
        mergeAt old v = .ok y ∧ ∀ x ∈ old, find (key :: path) (.dict base) = some x := by
      rintro rfl
      exact ⟨v, none, by rw [find_dict, hlookup]; exact hrest, rfl, nofun⟩
    by_cases hnil : path = []
    · subst hnil
      rw [find_nil] at hrest
      obtain rfl := Option.some.inj hrest
      refine ⟨y, base.lookup key, by rw [find_dict, hlookup]; exact find_nil y, hy,
        fun x hx => ?_⟩
      rw [find_dict, Option.mem_def.mp hx]
      exact find_nil x
    · cases w with
      | atom a => rw [find_of_not_isDict hnil rfl] at hrest; cases hrest
      | list items => rw [find_of_not_isDict hnil rfl] at hrest; cases hrest
      | dict override' =>
        rcases mergeAt_dict hy with hy | ⟨base', merged', hbase, hmerge, rfl⟩
        · exact hreplaced hy
        · obtain ⟨before, after, heq, -⟩ := lookup_eq_some_iff.mp hw
          have hmem : (key, Nested.dict override') ∈ override := by
            rw [heq]
            exact mem_append_right _ mem_cons_self
          obtain ⟨y', old, hfind, hat, hold⟩ := ih (hitems _ hmem) hmerge hrest
          refine ⟨y', old, by rw [find_dict, hlookup]; exact hfind, hat, fun x hx => ?_⟩
          rw [find_dict, hbase]
          exact hold x hx

/-- Above the path, the override has nothing or dictionaries. -/
def Open (path : List String) (override : YamlDict) : Prop :=
  ∀ before after, path = before ++ after → after ≠ [] →
    ∀ v ∈ find before (.dict override), v.isDict = true

/-- At each path of the base that the override leaves open lies what the base has there, with what
the override has there merged into it. -/
theorem find_of_base {u : Yaml} (hdistinct : Distinct (.dict override))
    (h : mergeItems base override = .ok merged) (hpath : find path (.dict base) = some u)
    (hopen : Open path override) :
    ∃ y, find path (.dict merged) = some y ∧
      match find path (.dict override) with
      | none => y = u
      | some v => mergeValue u v = .ok y := by
  induction path generalizing base override merged with
  | nil =>
    obtain rfl := Option.some.inj hpath
    refine ⟨.dict merged, rfl, ?_⟩
    show mergeValue (.dict base) (.dict override) = .ok (.dict merged)
    rw [mergeValue, h]
    rfl
  | cons key path ih =>
    obtain ⟨w, hw, hrest⟩ := Option.bind_eq_some_iff.mp hpath
    obtain ⟨hnodup, hitems⟩ : (override.map (·.1)).Nodup ∧ ∀ item ∈ override, Distinct item.2 := by
      cases hdistinct with
      | dict hnodup hitems => exact ⟨hnodup, hitems⟩
    cases hv : override.lookup key with
    | none =>
      refine ⟨u, ?_, ?_⟩
      · rw [find_dict, lookup_mergeItems_of_none h hv, hw]
        exact hrest
      · rw [find_dict, hv]
        rfl
    | some v =>
      obtain ⟨y, hy, hlookup⟩ := lookup_mergeItems_of_some hnodup h hv
      rw [hw] at hy
      by_cases hnil : path = []
      · subst hnil
        rw [find_nil] at hrest
        obtain rfl := Option.some.inj hrest
        refine ⟨y, by rw [find_dict, hlookup]; exact find_nil y, ?_⟩
        rw [find_dict, hv, Option.bind_some, find_nil]
        exact hy
      · -- both have a dictionary at the key
        have hdict : v.isDict = true := by
          refine hopen [key] path rfl hnil v ?_
          rw [find_dict, hv]
          exact find_nil v
        obtain ⟨override', rfl⟩ := exists_of_isDict hdict
        cases w with
        | atom a => rw [find_of_not_isDict hnil rfl] at hrest; cases hrest
        | list items => rw [find_of_not_isDict hnil rfl] at hrest; cases hrest
        | dict base' =>
          obtain ⟨merged', hmerge, rfl⟩ := mergeValue_dict hy
          obtain ⟨before, after, heq, -⟩ := lookup_eq_some_iff.mp hv
          have hmem : (key, Nested.dict override') ∈ override := by
            rw [heq]
            exact mem_append_right _ mem_cons_self
          have hopen' : Open path override' := by
            intro before after hsplit hafter x hx
            refine hopen (key :: before) after (by rw [hsplit, cons_append]) hafter x ?_
            rw [find_dict, hv]
            exact hx
          obtain ⟨y', hfind, hmatch⟩ := ih (hitems _ hmem) hmerge hrest hopen'
          refine ⟨y', by rw [find_dict, hlookup]; exact hfind, ?_⟩
          rw [find_dict, hv]
          exact hmatch

/-! ## §3 What is kept -/

/-- No two different entries of the list have one identity. -/
abbrev OneEntryEach (items : List Yaml) : Prop := OneEach identityOf equalTo items

theorem entries_of_override (hdistinct : Distinct (.dict override))
    (h : mergeItems base override = .ok merged)
    (hpath : find path (.dict override) = some (.list items)) (hone : OneEntryEach items) :
    ∃ result, find path (.dict merged) = some (.list result) ∧
      ∀ v ∈ items, ∃ e ∈ result, equalTo e = equalTo v := by
  obtain ⟨y, old, hfind, hat, -⟩ := find_of_override hdistinct h hpath
  rcases mergeAt_list hat with rfl | ⟨base', result, -, hlist, rfl⟩
  · exact ⟨items, hfind, fun v hv => ⟨v, hv, rfl⟩⟩
  · obtain ⟨-, rfl⟩ := mergeList_eq_ok_iff.mp hlist
    exact ⟨_, hfind, (merged_merge respects_identityOf hone base').present⟩

/-- An entry of a list of the base is in the list at its path, unless an entry of the override with
its identity has replaced it. -/
theorem entries_of_base (hdistinct : Distinct (.dict override))
    (h : mergeItems base override = .ok merged)
    (hpath : find path (.dict base) = some (.list items)) (hopen : Open path override)
    (hlist : ∀ v ∈ find path (.dict override), v.isList = true) :
    ∃ result, find path (.dict merged) = some (.list result) ∧ ∀ b ∈ items, b ∈ result ∨
      ∃ others, find path (.dict override) = some (.list others) ∧
        ∃ v ∈ others, identityOf b ≠ none ∧ identityOf v = identityOf b := by
  obtain ⟨y, hfind, hy⟩ := find_of_base hdistinct h hpath hopen
  cases hoverride : find path (.dict override) with
  | none =>
    rw [hoverride] at hy
    obtain rfl : y = .list items := hy
    exact ⟨items, hfind, fun b hb => Or.inl hb⟩
  | some v =>
    rw [hoverride] at hy
    cases v with
    | atom | dict => cases hlist _ hoverride
    | list others =>
      obtain ⟨result, hmerge, rfl⟩ := mergeValue_list hy
      obtain ⟨-, rfl⟩ := mergeList_eq_ok_iff.mp hmerge
      refine ⟨_, hfind, fun b hb => ?_⟩
      exact (mem_merge_of_mem_base hb).imp_right fun hreplaced => ⟨others, rfl, hreplaced⟩

/-! ## §4 The second merge -/

/-- An override whose lists have at most one entry with an identity each, and no entry for which a
`TypeError` comes up. -/
inductive Clear : Yaml → Prop
  | atom (a : YamlAtom) : Clear (.atom a)
  | list {items : List Yaml} (hidentity : ∀ v ∈ items, HasIdentity v) (hone : OneEntryEach items) :
      Clear (.list items)
  | dict {items : YamlDict} (hnodup : (items.map (·.1)).Nodup) (h : ∀ item ∈ items, Clear item.2) :
      Clear (.dict items)

theorem map_setItems {items : YamlDict} {x y : Yaml} (hkey : items.lookup key = some x)
    (heq : equalTo y = equalTo x) :
    (OrderedDict.setItems key y items).map (fun item => (item.1, equalTo item.2)) =
      items.map fun item => (item.1, equalTo item.2) := by
  induction items with
  | nil => cases hkey
  | cons item items ih =>
    obtain ⟨k, v⟩ := item
    rw [OrderedDict.lookup_cons_ite] at hkey
    rw [OrderedDict.setItems]
    by_cases hk : k = key
    · subst hk
      rw [if_pos rfl] at hkey
      rw [if_pos rfl, map_cons, map_cons, heq, Option.some.inj hkey]
    · rw [if_neg fun h => hk h.symm] at hkey
      rw [if_neg hk, map_cons, map_cons, ih hkey]

theorem mergeItems_again {result override : YamlDict} (hnodup : (override.map (·.1)).Nodup)
    (h : ∀ item ∈ override, ∃ x y, result.lookup item.1 = some x ∧ mergeValue x item.2 = .ok y ∧
      equalTo y = equalTo x) :
    ∃ again, mergeItems result override = .ok again ∧
      again.map (fun item => (item.1, equalTo item.2)) =
        result.map fun item => (item.1, equalTo item.2) := by
  induction override generalizing result with
  | nil => exact ⟨result, rfl, rfl⟩
  | cons item override ih =>
    obtain ⟨key, v⟩ := item
    obtain ⟨hkey, hnodup⟩ := nodup_cons.mp hnodup
    obtain ⟨⟨x, y, hx, hy, heq⟩, hrest⟩ := forall_mem_cons.mp h
    have hstep : ∀ item ∈ override, ∃ x' y',
        (OrderedDict.setItems key y result).lookup item.1 = some x' ∧
          mergeValue x' item.2 = .ok y' ∧ equalTo y' = equalTo x' := by
        intro item hitem
        obtain ⟨x', y', hx', hy', heq'⟩ := hrest item hitem
        refine ⟨x', y', ?_, hy', heq'⟩
        have hmem : item.1 ∈ override.map (·.1) := mem_map_of_mem hitem
        have hne : item.1 ≠ key := fun heq => hkey (heq ▸ hmem)
        rw [OrderedDict.lookup_setItems, if_neg hne, hx']
    obtain ⟨again, hagain, hmap⟩ := ih hnodup hstep
    refine ⟨again, ?_, hmap.trans (map_setItems hx heq)⟩
    rw [mergeItems_cons, show result.lookup key = some x from hx, mergeAt, hy]
    exact hagain

theorem equalTo_dict_of_map {items others : YamlDict}
    (h : items.map (fun item => (item.1, equalTo item.2)) =
      others.map fun item => (item.1, equalTo item.2)) :
    equalTo (.dict items) = equalTo (.dict others) := by
  rw [equalTo, equalTo, canon, canon, canonItems_eq, canonItems_eq, h]

theorem equalTo_list_of_map {items others : List Yaml}
    (h : items.map equalTo = others.map equalTo) :
    equalTo (.list items) = equalTo (.list others) := by
  rw [equalTo, equalTo, canon, canon, canonList_eq, canonList_eq, h]

theorem mergeAt_again (hclear : Clear v) (h : mergeAt old v = .ok y) :
    ∃ again, mergeValue y v = .ok again ∧ equalTo again = equalTo y := by
  induction hclear generalizing old y with
  | atom a =>
    obtain rfl := mergeAt_atom h
    exact ⟨_, rfl, rfl⟩
  | @list items hidentity hone =>
    rcases mergeAt_list h with rfl | ⟨base, result, -, hlist, rfl⟩
    · have hself := mergeList_eq_ok_iff.mpr
        ⟨forall_mem_append.mpr ⟨hidentity, hidentity⟩, rfl⟩
      refine ⟨_, by rw [mergeValue, hself]; rfl, equalTo_list_of_map (map_merge_self hone)⟩
    · obtain ⟨hall, rfl⟩ := mergeList_eq_ok_iff.mp hlist
      obtain ⟨hbase, -⟩ := forall_mem_append.mp hall
      have hresult : ∀ e ∈ ListMerge.merge identityOf equalTo base items, HasIdentity e :=
        fun e he => ((merged_merge respects_identityOf hone base).source e he).elim (hbase e)
          (hidentity e)
      have hagain := mergeList_eq_ok_iff.mpr ⟨forall_mem_append.mpr ⟨hresult, hidentity⟩, rfl⟩
      exact ⟨_, by rw [mergeValue, hagain]; rfl,
        equalTo_list_of_map (map_merge_merge respects_identityOf hone base)⟩
  | @dict items hnodup _ ih =>
    have hlookup : ∀ item ∈ items, items.lookup item.1 = some item.2 := fun item hitem =>
      OrderedDict.get?_eq_some_iff (d := ⟨items, hnodup⟩).mpr hitem
    rcases mergeAt_dict h with rfl | ⟨base, merged, -, hmerge, rfl⟩
    · have hself : ∀ item ∈ items, ∃ x y, items.lookup item.1 = some x ∧
          mergeValue x item.2 = .ok y ∧ equalTo y = equalTo x := by
        intro item hitem
        have hnone : mergeAt none item.2 = .ok item.2 := rfl
        obtain ⟨y, hy, heq⟩ := ih item hitem hnone
        exact ⟨item.2, y, hlookup item hitem, hy, heq⟩
      obtain ⟨again, hagain, hmap⟩ := mergeItems_again hnodup hself
      exact ⟨_, by rw [mergeValue, hagain]; rfl, equalTo_dict_of_map hmap⟩
    · have hmerged : ∀ item ∈ items, ∃ x y, merged.lookup item.1 = some x ∧
          mergeValue x item.2 = .ok y ∧ equalTo y = equalTo x := by
        intro item hitem
        obtain ⟨x, hx, hxlookup⟩ := lookup_mergeItems_of_some hnodup hmerge (hlookup item hitem)
        obtain ⟨y, hy, heq⟩ := ih item hitem hx
        exact ⟨x, y, hxlookup, hy, heq⟩
      obtain ⟨again, hagain, hmap⟩ := mergeItems_again hnodup hmerged
      exact ⟨_, by rw [mergeValue, hagain]; rfl, equalTo_dict_of_map hmap⟩

/-! ## §5 Merged configurations -/

end Ace3.Collectors
