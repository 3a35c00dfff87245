import Ace3.Lib.Table
import Mathlib.Data.List.AList

/-!
# Catalogs

A table with an AUTO_INCREMENT id and a unique key: each key has at most one row. Rows are only
ever added, with `INSERT IGNORE`, so the id of a key never changes.
-/

namespace Ace3.Lib

open List

variable {α κ : Type*}

structure Catalog (key : α → κ) extends Table α where
  key_inj : ∀ row ∈ rows, ∀ row' ∈ rows, key row.2 = key row'.2 → row = row'

namespace Catalog

variable {key : α → κ} [DecidableEq κ]

/-! ## §1 Statements -/

def insertIgnore (catalog : Catalog key) (value : α) : Catalog key :=
  if h : ∃ row ∈ catalog.rows, key row.2 = key value then catalog
  else
    { catalog.toTable.insert value with
      key_inj := by
        intro row hrow row' hrow' hkey
        rcases Table.mem_rows_insert.mp hrow with hrow | rfl <;>
          rcases Table.mem_rows_insert.mp hrow' with hrow' | rfl
        · exact catalog.key_inj row hrow row' hrow' hkey
        · exact absurd ⟨row, hrow, hkey⟩ h
        · exact absurd ⟨row', hrow', hkey.symm⟩ h
        · rfl }

def selectKeys (catalog : Catalog key) (keys : List κ) : List (Nat × α) :=
  catalog.rows.filter (key ·.2 ∈ keys)

def idOf (catalog : Catalog key) (k : κ) : Option Nat :=
  (catalog.rows.find? (key ·.2 = k)).map (·.1)

variable {catalog : Catalog key} {id : Nat}

theorem idOf_eq_some {k : κ} :
    catalog.idOf k = some id ↔ ∃ value, (id, value) ∈ catalog.rows ∧ key value = k := by
  constructor
  · intro h
    obtain ⟨row, hfind, rfl⟩ := Option.map_eq_some_iff.mp h
    exact ⟨row.2, List.mem_of_find?_eq_some hfind, by simpa using List.find?_some hfind⟩
  · rintro ⟨value, hrow, rfl⟩
    cases hfind : catalog.rows.find? (key ·.2 = key value) with
    | none => simpa using List.find?_eq_none.mp hfind _ hrow
    | some row =>
      have hsame := catalog.key_inj row (List.mem_of_find?_eq_some hfind) _ hrow
        (by simpa using List.find?_some hfind)
      simp [idOf, hfind, hsame]

theorem exists_idOf (h : catalog.toTable.hasId id) :
    ∃ k, catalog.idOf k = some id := by
  obtain ⟨value, hrow⟩ := Table.hasId_iff.mp h
  exact ⟨key value, idOf_eq_some.mpr ⟨value, hrow, rfl⟩⟩

theorem hasId_of_idOf {k : κ} (h : catalog.idOf k = some id) :
    catalog.toTable.hasId id := by
  obtain ⟨value, hrow, -⟩ := idOf_eq_some.mp h
  exact Table.hasId_iff.mpr ⟨value, hrow⟩

def Grows (catalog catalog' : Catalog key) : Prop :=
  ∀ row ∈ catalog.rows, row ∈ catalog'.rows

omit [DecidableEq κ] in
theorem Grows.refl (catalog : Catalog key) : catalog.Grows catalog := fun _ hrow => hrow

omit [DecidableEq κ] in
theorem Grows.trans {first second third : Catalog key} (h : first.Grows second)
    (h' : second.Grows third) : first.Grows third := fun row hrow => h' row (h row hrow)

theorem Grows.idOf {catalog catalog' : Catalog key} (h : catalog.Grows catalog') {k : κ}
    (hid : catalog.idOf k = some id) : catalog'.idOf k = some id := by
  obtain ⟨value, hrow, hkey⟩ := idOf_eq_some.mp hid
  exact idOf_eq_some.mpr ⟨value, h _ hrow, hkey⟩

theorem Grows.hasId {catalog catalog' : Catalog key} (h : catalog.Grows catalog')
    (hid : catalog.toTable.hasId id) : catalog'.toTable.hasId id := by
  obtain ⟨k, hk⟩ := exists_idOf hid
  exact hasId_of_idOf (h.idOf hk)

theorem grows_insertIgnore (catalog : Catalog key) (value : α) :
    catalog.Grows (catalog.insertIgnore value) := by
  intro row hrow
  unfold insertIgnore
  split
  · exact hrow
  · exact Table.mem_rows_insert.mpr (.inl hrow)

theorem idOf_insertIgnore (catalog : Catalog key) (value : α) :
    ((catalog.insertIgnore value).idOf (key value)).isSome := by
  unfold insertIgnore
  split
  next h =>
    obtain ⟨⟨id, value'⟩, hrow, hkey⟩ := h
    exact Option.isSome_iff_exists.mpr ⟨id, idOf_eq_some.mpr ⟨value', hrow, hkey⟩⟩
  next =>
    exact Option.isSome_iff_exists.mpr
      ⟨_, idOf_eq_some.mpr ⟨value, Table.mem_rows_insert.mpr (.inr rfl), rfl⟩⟩

theorem grows_foldl_insertIgnore (catalog : Catalog key) (values : List α) :
    catalog.Grows (values.foldl insertIgnore catalog) :=
  List.foldlRecOn (motive := catalog.Grows) values _ (.refl _) fun _ h value _ =>
    h.trans (grows_insertIgnore _ value)

theorem idOf_foldl_insertIgnore (catalog : Catalog key) {values : List α} {value : α}
    (h : value ∈ values) : ((values.foldl insertIgnore catalog).idOf (key value)).isSome := by
  induction values generalizing catalog with
  | nil => simp at h
  | cons first values ih =>
    rcases mem_cons.mp h with rfl | h
    · obtain ⟨id, hid⟩ := Option.isSome_iff_exists.mp (idOf_insertIgnore catalog value)
      exact Option.isSome_iff_exists.mpr ⟨id, (grows_foldl_insertIgnore _ values).idOf hid⟩
    · exact ih _ h

/-! ## §2 Dictionaries from keys to ids -/

def fill (key : α → κ) (ids : AList fun _ : κ => Nat) (rows : List (Nat × α)) :
    AList fun _ : κ => Nat :=
  rows.foldl (fun ids row => ids.insert (key row.2) row.1) ids

theorem lookup_fill {rows : List (Nat × α)} (hrows : ∀ row ∈ rows, row ∈ catalog.rows)
    (ids : AList fun _ : κ => Nat) (k : κ) :
    (fill key ids rows).lookup k =
      if k ∈ rows.map (key ·.2) then catalog.idOf k else ids.lookup k := by
  induction rows generalizing ids with
  | nil => rfl
  | cons row rows ih =>
    have hrest := ih (fun row' hrow' => hrows row' (.tail _ hrow')) (ids.insert (key row.2) row.1)
    have hid : catalog.idOf (key row.2) = some row.1 :=
      idOf_eq_some.mpr ⟨row.2, hrows row (.head _), rfl⟩
    simp only [fill, foldl_cons] at hrest ⊢
    rw [hrest]
    by_cases hkey : k = key row.2
    · subst hkey
      simp [hid]
    · simp only [map_cons, mem_cons, hkey, false_or, ne_eq, not_false_eq_true,
        AList.lookup_insert_ne]

theorem mem_values {ids : AList fun _ : κ => Nat} :
    id ∈ ids.entries.map (·.2) ↔ ∃ k, ids.lookup k = some id := by
  simp only [mem_map]
  constructor
  · rintro ⟨⟨k, id⟩, hentry, rfl⟩
    exact ⟨k, AList.mem_lookup_iff.mpr hentry⟩
  · rintro ⟨k, hk⟩
    exact ⟨⟨k, id⟩, AList.mem_lookup_iff.mp hk, rfl⟩

theorem foldl_fill {γ : Type*} (rowsOf : γ → List (Nat × α)) (lists : List γ)
    (ids : AList fun _ : κ => Nat) :
    lists.foldl (fun ids list => fill key ids (rowsOf list)) ids =
      fill key ids (lists.flatMap rowsOf) := by
  induction lists generalizing ids with
  | nil => rfl
  | cons list lists ih =>
    rw [foldl_cons, ih, flatMap_cons]
    exact (foldl_append ..).symm

theorem lookup_fill_selectKeys (catalog : Catalog key) (keys : List κ)
    (ids : AList fun _ : κ => Nat) (k : κ) :
    (fill key ids (catalog.selectKeys keys)).lookup k =
      if k ∈ keys then (catalog.idOf k).or (ids.lookup k) else ids.lookup k := by
  have hrows : ∀ row ∈ catalog.selectKeys keys, row ∈ catalog.rows :=
    fun row hrow => mem_of_mem_filter hrow
  have hmem : k ∈ (catalog.selectKeys keys).map (key ·.2) ↔
      k ∈ keys ∧ (catalog.idOf k).isSome := by
    simp only [selectKeys, mem_map, mem_filter, decide_eq_true_eq,
      Option.isSome_iff_exists, idOf_eq_some]
    constructor
    · rintro ⟨⟨id, value⟩, ⟨hrow, hkey⟩, rfl⟩
      exact ⟨hkey, id, value, hrow, rfl⟩
    · rintro ⟨hkey, id, value, hrow, rfl⟩
      exact ⟨(id, value), ⟨hrow, hkey⟩, rfl⟩
  simp only [lookup_fill hrows, hmem]
  by_cases hk : k ∈ keys
  · cases hid : catalog.idOf k <;> simp [hk]
  · simp [hk]

theorem lookup_foldl_fill (catalog : Catalog key) (lists : List (List κ))
    (ids : AList fun _ : κ => Nat) (k : κ) :
    (lists.foldl (fun ids keys => fill key ids (catalog.selectKeys keys)) ids).lookup k =
      if k ∈ lists.flatten then (catalog.idOf k).or (ids.lookup k) else ids.lookup k := by
  induction lists generalizing ids with
  | nil => rfl
  | cons keys lists ih =>
    rw [foldl_cons, ih, lookup_fill_selectKeys, flatten_cons]
    by_cases hk : k ∈ keys <;> by_cases hrest : k ∈ lists.flatten <;>
      cases hid : catalog.idOf k <;> simp only [mem_append, hk, hrest, if_true, if_false,
        or_self, or_true, or_false, Option.none_or, Option.some_or]

end Catalog

end Ace3.Lib
