import Mathlib.Data.List.Basic
import Mathlib.Data.List.MinMax

/-!
# Tables with an AUTO_INCREMENT Key

A table of rows of type `α` whose ids are handed out in increasing order and never again. The
structure carries that its ids are distinct and were all handed out, so that what is once true of an
id stays true whatever is inserted or deleted later.
-/

namespace Ace3.Lib

open List

/-- The rows of a table with their ids, and the next id it will hand out. -/
structure Table (α : Type*) where
  rows : List (Nat × α)
  nextId : Nat
  id_lt : ∀ row ∈ rows, row.1 < nextId
  id_inj : ∀ row ∈ rows, ∀ row' ∈ rows, row.1 = row'.1 → row = row'

namespace Table

variable {α : Type*}

/-! ## §1 Operations -/

def empty : Table α where
  rows := []
  nextId := 1
  id_lt := nofun
  id_inj := nofun

def insert (table : Table α) (value : α) : Table α where
  rows := table.rows ++ [(table.nextId, value)]
  nextId := table.nextId + 1
  id_lt := by
    intro row hrow
    rcases mem_append.mp hrow with hrow | hrow
    · exact Nat.lt_succ_of_lt (table.id_lt row hrow)
    · rw [mem_singleton.mp hrow]
      exact Nat.lt_succ_self _
  id_inj := by
    intro row hrow row' hrow' hid
    rcases mem_append.mp hrow with hrow | hrow <;>
      rcases mem_append.mp hrow' with hrow' | hrow'
    · exact table.id_inj row hrow row' hrow' hid
    · rw [mem_singleton.mp hrow'] at hid
      exact absurd hid (Nat.ne_of_lt (table.id_lt row hrow))
    · rw [mem_singleton.mp hrow] at hid
      exact absurd hid.symm (Nat.ne_of_lt (table.id_lt row' hrow'))
    · rw [mem_singleton.mp hrow, mem_singleton.mp hrow']

/-- `DELETE ... WHERE`: the rows that satisfy the condition are removed. -/
def deleteWhere (table : Table α) (condition : Nat × α → Bool) : Table α where
  rows := table.rows.filter (!condition ·)
  nextId := table.nextId
  id_lt := fun row hrow => table.id_lt row (mem_of_mem_filter hrow)
  id_inj := fun row hrow row' hrow' =>
    table.id_inj row (mem_of_mem_filter hrow) row' (mem_of_mem_filter hrow')

def updateRow (condition : Nat × α → Bool) (set : α → α) (row : Nat × α) : Nat × α :=
  if condition row then (row.1, set row.2) else row

variable {condition : Nat × α → Bool} {row : Nat × α}

@[simp] theorem updateRow_fst {set : α → α} :
    (updateRow condition set row).1 = row.1 := by
  unfold updateRow
  split <;> rfl

/-- `UPDATE ... SET ... WHERE`: the rows that satisfy the condition are changed in place. -/
def updateWhere (table : Table α) (condition : Nat × α → Bool) (set : α → α) : Table α where
  rows := table.rows.map (updateRow condition set)
  nextId := table.nextId
  id_lt := by
    intro row hrow
    obtain ⟨old, hold, rfl⟩ := mem_map.mp hrow
    rw [updateRow_fst]
    exact table.id_lt old hold
  id_inj := by
    intro row hrow row' hrow' hid
    obtain ⟨old, hold, rfl⟩ := mem_map.mp hrow
    obtain ⟨old', hold', rfl⟩ := mem_map.mp hrow'
    rw [updateRow_fst, updateRow_fst] at hid
    rw [table.id_inj old hold old' hold' hid]

/-- `SELECT ... WHERE id = %s` returns a row. -/
def hasId (table : Table α) (id : Nat) : Bool :=
  table.rows.any (·.1 = id)

/-- `SELECT ... WHERE ... ORDER BY id ASC LIMIT 1`: the oldest such row. -/
def first? (table : Table α) (condition : Nat × α → Bool) : Option (Nat × α) :=
  (table.rows.filter condition).argmin (·.1)

/-- `SELECT ... WHERE ... ORDER BY id DESC LIMIT 1`: the newest such row. -/
def last? (table : Table α) (condition : Nat × α → Bool) : Option (Nat × α) :=
  (table.rows.filter condition).argmax (·.1)

variable {table : Table α}

@[simp] theorem mem_rows_insert {value : α} :
    row ∈ (table.insert value).rows ↔ row ∈ table.rows ∨ row = (table.nextId, value) := by
  simp [insert]

@[simp] theorem mem_rows_deleteWhere :
    row ∈ (table.deleteWhere condition).rows ↔ row ∈ table.rows ∧ ¬ condition row := by
  simp [deleteWhere]

theorem mem_rows_updateWhere {set : α → α} :
    row ∈ (table.updateWhere condition set).rows ↔
      ∃ old ∈ table.rows, updateRow condition set old = row := by
  simp only [updateWhere, mem_map]

theorem hasId_iff {id : Nat} :
    table.hasId id ↔ ∃ value, (id, value) ∈ table.rows := by
  simp only [hasId, any_eq_true, decide_eq_true_eq]
  constructor
  · rintro ⟨⟨_, value⟩, hrow, rfl⟩
    exact ⟨value, hrow⟩
  · rintro ⟨value, hrow⟩
    exact ⟨_, hrow, rfl⟩

theorem first?_eq_some_iff :
    table.first? condition = some row ↔
      (row ∈ table.rows ∧ condition row) ∧
        ∀ other ∈ table.rows, condition other → row.1 ≤ other.1 := by
  constructor
  · intro h
    refine ⟨mem_filter.mp (argmin_mem h), fun other hother hcondition => ?_⟩
    exact le_of_mem_argmin (mem_filter.mpr ⟨hother, hcondition⟩) h
  · rintro ⟨hrow, hleast⟩
    cases hfirst : table.first? condition with
    | none =>
      have hempty : table.rows.filter condition = [] := argmin_eq_none.mp hfirst
      exact absurd (mem_filter.mpr hrow) (hempty ▸ not_mem_nil)
    | some first =>
      obtain ⟨hmem, hcondition⟩ := mem_filter.mp (argmin_mem hfirst)
      -- each of the two is at most the other
      have hle : first.1 ≤ row.1 := le_of_mem_argmin (mem_filter.mpr hrow) hfirst
      have hid : first.1 = row.1 := Nat.le_antisymm hle (hleast first hmem hcondition)
      rw [table.id_inj first hmem row hrow.1 hid]

theorem last?_eq_some_iff :
    table.last? condition = some row ↔
      (row ∈ table.rows ∧ condition row) ∧
        ∀ other ∈ table.rows, condition other → other.1 ≤ row.1 := by
  constructor
  · intro h
    refine ⟨mem_filter.mp (argmax_mem h), fun other hother hcondition => ?_⟩
    exact le_of_mem_argmax (mem_filter.mpr ⟨hother, hcondition⟩) h
  · rintro ⟨hrow, hgreatest⟩
    cases hlast : table.last? condition with
    | none =>
      have hempty : table.rows.filter condition = [] := argmax_eq_none.mp hlast
      exact absurd (mem_filter.mpr hrow) (hempty ▸ not_mem_nil)
    | some last =>
      obtain ⟨hmem, hcondition⟩ := mem_filter.mp (argmax_mem hlast)
      have hle : row.1 ≤ last.1 := le_of_mem_argmax (mem_filter.mpr hrow) hlast
      have hid : last.1 = row.1 := Nat.le_antisymm (hgreatest last hmem hcondition) hle
      rw [table.id_inj last hmem row hrow.1 hid]

theorem first?_eq_none_iff :
    table.first? condition = none ↔ ∀ row ∈ table.rows, ¬ condition row := by
  rw [first?, argmin_eq_none, filter_eq_nil_iff]

/-! ## §2 Facts about an id that stay true -/

/-- The id was handed out, and a row that still has it is this one. -/
def Issued (table : Table α) (row : Nat × α) : Prop :=
  row.1 < table.nextId ∧ ∀ row' ∈ table.rows, row'.1 = row.1 → row' = row

/-- The id was handed out, and no row has it any more. -/
def Gone (table : Table α) (id : Nat) : Prop :=
  id < table.nextId ∧ ∀ row ∈ table.rows, row.1 ≠ id

theorem issued_of_mem (h : row ∈ table.rows) :
    table.Issued row :=
  ⟨table.id_lt row h, fun row' hrow' hid => table.id_inj row' hrow' row h hid⟩

theorem Issued.insert (h : table.Issued row) (value : α) :
    (table.insert value).Issued row := by
  refine ⟨Nat.lt_succ_of_lt h.1, fun row' hrow' hid => ?_⟩
  rcases mem_rows_insert.mp hrow' with hrow' | rfl
  · exact h.2 row' hrow' hid
  · exact absurd hid (Nat.ne_of_gt h.1)

theorem Issued.deleteWhere (h : table.Issued row) (condition : Nat × α → Bool) :
    (table.deleteWhere condition).Issued row :=
  ⟨h.1, fun row' hrow' => h.2 row' (mem_rows_deleteWhere.mp hrow').1⟩

theorem Gone.insert {id : Nat} (h : table.Gone id) (value : α) :
    (table.insert value).Gone id := by
  refine ⟨Nat.lt_succ_of_lt h.1, fun row hrow => ?_⟩
  rcases mem_rows_insert.mp hrow with hrow | rfl
  · exact h.2 row hrow
  · exact Nat.ne_of_gt h.1

theorem Gone.deleteWhere {id : Nat} (h : table.Gone id) (condition : Nat × α → Bool) :
    (table.deleteWhere condition).Gone id :=
  ⟨h.1, fun row hrow => h.2 row (mem_rows_deleteWhere.mp hrow).1⟩

theorem Issued.gone_deleteWhere (h : table.Issued row) (hrow : condition row) :
    (table.deleteWhere condition).Gone row.1 := by
  refine ⟨h.1, fun row' hrow' hid => ?_⟩
  obtain ⟨hmem, hkept⟩ := mem_rows_deleteWhere.mp hrow'
  exact hkept (h.2 row' hmem hid ▸ hrow)

theorem Gone.not_mem (h : table.Gone row.1) :
    row ∉ table.rows :=
  fun hrow => h.2 row hrow rfl

theorem Issued.eq_of_hasId {row row' : Nat × α} (h : table.Issued row) (h' : table.Issued row')
    (hid : row.1 = row'.1) (hthere : table.hasId row.1) : row = row' := by
  obtain ⟨value, hmem⟩ := hasId_iff.mp hthere
  exact (h.2 _ hmem rfl).symm.trans (h'.2 _ hmem hid)

end Table

end Ace3.Lib
