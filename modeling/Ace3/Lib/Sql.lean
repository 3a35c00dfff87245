import Mathlib.Data.List.Dedup

/-!
# Three-Valued Logic and Joins

What SQL queries are made of.
-/

namespace Ace3.Lib.Sql

open List

/-! ## §1 Conditions -/

abbrev Truth := Option Bool

namespace Truth

def not : Truth → Truth := Option.map Bool.not

def and : Truth → Truth → Truth
  | some true, some true => some true
  | some false, _ => some false
  | _, some false => some false
  | _, _ => none

def or : Truth → Truth → Truth
  | some false, some false => some false
  | some true, _ => some true
  | _, some true => some true
  | _, _ => none

def anyOf (conditions : List Truth) : Truth := conditions.foldr or (some false)

variable {t t' : Truth} {conditions : List Truth}

@[simp] theorem not_eq_true_iff : not t = some true ↔ t = some false := by
  cases t with
  | none => simp [not]
  | some b => cases b <;> simp [not]

@[simp] theorem and_eq_true_iff : and t t' = some true ↔ t = some true ∧ t' = some true := by
  rcases t with _ | _ | _ <;> rcases t' with _ | _ | _ <;> simp [and]

@[simp] theorem or_eq_true_iff : or t t' = some true ↔ t = some true ∨ t' = some true := by
  rcases t with _ | _ | _ <;> rcases t' with _ | _ | _ <;> simp [or]

@[simp] theorem or_eq_false_iff : or t t' = some false ↔ t = some false ∧ t' = some false := by
  rcases t with _ | _ | _ <;> rcases t' with _ | _ | _ <;> simp [or]

theorem anyOf_eq_true_iff : anyOf conditions = some true ↔ some true ∈ conditions := by
  induction conditions with
  | nil => simp [anyOf]
  | cons condition conditions ih =>
    have hcons : anyOf (condition :: conditions) = or condition (anyOf conditions) := rfl
    rw [hcons, or_eq_true_iff, ih, mem_cons, eq_comm]

theorem anyOf_eq_false_iff : anyOf conditions = some false ↔ ∀ t ∈ conditions, t = some false := by
  induction conditions with
  | nil => simp [anyOf]
  | cons condition conditions ih =>
    have hcons : anyOf (condition :: conditions) = or condition (anyOf conditions) := rfl
    rw [hcons, or_eq_false_iff, ih, forall_mem_cons]

end Truth

def holds {α : Type*} (column : Option α) (p : α → Bool) : Truth := column.map p

def equals {α : Type*} [DecidableEq α] (column column' : Option α) : Truth :=
  match column, column' with
  | some a, some b => some (a = b)
  | _, _ => none

def isNull {α : Type*} (column : Option α) : Truth := some column.isNone

/-- `EXISTS` of the rows of a table that meet a condition. -/
def existsIn {τ : Type*} (table : List τ) (condition : τ → Truth) : Truth :=
  some (table.any fun t => condition t = some true)

section Conditions

variable {α τ : Type*}

variable {column : Option α}

theorem holds_eq_true_iff {p : α → Bool} :
    holds column p = some true ↔ ∃ a, column = some a ∧ p a := by
  cases column <;> simp [holds]

theorem holds_eq_false_iff {p : α → Bool} :
    holds column p = some false ↔ column ≠ none ∧ holds column p ≠ some true := by
  cases column <;> simp [holds]

theorem equals_some_eq_true_iff [DecidableEq α] {a : α} :
    equals column (some a) = some true ↔ column = some a := by
  cases column <;> simp [equals]

theorem existsIn_eq_true_iff {table : List τ} {condition : τ → Truth} :
    existsIn table condition = some true ↔ ∃ t ∈ table, condition t = some true := by
  simp [existsIn]

theorem existsIn_eq_false_iff {table : List τ} {condition : τ → Truth} :
    existsIn table condition = some false ↔ existsIn table condition ≠ some true := by
  simp only [existsIn, ne_eq, Option.some.injEq, Bool.not_eq_true]

end Conditions

/-! ## §2 Joins -/

section Joins

variable {ρ τ : Type*}

def join (on : ρ → τ → Truth) (set : ρ → τ → ρ) (table : List τ) (rows : List ρ) : List ρ :=
  rows.flatMap fun row => (table.filter fun t => on row t = some true).map (set row)

/-- The same, where a row without a partner stays as it is. -/
def leftJoin (on : ρ → τ → Truth) (set : ρ → τ → ρ) (table : List τ) (rows : List ρ) : List ρ :=
  rows.flatMap fun row =>
    match table.filter fun t => on row t = some true with
    | [] => [row]
    | matched => matched.map (set row)

variable {on : ρ → τ → Truth} {set : ρ → τ → ρ} {table : List τ} {rows : List ρ} {row' : ρ}

theorem mem_join : row' ∈ join on set table rows ↔
    ∃ row ∈ rows, ∃ t ∈ table, on row t = some true ∧ row' = set row t := by
  simp only [join, mem_flatMap, mem_map, mem_filter, decide_eq_true_eq]
  refine exists_congr fun row => and_congr_right fun _ => exists_congr fun t => ?_
  rw [and_assoc, @eq_comm _ row']

theorem mem_leftJoin : row' ∈ leftJoin on set table rows ↔
    ∃ row ∈ rows, (∃ t ∈ table, on row t = some true ∧ row' = set row t) ∨
      (∀ t ∈ table, on row t ≠ some true) ∧ row' = row := by
  simp only [leftJoin, mem_flatMap]
  refine exists_congr fun row => and_congr_right fun _ => ?_
  cases hmatched : table.filter fun t => on row t = some true with
  | nil =>
    have hnone : ∀ t ∈ table, on row t ≠ some true := by
      intro t ht
      have hfilter := filter_eq_nil_iff.mp hmatched t ht
      simpa using hfilter
    constructor
    · intro hrow
      exact .inr ⟨hnone, mem_singleton.mp hrow⟩
    · rintro (⟨t, ht, hon, -⟩ | ⟨-, rfl⟩)
      · exact absurd hon (hnone t ht)
      · exact mem_cons_self
  | cons first rest =>
    have hmem : ∀ t, t ∈ first :: rest ↔ t ∈ table ∧ on row t = some true := by
      intro t
      rw [← hmatched, mem_filter, decide_eq_true_eq]
    simp only [mem_map, hmem]
    constructor
    · rintro ⟨t, ⟨ht, hon⟩, rfl⟩
      exact .inl ⟨t, ht, hon, rfl⟩
    · rintro (⟨t, ht, hon, rfl⟩ | ⟨hnone, -⟩)
      · exact ⟨t, ⟨ht, hon⟩, rfl⟩
      · have hfirst := (hmem first).mp mem_cons_self
        exact absurd hfirst.2 (hnone first hfirst.1)

theorem exists_mem_leftJoin {row : ρ} (hrow : row ∈ rows) :
    ∃ row' ∈ leftJoin on set table rows, row' = row ∨ ∃ t ∈ table, row' = set row t := by
  by_cases hpartner : ∃ t ∈ table, on row t = some true
  · obtain ⟨t, ht, hon⟩ := hpartner
    exact ⟨set row t, mem_leftJoin.mpr ⟨row, hrow, .inl ⟨t, ht, hon, rfl⟩⟩, .inr ⟨t, ht, rfl⟩⟩
  · refine ⟨row, mem_leftJoin.mpr ⟨row, hrow, .inr ⟨?_, rfl⟩⟩, .inl rfl⟩
    exact fun t ht hon => hpartner ⟨t, ht, hon⟩

theorem leftJoin_cons (row : ρ) : leftJoin on set table (row :: rows) =
    leftJoin on set table [row] ++ leftJoin on set table rows := by
  simp [leftJoin]

/-- Joined rows are distinct where the columns that a join sets tell the partners of a row apart and
the others (which `reset` leaves) the rows. -/
theorem nodup_leftJoin (reset : ρ → ρ) (hreset : ∀ row ∈ rows, reset row = row)
    (hset : ∀ row ∈ rows, ∀ t ∈ table, reset (set row t) = row)
    (hpartners : ∀ row ∈ rows, ∀ t ∈ table, ∀ t' ∈ table, on row t = some true →
      on row t' = some true → set row t = set row t' → t = t')
    (hrows : rows.Nodup) (htable : table.Nodup) : (leftJoin on set table rows).Nodup := by
  have hback {row : ρ} (hrow : row ∈ rows) {row' : ρ}
      (hmem : row' ∈ leftJoin on set table [row]) : reset row' = row := by
    obtain ⟨_, hsingle, ⟨t, ht, -, rfl⟩ | ⟨-, rfl⟩⟩ := mem_leftJoin.mp hmem
    · obtain rfl := mem_singleton.mp hsingle
      exact hset _ hrow t ht
    · obtain rfl := mem_singleton.mp hsingle
      exact hreset _ hrow
  induction rows with
  | nil => exact nodup_nil
  | cons row rows ih =>
    rw [leftJoin_cons, nodup_append]
    obtain ⟨hfirst, hrest⟩ := nodup_cons.mp hrows
    refine ⟨?_, ih (fun r hr => hreset r (mem_cons_of_mem _ hr))
      (fun r hr => hset r (mem_cons_of_mem _ hr))
      (fun r hr => hpartners r (mem_cons_of_mem _ hr)) hrest
      (fun hr => hback (mem_cons_of_mem _ hr)), ?_⟩
    · simp only [leftJoin, flatMap_cons, flatMap_nil, append_nil]
      split
      · exact pairwise_singleton _ _
      · apply (htable.filter _).map_on
        intro t ht t' ht' hsame
        obtain ⟨ht, hon⟩ := mem_filter.mp ht
        obtain ⟨ht', hon'⟩ := mem_filter.mp ht'
        exact hpartners row mem_cons_self t ht t' ht' (by simpa using hon) (by simpa using hon')
          hsame
    · rintro a ha b hb rfl
      obtain ⟨r, hr, hjoin⟩ := mem_leftJoin.mp hb
      have hsame : reset a = r := hback (mem_cons_of_mem _ hr)
        (mem_leftJoin.mpr ⟨r, mem_singleton_self _, hjoin⟩)
      have hrow : reset a = row := hback mem_cons_self ha
      exact hfirst (hrow.symm.trans hsame ▸ hr)

/-- The joined rows that meet a condition, where only the partners of one row can meet it. -/
theorem countP_leftJoin (p : ρ → Bool) {row : ρ} (hrows : rows.Nodup) (hrow : row ∈ rows)
    (honly : ∀ row' ∈ rows, row' ≠ row → ∀ t ∈ table, ¬ p (set row' t))
    (hbare : ∀ row' ∈ rows, ¬ p row') :
    (leftJoin on set table rows).countP p =
      table.countP fun t => on row t = some true ∧ p (set row t) := by
  have hother {row' : ρ} (hrow' : row' ∈ rows) (hne : row' ≠ row) :
      (leftJoin on set table [row']).countP p = 0 := by
    apply countP_eq_zero.mpr
    intro joined hjoined
    obtain ⟨_, hsingle, ⟨t, ht, -, rfl⟩ | ⟨-, rfl⟩⟩ := mem_leftJoin.mp hjoined
    · obtain rfl := mem_singleton.mp hsingle
      exact honly _ hrow' hne t ht
    · obtain rfl := mem_singleton.mp hsingle
      exact hbare _ hrow'
  have hself : (leftJoin on set table [row]).countP p =
      table.countP fun t => on row t = some true ∧ p (set row t) := by
    simp only [leftJoin, flatMap_cons, flatMap_nil, append_nil]
    split
    next hnone =>
      have hzero : table.countP (fun t => on row t = some true ∧ p (set row t)) = 0 := by
        apply countP_eq_zero.mpr
        intro t ht hboth
        have hfilter := filter_eq_nil_iff.mp hnone t ht
        simp_all
      rw [hzero, countP_singleton, if_neg (hbare row hrow)]
    next =>
      rw [countP_map, countP_filter]
      apply countP_congr
      intro t _
      simp [and_comm]
  induction rows with
  | nil => cases hrow
  | cons first rest ih =>
    obtain ⟨hfirst, hrest⟩ := nodup_cons.mp hrows
    rw [leftJoin_cons, countP_append]
    rcases mem_cons.mp hrow with rfl | hin
    · have hzero : (leftJoin on set table rest).countP p = 0 := by
        apply countP_eq_zero.mpr
        intro joined hjoined
        obtain ⟨row', hrow', ⟨t, ht, -, rfl⟩ | ⟨-, rfl⟩⟩ := mem_leftJoin.mp hjoined
        · exact honly _ (mem_cons_of_mem _ hrow') (fun heq => hfirst (heq ▸ hrow')) t ht
        · exact hbare _ (mem_cons_of_mem _ hrow')
      rw [hzero, Nat.add_zero, hself]
    · rw [hother mem_cons_self (fun heq => hfirst (heq ▸ hin)), Nat.zero_add]
      exact ih hrest hin (fun row' hrow' => honly row' (mem_cons_of_mem _ hrow'))
        (fun row' hrow' => hbare row' (mem_cons_of_mem _ hrow'))
        (fun hrow' => hother (mem_cons_of_mem _ hrow'))

end Joins

/-! ## §3 Groups -/

section Groups

variable {ρ κ : Type*} [DecidableEq κ] {key : ρ → κ} {rows : List ρ}

def groupBy (key : ρ → κ) (rows : List ρ) : List (κ × List ρ) :=
  (rows.map key).dedup.map fun k => (k, rows.filter (key · = k))

theorem mem_groupBy {k : κ} {grouped : List ρ} : (k, grouped) ∈ groupBy key rows ↔
    (∃ row ∈ rows, key row = k) ∧ grouped = rows.filter (key · = k) := by
  simp only [groupBy, mem_map, mem_dedup, Prod.mk.injEq]
  constructor
  · rintro ⟨_, hkey, rfl, rfl⟩
    exact ⟨hkey, rfl⟩
  · rintro ⟨hkey, rfl⟩
    exact ⟨k, hkey, rfl, rfl⟩

end Groups

end Ace3.Lib.Sql
