import Mathlib.Data.List.Flatten
import Mathlib.Data.List.Induction
import Mathlib.Data.List.Sort
import Mathlib.Data.Rat.Defs
import Mathlib.Order.Bounds.Basic

/-!
# Grouping Query Results

The part of `process_query_results` (`saq/collectors/hunter/query_hunter.py`) that puts events
into submissions.
-/

namespace Ace3.Collectors.EventGrouping

open Function

/-! ## §1 Values -/

inductive JsonValue where
  | null
  | bool (value : Bool)
  | number (value : ℚ)
  | string (value : String)
  | list (items : List JsonValue)
  | object (fields : List (String × JsonValue))

/-- Values that can be keys of a dictionary, up to their equality: `True` equals `1`. -/
inductive GroupKey where
  | null
  | number (value : ℚ)
  | string (value : String)
  deriving DecidableEq

def JsonValue.key : JsonValue → Option GroupKey
  | null => some .null
  | bool value => some (.number (if value then 1 else 0))
  | number value => some (.number value)
  | string value => some (.string value)
  | list _ => none
  | object _ => none

/-- An event with its time: that of `extract_event_timestamp`, or else of the clock. -/
structure QueryEvent (τ : Type*) where
  fields : List (String × JsonValue)
  time : τ

/-! ## §2 The loops -/

/-- What is kept of a `Submission`: the group, if it stands for one, the positions of the events in
the results, and the event time. -/
structure Submission (τ : Type*) where
  group : Option GroupKey
  events : List ℕ
  eventTime : τ

variable {τ : Type*} [LinearOrder τ]

/-- `grouping_targets`, none for an event that is an alert by itself. -/
def groupingTargets (groupBy : Option String) (event : QueryEvent τ) : Option (List JsonValue) :=
  match groupBy with
  | none => none
  | some "ALL" => some [.string "ALL"]
  | some field =>
    (event.fields.lookup field).map fun value =>
      match value with
      | .list items => items
      | value => [value]

/-- The event goes to the submission of a group, which is created first where there is none. -/
def addToGroup (position : ℕ) (time : τ) (submissions : List (Submission τ)) (key : GroupKey) :
    List (Submission τ) :=
  if submissions.any (·.group = some key) then
    submissions.map fun s =>
      if s.group = some key then
        { s with events := s.events ++ [position], eventTime := min time s.eventTime }
      else s
  else submissions ++ [⟨some key, [position], time⟩]

/-- The loop over the grouping targets, of which one that cannot be hashed raises. -/
def addToGroups (position : ℕ) (time : τ) (submissions : List (Submission τ))
    (targets : List JsonValue) : Option (List (Submission τ)) :=
  targets.foldlM (fun submissions target =>
    target.key.map (addToGroup position time submissions)) submissions

def processFrom (groupBy : Option String) : ℕ → List (Submission τ) → List (QueryEvent τ) →
    Option (List (Submission τ))
  | _, submissions, [] => some submissions
  | position, submissions, event :: events =>
    match groupingTargets groupBy event with
    | none => processFrom groupBy (position + 1)
        (submissions ++ [⟨none, [position], event.time⟩]) events
    | some targets => do
      let submissions ← addToGroups position event.time submissions targets
      processFrom groupBy (position + 1) submissions events

/-- `process_query_results`, none if it raises. -/
def processQueryResults (groupBy : Option String) (events : List (QueryEvent τ)) :
    Option (List (Submission τ)) :=
  processFrom groupBy 0 [] events

/-! ## §3 Partitions -/

def keysOf (groupBy : Option String) (event : QueryEvent τ) : Option (List GroupKey) :=
  match groupingTargets groupBy event with
  | none | some [] => none
  | some targets => some (targets.filterMap (·.key))

/-- The events are partitioned by the values of their group fields. -/
structure Partitions (groupBy : Option String) (events : List (QueryEvent τ))
    (submissions : List (Submission τ)) : Prop where
  /-- There is one submission for each group. -/
  distinct : (submissions.filterMap (·.group)).Nodup
  /-- No event is in a submission twice, and they are in order. -/
  ordered : ∀ s ∈ submissions, s.events.Pairwise (· < ·)
  /-- An event is in the submissions of its groups. -/
  grouped : ∀ i event, events[i]? = some event → ∀ key,
    key ∈ (keysOf groupBy event).getD [] ↔ ∃ s ∈ submissions, s.group = some key ∧ i ∈ s.events
  /-- The other submissions are those of single events of no group, one for each. -/
  single : (submissions.filter (·.group = none)).map (·.events) =
    (events.zipIdx.filter fun event => keysOf groupBy event.1 = none).map fun event => [event.2]
  /-- No submission is without events, and its time is the earliest of theirs. -/
  earliest : ∀ s ∈ submissions,
    IsLeast {time | ∃ i ∈ s.events, (events[i]?.map (·.time)) = some time} s.eventTime

/-! ## §4 Rows -/

/-- An event that goes to a group, or to a submission of its own. -/
structure Row (τ : Type*) where
  position : ℕ
  time : τ
  key : Option GroupKey

def eventRows (groupBy : Option String) (position : ℕ) (event : QueryEvent τ) : List (Row τ) :=
  match groupingTargets groupBy event with
  | none => [⟨position, event.time, none⟩]
  | some targets => (targets.filterMap (·.key)).map fun key => ⟨position, event.time, some key⟩

def rowsFrom (groupBy : Option String) : ℕ → List (QueryEvent τ) → List (Row τ)
  | _, [] => []
  | position, event :: events =>
    eventRows groupBy position event ++ rowsFrom groupBy (position + 1) events

def addRow (submissions : List (Submission τ)) (row : Row τ) : List (Submission τ) :=
  match row.key with
  | none => submissions ++ [⟨none, [row.position], row.time⟩]
  | some key => addToGroup row.position row.time submissions key

def Hashable (groupBy : Option String) (event : QueryEvent τ) : Prop :=
  ∀ target ∈ (groupingTargets groupBy event).getD [], (JsonValue.key target).isSome

theorem addToGroups_eq {position : ℕ} {time : τ} (targets : List JsonValue)
    (submissions : List (Submission τ)) :
    addToGroups position time submissions targets =
      if targets.all (·.key.isSome) then
        some (((targets.filterMap (·.key)).map fun key => (⟨position, time, some key⟩ : Row τ)).foldl
          addRow submissions)
      else none := by
  unfold addToGroups
  induction targets generalizing submissions with
  | nil => rfl
  | cons target targets ih =>
    rw [List.foldlM_cons]
    cases hkey : target.key with
    | none => simp [hkey]
    | some key => simpa [hkey, addRow] using ih (addToGroup position time submissions key)

theorem processFrom_eq_some_iff {groupBy : Option String} {events : List (QueryEvent τ)}
    {position : ℕ} {submissions submissions' : List (Submission τ)} :
    processFrom groupBy position submissions events = some submissions' ↔
      (∀ event ∈ events, Hashable groupBy event) ∧
        (rowsFrom groupBy position events).foldl addRow submissions = submissions' := by
  induction events generalizing position submissions with
  | nil => simp [processFrom, rowsFrom]
  | cons event events ih =>
    rw [processFrom, rowsFrom, List.foldl_append, List.forall_mem_cons]
    unfold eventRows Hashable
    cases htargets : groupingTargets groupBy event with
    | none => simp [ih, addRow, Hashable]
    | some targets =>
      simp only [addToGroups_eq]
      by_cases hall : targets.all (·.key.isSome)
      · have hall' : ∀ target ∈ targets, (JsonValue.key target).isSome := by simpa using hall
        simp only [if_pos hall, Option.bind_eq_bind, Option.bind_some, ih, Option.getD_some]
        exact ⟨fun ⟨hrest, heq⟩ => ⟨⟨hall', hrest⟩, heq⟩, fun ⟨h, heq⟩ => ⟨h.2, heq⟩⟩
      · have hnot : ¬ ∀ target ∈ targets, (JsonValue.key target).isSome := by simpa using hall
        simp [hall, hnot]

/-! ## §5 What the submissions hold -/

def ownRows (rows : List (Row τ)) (key : GroupKey) : List (Row τ) :=
  rows.filter (·.key = some key)

/-- A submission with the positions of some rows and the earliest of their times. -/
structure Holds (own : List (Row τ)) (s : Submission τ) : Prop where
  events : s.events = own.map (·.position)
  time : IsLeast {time | ∃ row ∈ own, row.time = time} s.eventTime

structure Grouping (rows : List (Row τ)) (submissions : List (Submission τ)) : Prop where
  distinct : (submissions.filterMap (·.group)).Nodup
  group : ∀ s ∈ submissions, ∀ key, s.group = some key → Holds (ownRows rows key) s
  there : ∀ row ∈ rows, ∀ key, row.key = some key → ∃ s ∈ submissions, s.group = some key
  single : (submissions.filter (·.group = none)).map (fun s => (s.events, s.eventTime)) =
    (rows.filter (·.key = none)).map fun row => ([row.position], row.time)

theorem Holds.add {own : List (Row τ)} {s : Submission τ} (h : Holds own s) (row : Row τ) :
    Holds (own ++ [row]) { s with
      events := s.events ++ [row.position], eventTime := min row.time s.eventTime } where
  events := by simp [h.events]
  time := by
    obtain ⟨⟨first, hfirst, htime⟩, hleast⟩ := h.time
    constructor
    · rcases le_total row.time s.eventTime with hle | hle
      · exact ⟨row, by simp, (min_eq_left hle).symm⟩
      · exact ⟨first, by simp [hfirst], by rw [htime]; exact (min_eq_right hle).symm⟩
    · rintro time ⟨other, hother, rfl⟩
      rcases List.mem_append.mp hother with hother | hother
      · exact (min_le_right ..).trans (hleast ⟨other, hother, rfl⟩)
      · rw [List.mem_singleton.mp hother]
        exact min_le_left ..

theorem Grouping.addRow {rows : List (Row τ)} {submissions : List (Submission τ)}
    (h : Grouping rows submissions) (row : Row τ) :
    Grouping (rows ++ [row]) (addRow submissions row) := by
  unfold EventGrouping.addRow
  cases hkey : row.key with
  | none =>
    have hown : ∀ key, ownRows (rows ++ [row]) key = ownRows rows key := by
      intro key
      simp [ownRows, hkey]
    refine ⟨by simpa using h.distinct, ?_, ?_, by simp [h.single, hkey]⟩
    · intro s hs key hgroup
      rw [hown]
      rcases List.mem_append.mp hs with hs | hs
      · exact h.group s hs key hgroup
      · rw [List.mem_singleton.mp hs] at hgroup
        cases hgroup
    · intro other hother key hother'
      rcases List.mem_append.mp hother with hother | hother
      · obtain ⟨s, hs, hgroup⟩ := h.there other hother key hother'
        exact ⟨s, List.mem_append_left _ hs, hgroup⟩
      · rw [List.mem_singleton.mp hother, hkey] at hother'
        cases hother'
  | some key =>
    have hother : ∀ key', key' ≠ key → ownRows (rows ++ [row]) key' = ownRows rows key' := by
      intro key' hne
      simp [ownRows, hkey, hne.symm]
    have hown : ownRows (rows ++ [row]) key = ownRows rows key ++ [row] := by
      simp [ownRows, hkey]
    have hsingle : (rows ++ [row]).filter (·.key = none) = rows.filter (·.key = none) := by
      simp [hkey]
    simp only [addToGroup]
    by_cases hany : submissions.any (·.group = some key)
    · -- the submission of the group gets one more event
      have hgroups : ∀ s : Submission τ, (if s.group = some key then
          { s with events := s.events ++ [row.position], eventTime := min row.time s.eventTime }
          else s).group = s.group := by
        intro s
        split <;> rfl
      rw [if_pos hany]
      refine ⟨?_, ?_, ?_, ?_⟩
      · rw [List.filterMap_map]
        simpa only [comp_def, hgroups] using h.distinct
      · intro s' hs' key' hgroup
        obtain ⟨s, hs, rfl⟩ := List.mem_map.mp hs'
        rw [hgroups] at hgroup
        have hholds := h.group s hs key' hgroup
        by_cases heq : key' = key
        · subst heq
          rw [if_pos hgroup, hown]
          exact hholds.add row
        · rw [if_neg (by rw [hgroup]; simpa using heq), hother key' heq]
          exact hholds
      · intro other hother key' hkey'
        have hthere : ∃ s ∈ submissions, s.group = some key' := by
          rcases List.mem_append.mp hother with hother | hother
          · exact h.there other hother key' hkey'
          · rw [List.mem_singleton.mp hother, hkey] at hkey'
            cases hkey'
            simpa using hany
        obtain ⟨s, hs, hgroup⟩ := hthere
        exact ⟨_, List.mem_map_of_mem hs, by rw [hgroups]; exact hgroup⟩
      · rw [hsingle, ← h.single, List.filter_map, List.map_map]
        simp only [comp_def, hgroups]
        refine List.map_congr_left fun s hs => ?_
        have hnone : s.group = none := by simpa using (List.mem_filter.mp hs).2
        simp [hnone]
    · have hnew : ∀ s ∈ submissions, s.group ≠ some key := by simpa using hany
      have hnil : ownRows rows key = [] := by
        refine List.filter_eq_nil_iff.mpr fun other hother hkey' => ?_
        obtain ⟨s, hs, hgroup⟩ := h.there other hother key (by simpa using hkey')
        exact hnew s hs hgroup
      rw [if_neg hany]
      refine ⟨?_, ?_, ?_, ?_⟩
      · rw [List.filterMap_append, List.nodup_append]
        refine ⟨h.distinct, by simp, fun key' hkey' key'' hkey'' heq => ?_⟩
        obtain ⟨s, hs, hgroup⟩ := List.mem_filterMap.mp hkey'
        simp only [List.filterMap_cons, List.filterMap_nil, List.mem_singleton] at hkey''
        exact hnew s hs (by rw [hgroup, heq, hkey''])
      · intro s hs key' hgroup
        rcases List.mem_append.mp hs with hs | hs
        · rw [hother key' fun heq => hnew s hs (heq ▸ hgroup)]
          exact h.group s hs key' hgroup
        · obtain rfl := List.mem_singleton.mp hs
          cases hgroup
          rw [hown, hnil]
          exact ⟨rfl, ⟨row, by simp⟩, by rintro _ ⟨other, hother, rfl⟩; simp_all⟩
      · intro other hother key' hkey'
        rcases List.mem_append.mp hother with hother | hother
        · obtain ⟨s, hs, hgroup⟩ := h.there other hother key' hkey'
          exact ⟨s, List.mem_append_left _ hs, hgroup⟩
        · rw [List.mem_singleton.mp hother, hkey] at hkey'
          cases hkey'
          exact ⟨⟨some key, [row.position], row.time⟩, by simp, rfl⟩
      · rw [hsingle, ← h.single, List.filter_append]
        simp

theorem grouping_foldl (rows : List (Row τ)) : Grouping rows (rows.foldl addRow []) := by
  induction rows using List.reverseRecOn with
  | nil => exact ⟨by simp, by simp, by simp, rfl⟩
  | append_singleton rows row ih =>
    rw [List.foldl_append]
    exact ih.addRow row

/-! ## §6 When the events are partitioned -/

/-- The values of the group field can be hashed, there is one, and no two of them are equal. -/
structure Regular (groupBy : Option String) (event : QueryEvent τ) : Prop where
  hashable : Hashable groupBy event
  nonempty : groupingTargets groupBy event ≠ some []
  nodup : (((groupingTargets groupBy event).getD []).filterMap (·.key)).Nodup

section Rows

variable {τ : Type*} {groupBy : Option String} {events : List (QueryEvent τ)} {event : QueryEvent τ}
  {position : ℕ} {row : Row τ}

theorem mem_eventRows : row ∈ eventRows groupBy position event ↔
    row.position = position ∧ row.time = event.time ∧
      match row.key with
      | none => groupingTargets groupBy event = none
      | some key => key ∈ ((groupingTargets groupBy event).getD []).filterMap (·.key) := by
  obtain ⟨position', time, key⟩ := row
  unfold eventRows
  cases groupingTargets groupBy event with
  | none => cases key <;> simp
  | some targets =>
    cases key with
    | none => simp
    | some key =>
      simp only [List.mem_map, Row.mk.injEq, Option.getD_some, Option.some.injEq]
      exact ⟨fun ⟨_, hkey, hposition, htime, heq⟩ => ⟨hposition.symm, htime.symm, heq ▸ hkey⟩,
        fun ⟨hposition, htime, hkey⟩ => ⟨key, hkey, hposition.symm, htime.symm, rfl⟩⟩

theorem mem_rowsFrom : row ∈ rowsFrom groupBy position events ↔
    ∃ i event, events[i]? = some event ∧ row ∈ eventRows groupBy (position + i) event := by
  induction events generalizing position with
  | nil => simp [rowsFrom]
  | cons event events ih =>
    rw [rowsFrom, List.mem_append, ih]
    constructor
    · rintro (hrow | ⟨i, other, hother, hrow⟩)
      · exact ⟨0, event, rfl, hrow⟩
      · exact ⟨i + 1, other, hother, by rwa [Nat.add_right_comm] at hrow⟩
    · rintro ⟨i, other, hother, hrow⟩
      cases i with
      | zero =>
        cases hother
        exact .inl hrow
      | succ i => exact .inr ⟨i, other, hother, by rwa [Nat.add_right_comm]⟩

/-- Rows of one group have different positions, in order, exactly if no event has it twice. -/
theorem pairwise_rowsFrom_iff (groupBy : Option String) (events : List (QueryEvent τ))
    (position : ℕ) :
    (∀ key, ((ownRows (rowsFrom groupBy position events) key).map (·.position)).Pairwise (· < ·)) ↔
      ∀ event ∈ events, (((groupingTargets groupBy event).getD []).filterMap (·.key)).Nodup := by
  induction events generalizing position with
  | nil => simp [rowsFrom, ownRows]
  | cons event events ih =>
    have hown : ∀ key, (ownRows (eventRows groupBy position event) key).map (·.position) =
        List.replicate ((((groupingTargets groupBy event).getD []).filterMap (·.key)).count key)
          position := by
      intro key
      unfold ownRows eventRows
      cases groupingTargets groupBy event with
      | none => simp
      | some targets =>
        -- every target row of the event is at its position
        rw [List.filter_map, List.map_map, List.count_eq_countP, List.countP_eq_length_filter]
        simp [comp_def, List.map_const', beq_eq_decide]
    have hlater : ∀ row ∈ rowsFrom groupBy (position + 1) events, position < row.position := by
      intro row hrow
      obtain ⟨i, other, -, hrow⟩ := mem_rowsFrom.mp hrow
      rw [(mem_eventRows.mp hrow).1]
      omega
    rw [List.forall_mem_cons, ← ih (position + 1), List.nodup_iff_count_le_one,
      ← forall_and]
    refine forall_congr' fun key => ?_
    rw [rowsFrom, ownRows, List.filter_append, List.map_append, List.pairwise_append]
    have hreplicate : ∀ n, (List.replicate n position).Pairwise (· < ·) ↔ n ≤ 1 := by
      intro n
      simp [List.pairwise_replicate]
    have hown' := hown key
    unfold ownRows at hown' ⊢
    rw [hown', hreplicate]
    refine ⟨fun h => ⟨h.1, h.2.1⟩, fun h => ⟨h.1, h.2, fun a ha b hb => ?_⟩⟩
    obtain ⟨row, hrow, rfl⟩ := List.mem_map.mp hb
    rw [List.eq_of_mem_replicate ha]
    exact hlater row (List.mem_filter.mp hrow).1

theorem keysOf_getD :
    (keysOf groupBy event).getD [] =
      ((groupingTargets groupBy event).getD []).filterMap (·.key) := by
  unfold keysOf
  split <;> simp [*]

theorem filter_rowsFrom (groupBy : Option String) (events : List (QueryEvent τ)) (position : ℕ) :
    ((rowsFrom groupBy position events).filter (·.key = none)).map (·.position) =
      ((events.zipIdx position).filter fun event => groupingTargets groupBy event.1 = none).map
        (·.2) := by
  induction events generalizing position with
  | nil => rfl
  | cons event events ih =>
    rw [rowsFrom, List.filter_append, List.map_append, ih, List.zipIdx_cons, List.filter_cons]
    unfold eventRows
    cases groupingTargets groupBy event with
    | none => simp
    | some targets => simp [List.filter_map, comp_def]

end Rows

variable {groupBy : Option String} {events : List (QueryEvent τ)} {submissions : List (Submission τ)}

theorem Holds.earliest {own : List (Row τ)} {s : Submission τ} (h : Holds own s)
    (hown : ∀ row ∈ own, row ∈ rowsFrom groupBy 0 events) :
    IsLeast {time | ∃ i ∈ s.events, (events[i]?.map (·.time)) = some time} s.eventTime := by
  have hset : {time | ∃ i ∈ s.events, (events[i]?.map (·.time)) = some time} =
      {time | ∃ row ∈ own, row.time = time} := by
    have htime : ∀ row ∈ own, events[row.position]?.map (·.time) = some row.time := by
      intro row hrow
      obtain ⟨i, event, hevent, hrow⟩ := mem_rowsFrom.mp (hown row hrow)
      obtain ⟨hposition, htime, -⟩ := mem_eventRows.mp hrow
      rw [hposition, htime, Nat.zero_add, hevent, Option.map_some]
    ext time
    rw [h.events]
    constructor
    · rintro ⟨i, hi, hmap⟩
      obtain ⟨row, hrow, rfl⟩ := List.mem_map.mp hi
      exact ⟨row, hrow, Option.some.inj ((htime row hrow).symm.trans hmap)⟩
    · rintro ⟨row, hrow, rfl⟩
      exact ⟨row.position, List.mem_map_of_mem hrow, htime row hrow⟩
  rw [hset]
  exact h.time

theorem Grouping.partitions (h : Grouping (rowsFrom groupBy 0 events) submissions)
    (hregular : ∀ event ∈ events, Regular groupBy event) :
    Partitions groupBy events submissions := by
  have hholds : ∀ s ∈ submissions, ∃ own, Holds own s ∧
      (∀ row ∈ own, row ∈ rowsFrom groupBy 0 events) ∧
      (own.map (·.position)).Pairwise (· < ·) := by
    intro s hs
    cases hgroup : s.group with
    | some key =>
      refine ⟨_, h.group s hs key hgroup, fun row hrow => (List.mem_filter.mp hrow).1, ?_⟩
      exact (pairwise_rowsFrom_iff ..).mpr (fun event hevent => (hregular event hevent).nodup) key
    | none =>
      have hmem : (s.events, s.eventTime) ∈
          ((rowsFrom groupBy 0 events).filter (·.key = none)).map
            fun row => ([row.position], row.time) := by
        rw [← h.single]
        exact List.mem_map_of_mem (List.mem_filter.mpr ⟨hs, by simpa using hgroup⟩)
      obtain ⟨row, hrow, heq⟩ := List.mem_map.mp hmem
      obtain ⟨hevents, htime⟩ := Prod.mk.inj heq
      refine ⟨[row], ⟨hevents.symm, ?_⟩, ?_, List.pairwise_singleton ..⟩
      · rw [← htime]
        exact ⟨⟨row, by simp⟩, by rintro _ ⟨other, hother, rfl⟩; simp_all⟩
      · intro other hother
        rw [List.mem_singleton.mp hother]
        exact (List.mem_filter.mp hrow).1
  refine ⟨h.distinct, ?_, ?_, ?_, ?_⟩
  · intro s hs
    obtain ⟨own, hown, -, hordered⟩ := hholds s hs
    rw [hown.events]
    exact hordered
  · intro i event hevent key
    rw [keysOf_getD]
    constructor
    · intro hkey
      have hrow : (⟨i, event.time, some key⟩ : Row τ) ∈ rowsFrom groupBy 0 events :=
        mem_rowsFrom.mpr ⟨i, event, hevent, mem_eventRows.mpr ⟨(Nat.zero_add i).symm, rfl, hkey⟩⟩
      obtain ⟨s, hs, hgroup⟩ := h.there _ hrow key rfl
      refine ⟨s, hs, hgroup, ?_⟩
      rw [(h.group s hs key hgroup).events]
      exact List.mem_map.mpr ⟨_, List.mem_filter.mpr ⟨hrow, by simp⟩, rfl⟩
    · rintro ⟨s, hs, hgroup, hi⟩
      rw [(h.group s hs key hgroup).events] at hi
      obtain ⟨row, hrow, rfl⟩ := List.mem_map.mp hi
      obtain ⟨hrow, hkey⟩ := List.mem_filter.mp hrow
      obtain ⟨j, other, hother, hrow⟩ := mem_rowsFrom.mp hrow
      obtain ⟨hposition, -, hmem⟩ := mem_eventRows.mp hrow
      have hkey : row.key = some key := by simpa using hkey
      rw [hposition, Nat.zero_add, hother] at hevent
      cases hevent
      simpa only [hkey] using hmem
  · have hkeys : ∀ event ∈ events, keysOf groupBy event = none ↔
        groupingTargets groupBy event = none := by
      intro event hevent
      have hnonempty := (hregular event hevent).nonempty
      unfold keysOf
      split <;> simp_all
    have hsingle := congrArg (List.map Prod.fst) h.single
    rw [List.map_map, List.map_map] at hsingle
    have hrows := congrArg (List.map fun i => [i]) (filter_rowsFrom groupBy events 0)
    rw [List.map_map, List.map_map] at hrows
    refine hsingle.trans (hrows.trans ?_)
    congr 1
    refine List.filter_congr fun event hevent => ?_
    simp only [hkeys event.1 (List.fst_mem_of_mem_zipIdx hevent)]
  · intro s hs
    obtain ⟨own, hown, hrows, -⟩ := hholds s hs
    exact hown.earliest hrows

/-- The loop partitions the events exactly if every event is regular: the values of its group field
can be hashed, there is one, and no two of them are equal. -/
theorem partitions_iff :
    (∃ submissions, processQueryResults groupBy events = some submissions ∧
        Partitions groupBy events submissions) ↔
      ∀ event ∈ events, Regular groupBy event := by
  unfold processQueryResults
  constructor
  · rintro ⟨submissions, hprocess, hpartitions⟩
    obtain ⟨hhashable, rfl⟩ := processFrom_eq_some_iff.mp hprocess
    have h := grouping_foldl (rowsFrom groupBy 0 events)
    have hnodup : ∀ event ∈ events,
        (((groupingTargets groupBy event).getD []).filterMap (·.key)).Nodup := by
      refine (pairwise_rowsFrom_iff groupBy events 0).mp fun key => ?_
      cases hrows : ownRows (rowsFrom groupBy 0 events) key with
      | nil => exact .nil
      | cons row rows =>
        have hrow : row ∈ ownRows (rowsFrom groupBy 0 events) key := by
          rw [hrows]
          exact List.mem_cons_self
        obtain ⟨hrow, hkey⟩ := List.mem_filter.mp hrow
        obtain ⟨s, hs, hgroup⟩ := h.there row hrow key (by simpa using hkey)
        rw [← hrows, ← (h.group s hs key hgroup).events]
        exact hpartitions.ordered s hs
    intro event hevent
    refine ⟨hhashable event hevent, fun hempty => ?_, hnodup event hevent⟩
    -- an event without values should have its own submission, but has no row
    obtain ⟨i, hi⟩ := List.mem_iff_getElem?.mp hevent
    have hmem : [i] ∈ ((rowsFrom groupBy 0 events).filter (·.key = none)).map
        fun row => [row.position] := by
      have hsingle := congrArg (List.map Prod.fst) h.single
      rw [List.map_map, List.map_map] at hsingle
      have hsingle := hsingle.symm.trans hpartitions.single
      refine hsingle ▸ List.mem_map.mpr ⟨(event, i), List.mem_filter.mpr ⟨?_, ?_⟩, rfl⟩
      · exact List.mem_zipIdx_iff_getElem?.mpr hi
      · simp [keysOf, hempty]
    obtain ⟨row, hrow, hposition⟩ := List.mem_map.mp hmem
    obtain ⟨hrow, hkey⟩ := List.mem_filter.mp hrow
    obtain ⟨j, other, hother, hrow⟩ := mem_rowsFrom.mp hrow
    obtain ⟨hj, -, htargets⟩ := mem_eventRows.mp hrow
    have hkey : row.key = none := by simpa using hkey
    rw [hkey] at htargets
    obtain rfl : row.position = i := by simpa using hposition
    rw [hj, Nat.zero_add, hother] at hi
    cases hi
    rw [hempty] at htargets
    cases htargets
  · intro hregular
    refine ⟨_, processFrom_eq_some_iff.mpr ⟨fun event hevent => (hregular event hevent).hashable,
      rfl⟩, (grouping_foldl _).partitions hregular⟩

/-- Values that are equal for python put an event into the submission of their group twice. -/
theorem equal_values_twice :
    ¬ ∃ submissions,
      processQueryResults (some "user") [⟨[("user", .list [.number 1, .bool true])], 5⟩] =
          some submissions ∧
        Partitions (some "user")
          [(⟨[("user", .list [.number 1, .bool true])], 5⟩ : QueryEvent ℕ)] submissions := by
  rintro ⟨submissions, hprocess, hpartitions⟩
  have hmem : (⟨some (.number 1), [0, 0], 5⟩ : Submission ℕ) ∈ submissions := by
    rw [← Option.some.inj hprocess]
    exact List.mem_singleton.mpr rfl
  have hordered := hpartitions.ordered _ hmem
  simp at hordered

end Ace3.Collectors.EventGrouping
