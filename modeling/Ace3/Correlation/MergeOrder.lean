import Ace3.Correlation.Steps
import Ace3.Lib.StableSort

/-!
# The Order of a Merged Stream

What `_apply_merge` makes of the existing events and the rows of a command's output
(`saq/collectors/hunter/correlation/transforms.py`).
-/

namespace Ace3.Correlation

open List
open Lib.Json Lib.StableSort

/-! ## §1 Times -/

def carries (name : String) (row : Value) : Bool :=
  match contains row name with
  | .ok found => found
  | .error _ => false

namespace Parsers

section Times

variable (lib : Parsers) (spec : MergeTimeSpecConfig)

/-- The time of an existing event, none if it has none or one that cannot be parsed. -/
def existingTime (event : Event) : Option Instant :=
  lib.timeOf event.value spec.lField spec.lFormat

def newTime (row : Value) : Option Instant := lib.timeOf row spec.rField spec.rFormat

def timedExisting (existing : List Event) : List TimedEvent :=
  existing.filterMap fun e => (lib.existingTime spec e).map (TimedEvent.mk · false e)

def timedNew (nextId : Nat) (rows : List Value) : List TimedEvent :=
  (newEvents nextId (rows.filter (carries spec.rField))).filterMap fun e =>
    (lib.newTime spec e.value).map (TimedEvent.mk · true e)

/-! ## §2 Merges -/

/-- A stream is the merge of the existing events and of new rows, of which a number is dropped. -/
structure IsMerge (existing : List Event) (rows : List Value) (nextId : Nat)
    (merged : List Event) (dropped : Nat) : Prop where
  /-- The existing events without a time come first, in their order. The others ascend, and those
  of one time stand as they came, the existing ones before the new ones. -/
  order : ∃ timed : List TimedEvent,
    merged = existing.filter (fun e => (lib.existingTime spec e).isNone) ++
        timed.map (·.event) ∧
      timed.Pairwise (fun e e' => e.time.moment ≤ e'.time.moment) ∧
      ∀ t, timed.filter (·.time.moment = t) =
        (lib.timedExisting spec existing).filter (·.time.moment = t) ++
          (lib.timedNew spec nextId rows).filter (·.time.moment = t)
  /-- Together with the rows that have no time, they are the existing events and all rows. -/
  conserves : (merged.map (·.value) ++ rows.filter fun row => (lib.newTime spec row).isNone).Perm
    (existing.map (·.value) ++ rows)
  /-- The rows that have no time are counted. -/
  counts : dropped = (rows.filter fun row => (lib.newTime spec row).isNone).length

end Times

variable {lib : Parsers} {spec : MergeTimeSpecConfig}

/-! ## §3 Rows -/

theorem timeOf_eq_none {row : Value} {name format : String} (h : carries name row = false) :
    lib.timeOf row name format = none := by
  cases row with
  | dict items =>
    have hget : Dict.get name items = none := by
      simpa only [carries, contains, Option.isSome_eq_false_iff, Option.isNone_iff_eq_none] using h
    rw [timeOf, field, hget]
    rfl
  | _ => rfl

theorem readRows_eq (name : String) : ∀ {lines : List String} {rows : List Value},
    lines.mapM lib.loads = .ok rows → (∀ row ∈ rows, ∃ found, contains row name = .ok found) →
    lib.readRows name lines =
      .ok (rows.filter (carries name), rows.countP fun row => !carries name row) := by
  intro lines
  induction lines with
  | nil =>
    intro rows hloads _
    cases hloads
    rfl
  | cons line lines ih =>
    intro rows hloads hcontains
    rw [mapM_cons] at hloads
    cases hline : lib.loads line with
    | error error =>
      rw [hline] at hloads
      cases hloads
    | ok row =>
      cases hlines : lines.mapM lib.loads with
      | error error =>
        rw [hline, hlines] at hloads
        cases hloads
      | ok rest =>
        rw [hline, hlines] at hloads
        cases hloads
        obtain ⟨found, hfound⟩ := hcontains row (mem_cons_self ..)
        have hrest := ih hlines fun r hr => hcontains r (mem_cons_of_mem _ hr)
        have hcarries : carries name row = found := by rw [carries, hfound]
        rw [readRows, hline]
        simp only [bind, Except.bind, hfound, hrest]
        cases found <;> simp [hcarries, pure, Except.pure]

theorem countP_dropped (rows : List Value) :
    (rows.countP fun row => !carries spec.rField row) +
        ((rows.filter (carries spec.rField)).countP fun row => (lib.newTime spec row).isNone) =
      (rows.filter fun row => (lib.newTime spec row).isNone).length := by
  induction rows with
  | nil => rfl
  | cons row rows ih =>
    cases hcarries : carries spec.rField row with
    | false =>
      have hnone : lib.newTime spec row = none := timeOf_eq_none hcarries
      simp only [countP_cons, filter_cons, hcarries, hnone, Option.isNone_none,
        Bool.not_false, if_true, Bool.false_eq_true, if_false, length_cons]
      omega
    | true =>
      cases htime : lib.newTime spec row <;>
        simp only [countP_cons, filter_cons, hcarries, htime, Option.isNone_none,
          Option.isNone_some, Bool.not_true, if_true, Bool.false_eq_true, if_false,
          length_cons] <;> omega

/-! ## §4 Times in order -/

theorem map_event_filterMap (time : Event → Option Instant) (isNew : Bool) (events : List Event) :
    (events.filterMap fun e => (time e).map (TimedEvent.mk · isNew e)).map (·.event) =
      events.filter fun e => (time e).isSome := by
  induction events with
  | nil => rfl
  | cons e events ih => cases htime : time e <;> simp [htime, ih]

theorem map_value_newEvents (nextId : Nat) (rows : List Value) :
    (newEvents nextId rows).map (·.value) = rows := by
  apply ext_getElem?
  intro i
  cases hrow : rows[i]? <;> simp [newEvents, hrow]

theorem map_value_timedNew (nextId : Nat) (rows : List Value) :
    (lib.timedNew spec nextId rows).map (·.event.value) =
      rows.filter fun row => (lib.newTime spec row).isSome := by
  have hevents := map_event_filterMap (fun e => lib.newTime spec e.value) true
    (newEvents nextId (rows.filter (carries spec.rField)))
  have hmap := congrArg (List.map (·.value)) hevents
  rw [map_map] at hmap
  calc (lib.timedNew spec nextId rows).map (·.event.value)
      = ((newEvents nextId (rows.filter (carries spec.rField))).filter
          fun e => (lib.newTime spec e.value).isSome).map (·.value) := hmap
    _ = ((newEvents nextId (rows.filter (carries spec.rField))).map (·.value)).filter
          fun row => (lib.newTime spec row).isSome := by rw [filter_map]; rfl
    _ = (rows.filter (carries spec.rField)).filter
          fun row => (lib.newTime spec row).isSome := by rw [map_value_newEvents]
    _ = rows.filter fun row => (lib.newTime spec row).isSome := by
        rw [filter_filter]
        apply filter_congr
        intro row _
        cases hcarries : carries spec.rField row with
        | true => exact Bool.and_true _
        | false =>
          have hnone : lib.newTime spec row = none := timeOf_eq_none hcarries
          simp [hnone]

theorem TimedEvent.le_trans (a b c : TimedEvent) : a.le b → b.le c → a.le c := by
  simp only [TimedEvent.le, decide_eq_true_eq]
  rintro (h | ⟨h, hn⟩) (h' | ⟨h', hn'⟩)
  · exact .inl (Int.lt_trans h h')
  · exact .inl (h' ▸ h)
  · exact .inl (h ▸ h')
  · exact .inr ⟨h.trans h', hn' ∘ hn⟩

theorem TimedEvent.le_total (a b : TimedEvent) : a.le b || b.le a := by
  simp only [TimedEvent.le, Bool.or_eq_true, decide_eq_true_eq]
  rcases Int.lt_trichotomy a.time.moment b.time.moment with h | h | h
  · exact .inl (.inl h)
  · cases hnew : a.isNew with
    | false => exact .inl (.inr ⟨h, fun h => Bool.noConfusion h⟩)
    | true => exact .inr (.inr ⟨h.symm, fun _ => rfl⟩)
  · exact .inr (.inl h)

/-- In a merge of one moment the existing events come before the new ones, so it is in order. -/
theorem pairwise_of_moment (existing : List Event) (nextId : Nat) (rows : List Value) (t : Int) :
    ((lib.timedExisting spec existing ++ lib.timedNew spec nextId rows).filter
      (·.time.moment = t)).Pairwise fun a b => a.le b := by
  have hexisting : ∀ e ∈ lib.timedExisting spec existing, e.isNew = false := by
    intro e he
    obtain ⟨event, -, hevent⟩ := mem_filterMap.mp he
    obtain ⟨time, -, rfl⟩ := Option.map_eq_some_iff.mp hevent
    rfl
  have hnew : ∀ e ∈ lib.timedNew spec nextId rows, e.isNew = true := by
    intro e he
    obtain ⟨event, -, hevent⟩ := mem_filterMap.mp he
    obtain ⟨time, -, rfl⟩ := Option.map_eq_some_iff.mp hevent
    rfl
  -- of two events of one moment, only a new one must not stand before an existing one
  have hle : ∀ {a b : TimedEvent}, a.time.moment = t → b.time.moment = t →
      (a.isNew = false ∨ b.isNew = true) → a.le b := by
    intro a b ha hb h
    simp only [TimedEvent.le, decide_eq_true_eq]
    refine .inr ⟨ha.trans hb.symm, fun hnew => ?_⟩
    rcases h with h | h
    · rw [hnew] at h
      cases h
    · exact h
  rw [filter_append, pairwise_append]
  simp only [mem_filter, decide_eq_true_eq]
  refine ⟨?_, ?_, ?_⟩
  · apply pairwise_of_forall_mem_list
    intro a ha b hb
    rw [mem_filter, decide_eq_true_eq] at ha hb
    exact hle ha.2 hb.2 (.inl (hexisting a ha.1))
  · apply pairwise_of_forall_mem_list
    intro a ha b hb
    rw [mem_filter, decide_eq_true_eq] at ha hb
    exact hle ha.2 hb.2 (.inr (hnew b hb.1))
  · rintro a ⟨ha, hat⟩ b ⟨-, hbt⟩
    exact hle hat hbt (.inl (hexisting a ha))

/-! ## §5 The merge -/

theorem not_mixed {timed : List TimedEvent}
    (h : ∀ e ∈ timed, ∀ e' ∈ timed, e.time.aware = e'.time.aware) :
    (timed.any (·.time.aware) && timed.any (!·.time.aware)) = false := by
  by_contra hmixed
  rw [Bool.not_eq_false, Bool.and_eq_true, any_eq_true, any_eq_true] at hmixed
  obtain ⟨⟨e, he, haware⟩, e', he', hnaive⟩ := hmixed
  rw [← h e he e' he', haware] at hnaive
  cases hnaive

theorem forM_contains {name : String} {existing : List Event}
    (h : ∀ e ∈ existing, ∃ found, contains e.value name = .ok found) :
    (existing.forM fun e => discard (contains e.value name)) = .ok () := by
  induction existing with
  | nil => rfl
  | cons e existing ih =>
    obtain ⟨found, hfound⟩ := h e (mem_cons_self ..)
    simp only [List.forM, hfound]
    exact ih fun e he => h e (mem_cons_of_mem _ he)

theorem order_mergeSort (existing : List Event) (nextId : Nat) (rows : List Value) :
    let timed := lib.timedExisting spec existing ++ lib.timedNew spec nextId rows
    (timed.mergeSort TimedEvent.le).Pairwise (fun e e' => e.time.moment ≤ e'.time.moment) ∧
      ∀ t, (timed.mergeSort TimedEvent.le).filter (·.time.moment = t) =
        (lib.timedExisting spec existing).filter (·.time.moment = t) ++
          (lib.timedNew spec nextId rows).filter (·.time.moment = t) := by
  intro timed
  constructor
  · have hsorted := pairwise_mergeSort TimedEvent.le_trans TimedEvent.le_total timed
    refine hsorted.imp fun {a b} hle => ?_
    simp only [TimedEvent.le, decide_eq_true_eq] at hle
    rcases hle with h | ⟨h, -⟩
    · exact Int.le_of_lt h
    · exact Int.le_of_eq h
  · intro t
    rw [← filter_append]
    exact filter_mergeSort TimedEvent.le_trans TimedEvent.le_total
      (pairwise_of_moment existing nextId rows t)

theorem perm_of_timed {existing : List Event} {nextId : Nat} {rows : List Value}
    {timed : List TimedEvent}
    (h : timed.Perm (lib.timedExisting spec existing ++ lib.timedNew spec nextId rows)) :
    (((existing.filter fun e => (lib.existingTime spec e).isNone) ++
        timed.map (·.event)).map (·.value) ++
      rows.filter fun row => (lib.newTime spec row).isNone).Perm
        (existing.map (·.value) ++ rows) := by
  have hexisting : (lib.timedExisting spec existing).map (·.event.value) =
      (existing.filter fun e => (lib.existingTime spec e).isSome).map (·.value) := by
    rw [← map_event_filterMap (lib.existingTime spec) false existing, map_map]
    rfl
  have htimed : (timed.map (·.event.value)).Perm
      ((existing.filter fun e => (lib.existingTime spec e).isSome).map (·.value) ++
        rows.filter fun row => (lib.newTime spec row).isSome) := by
    have hmap := h.map (·.event.value)
    rwa [map_append, hexisting, map_value_timedNew] at hmap
  have hall : ((existing.filter fun e => (lib.existingTime spec e).isNone).map (·.value) ++
      (existing.filter fun e => (lib.existingTime spec e).isSome).map (·.value)).Perm
        (existing.map (·.value)) := by
    rw [← map_append]
    apply List.Perm.map
    simpa using filter_append_perm (fun e => (lib.existingTime spec e).isNone) existing
  have hrows : ((rows.filter fun row => (lib.newTime spec row).isSome) ++
      rows.filter fun row => (lib.newTime spec row).isNone).Perm rows := by
    simpa using filter_append_perm (fun row => (lib.newTime spec row).isSome) rows
  rw [map_append, map_map]
  refine ((htimed.append_left _).append_right _).trans ?_
  rw [← append_assoc, append_assoc]
  exact hall.append hrows

/-- `_apply_merge` merges the existing events and all rows that are read, if these and the events
can be asked for the fields with the times, and the times can be compared. -/
theorem applyMerge_isMerge (lib : Parsers) (output : String) (existing : List Event)
    (spec : MergeTimeSpecConfig) (nextId : Nat) {rows : List Value}
    (hloads : (lib.lines output).mapM lib.loads = .ok rows)
    (hrows : ∀ row ∈ rows, ∃ found, contains row spec.rField = .ok found)
    (hexisting : ∀ e ∈ existing, ∃ found, contains e.value spec.lField = .ok found)
    (hcomparable : ∀ e ∈ lib.timedExisting spec existing ++ lib.timedNew spec nextId rows,
      ∀ e' ∈ lib.timedExisting spec existing ++ lib.timedNew spec nextId rows,
        e.time.aware = e'.time.aware) :
    ∃ merged dropped, lib.applyMerge output existing spec nextId = .ok (merged, dropped) ∧
      lib.IsMerge spec existing rows nextId merged dropped := by
  have horder := @order_mergeSort lib spec existing nextId rows
  refine ⟨_, _, ?_, ⟨_, rfl, horder⟩, perm_of_timed (mergeSort_perm _ _),
    countP_dropped rows⟩
  have hmixed := not_mixed hcomparable
  rw [applyMerge, readRows_eq spec.rField hloads hrows]
  simp only [bind, Except.bind, forM_contains hexisting]
  exact if_neg (Bool.not_eq_true _ ▸ hmixed)

section Examples

/-- Rows are texts that stand for their time; a hyphen is a row without one. -/
def clockParsers : Parsers where
  render template _ _ := .ok template
  strip text := text
  lower text := text
  str _ := ""
  repr _ := ""
  fnmatch _ _ := false
  search _ _ _ := .ok false
  lines output := if output = "" then [] else ["2", "-", "1"]
  loads line := .ok (.dict (if line = "-" then [] else [("time", .str line)]))
  int _ := .error "invalid literal for int()"
  float _ := .error "could not convert string to float"
  parseTime value _ :=
    match value with
    | .str "1" => some ⟨true, 1⟩
    | .str "2" => some ⟨true, 2⟩
    | _ => none

def clockSpec : MergeTimeSpecConfig := ⟨"time", "epoch", "time", "epoch"⟩

/-- An event of the second moment, and one without a time. -/
def clockEvents : List Event := [⟨1, .dict [("time", .str "2")]⟩, ⟨2, .dict []⟩]

/-- Two of the three rows are merged. -/
theorem rows_are_merged :
    ∃ merged dropped, clockParsers.applyMerge "output" clockEvents clockSpec 3 =
        .ok (merged, dropped) ∧
      clockParsers.IsMerge clockSpec clockEvents
        [.dict [("time", .str "2")], .dict [], .dict [("time", .str "1")]] 3 merged dropped := by
  refine applyMerge_isMerge clockParsers "output" clockEvents clockSpec 3 rfl ?_ ?_ ?_
  · intro row hrow
    simp only [mem_cons, not_mem_nil, or_false] at hrow
    rcases hrow with rfl | rfl | rfl <;> exact ⟨_, rfl⟩
  · intro e he
    simp only [clockEvents, mem_cons, not_mem_nil, or_false] at he
    rcases he with rfl | rfl <;> exact ⟨_, rfl⟩
  · have haware : ∀ e ∈ clockParsers.timedExisting clockSpec clockEvents ++
        clockParsers.timedNew clockSpec 3
          [.dict [("time", .str "2")], .dict [], .dict [("time", .str "1")]],
        e.time.aware = true := by decide
    intro e he e' he'
    rw [haware e he, haware e' he']

end Examples

end Parsers

end Ace3.Correlation
