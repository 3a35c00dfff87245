import Ace3.Lib.Runs
import Mathlib.Data.Int.Order.Basic

/-!
# Coverage of Query Hunts

The time ranges that the executions of a `QueryHunt` search
(`saq/collectors/hunter/query_hunter.py`). Times are in microseconds, and durations are what
`create_timedelta` reads from `DD:HH:MM:SS`.
-/

namespace Ace3.Collectors

open Lib.Runs

/-! ## §1 The range to search -/

/-- The durations of a `QueryHuntConfig`. -/
structure CoverageConfig where
  fullCoverage : Bool
  timeRange : Nat
  maxTimeRange : Option Nat
  offset : Option Nat
  deriving DecidableEq

structure TimeRange where
  startTime : Int
  endTime : Int
  deriving DecidableEq

structure Coverage where
  /-- The attribute `_last_end_time`, where it was loaded. -/
  loaded : Option (Option Int)
  /-- `last_end_time` on disk. -/
  persisted : Option Int
  /-- The last time that was read from the clock. -/
  clock : Int
  /-- The ranges whose results were processed, the last one first. -/
  processed : List TimeRange
  deriving DecidableEq

namespace Coverage

def lastEndTime (s : Coverage) : Option Int := s.loaded.getD s.persisted

/-- The property `last_end_time` keeps what it has read. -/
def load (s : Coverage) : Coverage := { s with loaded := some s.lastEndTime }

def setLastEndTime (s : Coverage) (value : Int) : Coverage :=
  { s with loaded := some (some value), persisted := some value }

end Coverage

namespace CoverageConfig

variable (c : CoverageConfig)

/-- The property `start_time`, at a time of the clock. -/
def startTime (lastEndTime : Option Int) (now : Int) : Int :=
  if c.fullCoverage then
    match lastEndTime with
    | none => now - c.timeRange
    | some last => last
  else now - c.timeRange

/-- The property `end_time`, at a time of the clock. -/
def endTime (lastEndTime : Option Int) (now : Int) : Int :=
  if c.fullCoverage then
    match lastEndTime with
    | none => now
    | some last =>
      if last + c.timeRange ≥ now then now
      else
        match c.maxTimeRange with
        | some maxTimeRange => if now < last + maxTimeRange then now else last + maxTimeRange
        | none => now
  else now

def searched (startTime endTime : Int) : TimeRange :=
  ⟨startTime - c.offset.getD 0, endTime - c.offset.getD 0⟩

end CoverageConfig

/-! ## §2 Executions -/

inductive CoverageOutcome where
  /-- `execute_query` raises. -/
  | queryRaises
  /-- `execute_query` returns `None`, and there is nothing to process. -/
  | noResult
  /-- `process_query_results` raises. -/
  | processingRaises
  | processed
  deriving DecidableEq

inductive CoverageEvent where
  /-- The hunt is executed; the clock is read for its start and for its end. -/
  | execute (startNow endNow : Int) (outcome : CoverageOutcome)
  /-- The hunt is loaded again, by another process. -/
  | reload
  deriving DecidableEq

variable (c : CoverageConfig)

/-- `execute` of a hunt that is not manual. The end is recorded in a `finally` block. -/
def CoverageEvent.step (s : Coverage) : CoverageEvent → Coverage
  | .execute startNow endNow outcome =>
    let startTime := c.startTime s.lastEndTime startNow
    let endTime := c.endTime s.lastEndTime endNow
    let s := { s.load with clock := endNow }
    match outcome with
    | .queryRaises => s
    | .noResult => s
    | .processingRaises => s.setLastEndTime endTime
    | .processed =>
      { s.setLastEndTime endTime with processed := c.searched startTime endTime :: s.processed }
  | .reload => { s with loaded := none }

/-! ## §3 What is promised -/

/-- A range whose results were processed goes on where the last one ended, ends when the clock
is read or before, and is not longer than `max_time_range`. -/
structure Covers (s : Coverage) (endNow : Int) (range : TimeRange) : Prop where
  contiguous : ∀ last ∈ s.processed.head?, range.startTime = last.endTime
  forward : range.startTime ≤ range.endTime
  past : range.endTime ≤ endNow
  bounded : ∀ maxTimeRange ∈ c.maxTimeRange,
    range.endTime - range.startTime ≤ maxTimeRange

def Promised (s : Coverage) : CoverageEvent → Prop
  | .execute startNow endNow outcome =>
    if outcome = .processed then
      Covers c s endNow (c.searched (c.startTime s.lastEndTime startNow)
        (c.endTime s.lastEndTime endNow))
    else (CoverageEvent.step c s (.execute startNow endNow outcome)).lastEndTime = s.lastEndTime
  | .reload => (CoverageEvent.step c s .reload).lastEndTime = s.lastEndTime

def ClockRuns (s : Coverage) : CoverageEvent → Prop
  | .execute startNow endNow _ => s.clock ≤ startNow ∧ startNow ≤ endNow
  | .reload => True

instance (s : Coverage) : DecidablePred (ClockRuns s)
  | .execute _ _ _ => inferInstanceAs (Decidable (_ ∧ _))
  | .reload => isTrue trivial

/-! ## §4 When the promise is kept -/

/-- `time_range` fits into `max_time_range`, as far as this execution uses it: the first one
searches it, and what the clock moves on between start and end, and a later one less than it. -/
def Fits (s : Coverage) (startNow endNow : Int) : Prop :=
  ∀ maxTimeRange ∈ c.maxTimeRange,
    (s.lastEndTime = none → c.timeRange + (endNow - startNow) ≤ maxTimeRange) ∧
      ∀ last ∈ s.lastEndTime, endNow - last ≤ c.timeRange → endNow - last ≤ maxTimeRange

instance (s : Coverage) (startNow endNow : Int) : Decidable (Fits c s startNow endNow) :=
  inferInstanceAs (Decidable (∀ maxTimeRange ∈ c.maxTimeRange, _ ∧ ∀ last ∈ s.lastEndTime, _))

/-- Processing fails only where there is nothing to search, and processed ranges fit. -/
def CoverageSafe (s : Coverage) : CoverageEvent → Prop
  | .execute _ endNow .processingRaises => s.lastEndTime = some (c.endTime s.lastEndTime endNow)
  | .execute startNow endNow .processed => Fits c s startNow endNow
  | _ => True

instance (s : Coverage) : DecidablePred (CoverageSafe c s)
  | .execute _ _ .processingRaises => inferInstanceAs (Decidable (_ = _))
  | .execute startNow endNow .processed => inferInstanceAs (Decidable (Fits c s startNow endNow))
  | .execute _ _ .queryRaises => isTrue trivial
  | .execute _ _ .noResult => isTrue trivial
  | .reload => isTrue trivial

/-- The end of the last processed range is the last end, and was not in the future. -/
structure Tracked (s : Coverage) : Prop where
  synced : s.loaded = none ∨ s.loaded = some s.persisted
  past : ∀ last ∈ s.lastEndTime, last ≤ s.clock
  last : ∀ range ∈ s.processed.head?, s.lastEndTime = some (range.endTime + c.offset.getD 0)

section Steps

variable {c} {s : Coverage} {startNow endNow : Int}

@[simp] theorem lastEndTime_setLastEndTime (s : Coverage) (value : Int) :
    (s.setLastEndTime value).lastEndTime = some value := rfl

theorem endTime_le (c : CoverageConfig) (lastEndTime : Option Int) (now : Int) :
    c.endTime lastEndTime now ≤ now := by
  unfold CoverageConfig.endTime
  split
  · split
    · exact le_rfl
    · split
      · exact le_rfl
      · split
        · split
          · exact le_rfl
          · rename_i hlate
            exact not_lt.mp hlate
        · exact le_rfl
  · exact le_rfl

theorem le_endTime (hfull : c.fullCoverage = true) {last : Int} (hlast : last ≤ endNow) :
    last ≤ c.endTime (some last) endNow := by
  simp only [CoverageConfig.endTime, hfull, if_true]
  split
  · exact hlast
  · split
    · split
      · exact hlast
      · omega
    · exact hlast

theorem startTime_le_endTime (hfull : c.fullCoverage = true) (hclock : startNow ≤ endNow)
    (hlast : ∀ last ∈ s.lastEndTime, last ≤ endNow) :
    c.startTime s.lastEndTime startNow ≤ c.endTime s.lastEndTime endNow := by
  cases hend : s.lastEndTime with
  | none =>
    simp only [CoverageConfig.startTime, CoverageConfig.endTime, hfull, if_true]
    omega
  | some last =>
    have hstart : c.startTime (some last) startNow = last := by
      simp only [CoverageConfig.startTime, hfull, if_true]
    rw [hstart]
    exact le_endTime hfull (hlast last hend)

theorem bounded_iff (hfull : c.fullCoverage = true) :
    (∀ maxTimeRange ∈ c.maxTimeRange,
      c.endTime s.lastEndTime endNow - c.startTime s.lastEndTime startNow ≤ maxTimeRange) ↔
      Fits c s startNow endNow := by
  unfold Fits
  apply forall₂_congr
  intro maxTimeRange hmax
  obtain hmax : c.maxTimeRange = some maxTimeRange := hmax
  cases s.lastEndTime with
  | none =>
    simp only [CoverageConfig.startTime, CoverageConfig.endTime, hfull, if_true, Option.mem_def,
      reduceCtorEq, true_implies, false_implies, implies_true, and_true]
    omega
  | some last =>
    simp only [CoverageConfig.startTime, CoverageConfig.endTime, hfull, if_true, hmax,
      Option.mem_def, Option.some.injEq, forall_eq', reduceCtorEq, false_implies, true_and]
    split
    · omega
    · split <;> omega

theorem covers_iff (hfull : c.fullCoverage = true) (hs : Tracked c s)
    (hclock : s.clock ≤ startNow ∧ startNow ≤ endNow) :
    Covers c s endNow (c.searched (c.startTime s.lastEndTime startNow)
      (c.endTime s.lastEndTime endNow)) ↔ Fits c s startNow endNow := by
  have hlength : ∀ startTime endTime : Int,
      (c.searched startTime endTime).endTime - (c.searched startTime endTime).startTime =
        endTime - startTime := by
    intro startTime endTime
    simp only [CoverageConfig.searched]
    omega
  rw [← bounded_iff hfull]
  constructor
  · intro h maxTimeRange hmax
    rw [← hlength]
    exact h.bounded maxTimeRange hmax
  · intro h
    refine ⟨?_, ?_, ?_, ?_⟩
    · -- the search starts at the last end, and both ranges are shifted by the offset
      intro last hlast
      have hend := hs.last last hlast
      rw [hend]
      simp only [CoverageConfig.searched, CoverageConfig.startTime, hfull, if_true]
      omega
    · have hle := startTime_le_endTime (c := c) (s := s) hfull hclock.2
        fun last hlast => Int.le_trans (hs.past last hlast) (Int.le_trans hclock.1 hclock.2)
      simp only [CoverageConfig.searched]
      omega
    · have hle := endTime_le c s.lastEndTime endNow
      simp only [CoverageConfig.searched]
      omega
    · intro maxTimeRange hmax
      rw [hlength]
      exact h maxTimeRange hmax

theorem promised_iff (hfull : c.fullCoverage = true) (hs : Tracked c s) {event : CoverageEvent}
    (hclock : ClockRuns s event) : CoverageSafe c s event ↔ Promised c s event := by
  cases event with
  | execute startNow endNow outcome =>
    cases outcome with
    | processed =>
      simp only [CoverageSafe, Promised, if_true]
      exact (covers_iff hfull hs hclock).symm
    | processingRaises =>
      simp only [CoverageSafe, Promised, reduceCtorEq, if_false, CoverageEvent.step,
        lastEndTime_setLastEndTime]
      exact eq_comm
    | queryRaises =>
      simp [CoverageSafe, Promised, CoverageEvent.step, Coverage.load, Coverage.lastEndTime]
    | noResult =>
      simp [CoverageSafe, Promised, CoverageEvent.step, Coverage.load, Coverage.lastEndTime]
  | reload =>
    simp only [CoverageSafe, Promised, CoverageEvent.step, true_iff]
    rcases hs.synced with h | h <;> simp [Coverage.lastEndTime, h]

theorem Tracked.step (hs : Tracked c s) {event : CoverageEvent} (hclock : ClockRuns s event)
    (hsafe : CoverageSafe c s event) : Tracked c (event.step c s) := by
  cases event with
  | execute startNow endNow outcome =>
    have hnow : s.clock ≤ endNow := Int.le_trans hclock.1 hclock.2
    have hload : s.load.lastEndTime = s.lastEndTime := rfl
    have hsynced : s.lastEndTime = s.persisted := by
      rcases hs.synced with h | h <;> simp [Coverage.lastEndTime, h]
    have hkept : Tracked c { s.load with clock := endNow } :=
      ⟨.inr (congrArg some hsynced), fun last hlast => Int.le_trans (hs.past last hlast) hnow, hs.last⟩
    cases outcome with
    | queryRaises => exact hkept
    | noResult => exact hkept
    | processingRaises =>
      -- the end that is recorded is the one that was there
      refine ⟨.inr rfl, ?_, ?_⟩
      · intro last hlast
        obtain rfl := Option.some.inj hlast
        exact endTime_le c s.lastEndTime endNow
      · intro range hrange
        exact hsafe.symm.trans (hs.last range hrange)
    | processed =>
      refine ⟨.inr rfl, ?_, ?_⟩
      · intro last hlast
        obtain rfl := Option.some.inj hlast
        exact endTime_le c s.lastEndTime endNow
      · intro range hrange
        obtain rfl := Option.some.inj hrange
        simp only [CoverageEvent.step, CoverageConfig.searched, Int.sub_add_cancel]
        rfl
  | reload =>
    have hlast : (CoverageEvent.reload.step c s).lastEndTime = s.lastEndTime := by
      rcases hs.synced with h | h <;> simp [CoverageEvent.step, Coverage.lastEndTime, h]
    exact ⟨.inl rfl, hlast ▸ hs.past, hlast ▸ hs.last⟩

end Steps

/-- **The processed ranges tile the time**, none ends in the future or is too long, and only they
move `last_end_time`, in exactly those runs in which processing does not fail with results at
hand and the ranges fit. -/
theorem fullCoverage_iff (hfull : c.fullCoverage = true) {s : Coverage}
    (hnew : s.loaded = none ∧ s.processed = []) (hpast : ∀ last ∈ s.persisted, last ≤ s.clock)
    {events : List CoverageEvent} (hclock : Along (CoverageEvent.step c) ClockRuns s events) :
    Along (CoverageEvent.step c) (Promised c) s events ↔
      Along (CoverageEvent.step c) (CoverageSafe c) s events := by
  symm
  apply along_iff_of_assuming (Tracked c) _ _ _ hclock
  · exact fun s event hs hclock hsafe => hs.step hclock hsafe
  · exact fun s event hs hclock => promised_iff hfull hs hclock
  · refine ⟨.inl hnew.1, ?_, ?_⟩
    · simpa only [Coverage.lastEndTime, hnew.1, Option.getD_none] using hpast
    · simp [hnew.2]

/-! ## §5 Processing that fails -/

section Examples

/-- A hunt over the last hour, in seconds, with at most a day. -/
def hourlyHunt : CoverageConfig := ⟨true, 3600, some 86400, none⟩

def hourlyCoverage : Coverage := ⟨none, some 100000, 100000, []⟩

/-- The results of the second hour are not processed, those of the third are. -/
def failedHour : List CoverageEvent :=
  [.execute 103600 103600 .processed, .execute 107200 107200 .processingRaises,
    .execute 110800 110800 .processed]

/-- The ranges leave the second hour out. -/
theorem failed_hour_is_skipped :
    (failedHour.foldl (CoverageEvent.step hourlyHunt) hourlyCoverage).processed =
        [⟨107200, 110800⟩, ⟨100000, 103600⟩] ∧
      Along (CoverageEvent.step hourlyHunt) ClockRuns hourlyCoverage failedHour ∧
      ¬ Along (CoverageEvent.step hourlyHunt) (Promised hourlyHunt) hourlyCoverage failedHour := by
  refine ⟨by decide, by decide, ?_⟩
  rintro ⟨-, hfailed, -⟩
  -- the end has moved with the execution whose results were not processed
  have hmoved : some (107200 : Int) = some 103600 := hfailed
  exact absurd hmoved (by decide)

/-- A query that fails instead leaves its hour to the next execution. -/
theorem failed_query_is_made_up :
    Along (CoverageEvent.step hourlyHunt) (Promised hourlyHunt) hourlyCoverage
      [.execute 103600 103600 .processed, .execute 107200 107200 .queryRaises, .reload,
        .execute 110800 110800 .processed] := by
  exact (fullCoverage_iff hourlyHunt rfl ⟨rfl, rfl⟩ (by decide) (by decide)).mpr (by decide)

end Examples

end Ace3.Collectors
