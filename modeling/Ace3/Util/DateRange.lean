import Ace3.Lib.Trim
import Ace3.Util.LocalBoundaries

/-!
# Date Ranges

`parse_date_range` and `resolve_date_range_for_display` of `saq/util/relative_time.py`, on any text.
-/

namespace Ace3.Util

open Lib Lib.Calendar

/-- What Python knows about the characters of all scripts. -/
structure CharTables where
  isSpace : Char → Bool
  /-- The value of a decimal digit. -/
  digit : Char → Option ℕ

/-! ## §1 Tokens -/

/-- A number with its unit: the digits, and the seconds of the unit if `_UNIT_MAP` has it. -/
abbrev Component := List ℕ × Option ℕ

/-- A match of `_RELATIVE_RE` that is a token. The sign is `+` where the flag of the offset is set;
the unit of the snap is missing where `_SNAP_FIELDS` does not have it. -/
structure DateToken where
  offset : Option (Bool × List Component)
  snap : Option (Option SnapUnit)
  deriving DecidableEq

/-- A character that `[smhdwy]` matches. -/
def componentUnit (c : Char) : Option (Option ℕ) :=
  if c = 'ſ' then some none
  else ([('s', 1), ('m', 60), ('h', 3600), ('d', 86400), ('w', 604800), ('y', 31536000)].lookup
    c.toLower).map some

/-- What `(?:@(?P<snap>mon|[smhdwy]))?$` matches. -/
def snapPart : List Char → Option (Option (Option SnapUnit))
  | [] => some none
  | _ :: unit =>
    if unit = ['ſ'] then some (some none)
    else (snapUnit (String.ofList (unit.map Char.toLower))).map fun unit => some (some unit)

namespace CharTables

variable (tables : CharTables)

/-- `\d+\s*[smhdwy](?:\s*\d+\s*[smhdwy])*`, where `digits` have been read of a number. -/
def magnitude (digits : List ℕ) : MagnitudeState → List Char → Option (List Component)
  | state, [] => if state = .unit then some [] else none
  | state, c :: text =>
    match tables.digit c with
    | some d => if state = .gap then none else magnitude (digits ++ [d]) .digits text
    | none =>
      if tables.isSpace c then
        match state with
        | .start => none
        | .digits | .gap => magnitude digits .gap text
        | .unit | .between => magnitude [] .between text
      else
        match state, componentUnit c with
        | .digits, some unit | .gap, some unit =>
          (magnitude [] .unit text).map ((digits, unit) :: ·)
        | _, _ => none

/-- The part of a token before `@`. -/
def offsetPart : List Char → Option (Option (Bool × List Component))
  | [] => some none
  | c :: text =>
    if (c :: text).map Char.toLower = ['n', 'o', 'w'] then some none
    else if c = '+' ∨ c = '-' then
      (tables.magnitude [] .start text).map fun components => some (c = '+', components)
    else none

/-- A text without the white space at its ends, as a token. -/
def token? (text : List Char) : Option DateToken := do
  let offset ← tables.offsetPart (text.takeWhile (· ≠ '@'))
  let snap ← snapPart (text.dropWhile (· ≠ '@'))
  if text = [] then none else return ⟨offset, snap⟩

/-! ## §2 Dates -/

/-- A digit of a range, as `[a-b]` matches it. -/
def digitIn (a b c : Char) : Option ℕ :=
  if a ≤ c ∧ c ≤ b then some (c.toNat - '0'.toNat) else none

/-- `%m` -/
def monthField : List Char → Option ℕ
  | ['1', c] => (digitIn '0' '2' c).map (10 + ·)
  | ['0', c] | [c] => digitIn '1' '9' c
  | _ => none

/-- `%d` -/
def dayField : List Char → Option ℕ
  | ['3', c] => (digitIn '0' '1' c).map (30 + ·)
  | ['1', c] => (tables.digit c).map (10 + ·)
  | ['2', c] => (tables.digit c).map (20 + ·)
  | ['0', c] | [' ', c] | [c] => digitIn '1' '9' c
  | _ => none

/-- `%Y` -/
def yearField (text : List Char) : Option ℕ :=
  if text.length = 4 then (text.mapM tables.digit).map (·.foldl (10 * · + ·) 0) else none

/-- `%H` -/
def hourField : List Char → Option ℕ
  | ['2', c] => (digitIn '0' '3' c).map (20 + ·)
  | ['1', c] => (tables.digit c).map (10 + ·)
  | ['0', c] | [c] => tables.digit c
  | _ => none

/-- `%M` -/
def minuteField : List Char → Option ℕ
  | [c, d] => do return 10 * (← digitIn '0' '5' c) + (← tables.digit d)
  | [c] => tables.digit c
  | _ => none

/-- What is before the first character of this kind, and what is after it. -/
def cut (c : Char) (text : List Char) : Option (List Char × List Char) :=
  match text.dropWhile (· ≠ c) with
  | [] => none
  | _ :: rest => some (text.takeWhile (· ≠ c), rest)

/-- `datetime.strptime(token, "%m-%d-%Y %H:%M")`, or `ValueError`. -/
def strptime (text : List Char) : Option ℕ := do
  let (month, text) ← cut '-' text
  let (day, text) ← cut '-' text
  let (hour, minute) ← cut ':' ((text.drop 4).dropWhile tables.isSpace)
  let y ← tables.yearField (text.take 4)
  let m ← monthField month
  let d ← tables.dayField day
  if 1 ≤ y ∧ d ≤ daysBeforeMonth (isLeap y) (m + 1) - daysBeforeMonth (isLeap y) m ∧
      (text.drop 4).head?.any tables.isSpace then
    return ordinal y m d * Util.day + (← tables.hourField hour) * Util.hour +
      (← tables.minuteField minute) * Util.minute
  else none

end CharTables

/-! ## §3 Ranges -/

/-- What `parse_date_range` raises. -/
inductive DateError where
  | relativeTimeError
  | valueError
  | overflowError
  | keyError
  deriving DecidableEq

def datetime {α : Type} : Option α → Except DateError α
  | some x => .ok x
  | none => .error .overflowError

/-- `parse_timespec` of a magnitude, in seconds; more than a `timedelta` holds is more than the
calendar. `int` takes 4300 digits. -/
def parseTimespec : List Component → Except DateError ℕ
  | [] => .ok 0
  | (digits, unit) :: components =>
    if 4300 < digits.length then .error .valueError
    else
      match unit with
      | none => .error .keyError
      | some seconds =>
        (parseTimespec components).map (digits.foldl (10 * · + ·) 0 * seconds + ·)

/-- A time zone of `pytz` with its `localize`, which fails for some wall clocks at the limits of the
calendar. -/
structure LocalZone extends Zone where
  localize : ℕ → Option Aware

namespace LocalZone

variable (tables : CharTables) (zone : LocalZone) (now : Aware)

/-- `parse_relative_time`, in the time zone. -/
def moment (token : DateToken) : Except DateError Aware := do
  let result ← datetime (zone.normalize now)
  let result ← match token.offset with
    | none => pure result
    | some (forward, components) =>
      parseTimespec components >>= fun seconds => datetime (zone.shift result forward seconds)
  match token.snap with
  | none => pure result
  | some none => .error .keyError
  | some (some unit) => datetime ((snap unit result).bind zone.normalize)

def parseEndpoint (text : List Char) : Except DateError ℕ :=
  let text := Trim.trimEnds tables.isSpace tables.isSpace text
  match tables.token? text with
  | some token => zone.moment now token >>= fun result => datetime result.toUtc
  | none =>
    match tables.strptime text with
    | none => .error .relativeTimeError
    | some naive => datetime ((zone.localize naive).bind Aware.toUtc)

/-- `value.split(" - ")` -/
def splitRange : List Char → List (List Char)
  | [] => [[]]
  | ' ' :: '-' :: ' ' :: text => [] :: splitRange text
  | c :: text =>
    match splitRange text with
    | [] => [[c]]
    | part :: parts => (c :: part) :: parts

def parseDateRange (value : List Char) : Except DateError (ℕ × ℕ) :=
  match splitRange value with
  | [part] => do
    let resolved ← zone.parseEndpoint tables now part
    let nowUtc ← datetime now.toUtc
    return if resolved ≤ nowUtc then (resolved, nowUtc) else (nowUtc, resolved)
  | [start, stop] => do
    return (← zone.parseEndpoint tables now start, ← zone.parseEndpoint tables now stop)
  | _ => .error .relativeTimeError

/-- `strftime(ABSOLUTE_DATE_FORMAT)` -/
def strftime (v : Aware) : String :=
  let pad (width n : ℕ) := String.ofList ((toString n).toList.leftpad width '0')
  let k := v.wall / day
  s!"{pad 2 (monthOf k)}-{pad 2 (dayOf k)}-{pad 4 (yearOf k)} " ++
    s!"{pad 2 (v.wall / hour % 24)}:{pad 2 (v.wall / minute % 60)}"

def resolveDateRangeForDisplay (value : List Char) : Except DateError String :=
  match zone.parseDateRange tables now value with
  | .error .relativeTimeError | .error .valueError => .ok ""
  | .error e => .error e
  | .ok (start, stop) => do
    return strftime (← datetime (zone.fromUtc start)) ++ " – " ++
      strftime (← datetime (zone.fromUtc stop))

end LocalZone

/-! ## §4 What is handled -/

/-- `int` reads all numbers, and the tables have all units. -/
structure DateToken.Plain (token : DateToken) : Prop where
  offset : ∀ offset ∈ token.offset, ∀ c ∈ offset.2, c.1.length ≤ 4300 ∧ c.2.isSome
  snap : token.snap ≠ some none

def seconds (components : List Component) : ℕ :=
  (components.map fun c => c.1.foldl (10 * · + ·) 0 * c.2.getD 0).sum

theorem parseTimespec_eq {components : List Component}
    (h : ∀ c ∈ components, c.1.length ≤ 4300 ∧ c.2.isSome) :
    parseTimespec components = .ok (seconds components) := by
  induction components with
  | nil => rfl
  | cons first components ih =>
    obtain ⟨digits, unit⟩ := first
    obtain ⟨hdigits, hunit⟩ := h _ List.mem_cons_self
    obtain ⟨n, rfl⟩ := Option.isSome_iff_exists.mp hunit
    rw [parseTimespec, if_neg (Nat.not_lt.mpr hdigits),
      ih fun c hc => h c (List.mem_cons_of_mem _ hc)]
    rfl

theorem parseTimespec_eq_error {components : List Component}
    (h : ¬ ∀ c ∈ components, c.1.length ≤ 4300 ∧ c.2.isSome) :
    ∃ e ≠ DateError.relativeTimeError, parseTimespec components = .error e := by
  induction components with
  | nil => exact absurd (fun c hc => nomatch hc) h
  | cons first components ih =>
    obtain ⟨digits, unit⟩ := first
    unfold parseTimespec
    by_cases hdigits : 4300 < digits.length
    · exact ⟨.valueError, nofun, by rw [if_pos hdigits]⟩
    · rw [if_neg hdigits]
      cases unit with
      | none => exact ⟨.keyError, nofun, rfl⟩
      | some n =>
        obtain ⟨e, he, hrest⟩ := ih fun hall => h fun c hc => by
          rcases List.mem_cons.mp hc with rfl | hc
          · exact ⟨Nat.le_of_not_lt hdigits, rfl⟩
          · exact hall c hc
        exact ⟨e, he, by simp only [hrest, Except.map]⟩

namespace LocalZone

variable (tables : CharTables) (zone : LocalZone) (now : Aware)

def shiftBy (offset : Option (Bool × List Component)) (result : Aware) : Option Aware :=
  match offset with
  | none => some result
  | some (forward, components) => zone.shift result forward (seconds components)

def snapTo (unit : Option (Option SnapUnit)) (result : Aware) : Option Aware :=
  match unit with
  | some (some unit) => (snap unit result).bind zone.normalize
  | _ => some result

/-- The moment of a token, as long as everything on the way to it is in the calendar. -/
def reached (token : DateToken) : Option Aware :=
  ((zone.normalize now).bind (zone.shiftBy token.offset)).bind (zone.snapTo token.snap)

def Accepts (text : List Char) : Prop :=
  let text := Trim.trimEnds tables.isSpace tables.isSpace text
  (tables.token? text).isSome ∨ (tables.strptime text).isSome

/-- A token has numbers and units that are known and stays in the calendar; the instant of a date is
in the calendar. -/
def Parses (text : List Char) : Prop :=
  let text := Trim.trimEnds tables.isSpace tables.isSpace text
  match tables.token? text with
  | some token => token.Plain ∧ (zone.reached now token).isSome
  | none => ∀ naive ∈ tables.strptime text, ((zone.localize naive).bind Aware.toUtc).isSome

/-- The instant of a date is in the calendar when it is shown in the time zone. -/
def Shows (text : List Char) : Prop :=
  let text := Trim.trimEnds tables.isSpace tables.isSpace text
  tables.token? text = none →
    ∀ naive ∈ tables.strptime text, ((zone.localize naive).bind zone.normalize).isSome

/-- Nothing on the way leaves the calendar or meets an unknown number or unit. -/
def Fits (value : List Char) : Prop :=
  match splitRange value with
  | [part] =>
    zone.Parses tables now part ∧
      (Accepts tables part → zone.Shows tables part ∧ (zone.normalize now).isSome)
  | [start, stop] =>
    zone.Parses tables now start ∧ (Accepts tables start → zone.Parses tables now stop ∧
      (Accepts tables stop → zone.Shows tables start ∧ zone.Shows tables stop))
  | _ => True

/-- `parse_date_range` raises `RelativeTimeError` only and orders the pair of a single token;
`resolve_date_range_for_display` returns, and an empty text where the range is rejected. -/
structure Handled (value : List Char) : Prop where
  raises : ∀ e, zone.parseDateRange tables now value = .error e → e = .relativeTimeError
  ordered : ∀ part a b, splitRange value = [part] →
    zone.parseDateRange tables now value = .ok (a, b) → a ≤ b
  display : ∃ text, zone.resolveDateRangeForDisplay tables now value = .ok text ∧
    (text = "" ↔ ∃ e, zone.parseDateRange tables now value = .error e)

variable {tables zone now}

variable {token : DateToken}

theorem moment_eq (h : token.Plain) :
    zone.moment now token = datetime (zone.reached now token) := by
  obtain ⟨offset, snap⟩ := token
  rw [moment, reached]
  cases zone.normalize now with
  | none => rfl
  | some result =>
    cases offset with
    | none =>
      match snap, h.snap with
      | none, _ => rfl
      | some (some unit), _ => rfl
    | some offset =>
      simp only [parseTimespec_eq (h.offset offset rfl), datetime, bind, Except.bind, Option.bind,
        shiftBy]
      cases zone.shift result offset.1 (seconds offset.2) with
      | none => rfl
      | some result =>
        match snap, h.snap with
        | none, _ => rfl
        | some (some unit), _ => rfl

theorem moment_eq_error (h : ¬ token.Plain) :
    ∃ e ≠ DateError.relativeTimeError, zone.moment now token = .error e := by
  obtain ⟨offset, snap⟩ := token
  have hsnap : (∀ o ∈ offset, ∀ c ∈ o.2, c.1.length ≤ 4300 ∧ c.2.isSome) → snap = some none :=
    fun hoffset => not_not.mp fun hsnap => h ⟨hoffset, hsnap⟩
  rw [moment]
  cases zone.normalize now with
  | none => exact ⟨.overflowError, nofun, rfl⟩
  | some result =>
    cases offset with
    | none =>
      obtain rfl := hsnap nofun
      exact ⟨.keyError, nofun, rfl⟩
    | some offset =>
      by_cases hoffset : ∀ c ∈ offset.2, c.1.length ≤ 4300 ∧ c.2.isSome
      · obtain rfl := hsnap fun o ho => Option.some.inj ho ▸ hoffset
        simp only [parseTimespec_eq hoffset, datetime, bind, Except.bind]
        cases zone.shift result offset.1 (seconds offset.2) with
        | none => exact ⟨.overflowError, nofun, rfl⟩
        | some result => exact ⟨.keyError, nofun, rfl⟩
      · obtain ⟨e, he, herror⟩ := parseTimespec_eq_error hoffset
        exact ⟨e, he, by simp only [herror, datetime, bind, Except.bind]⟩

theorem exists_fromUtc_of_normalize {v v' : Aware} (h : zone.normalize v = some v') :
    ∃ t, v'.toUtc = some t ∧ zone.fromUtc t = some v' := by
  obtain ⟨t, ht, hshown⟩ := Option.bind_eq_some_iff.mp h
  exact ⟨t, Zone.toUtc_fromUtc hshown (checked_eq_some_iff.mp ht).2, hshown⟩

theorem exists_fromUtc_of_reached {v : Aware} (h : zone.reached now token = some v) :
    ∃ t, v.toUtc = some t ∧ zone.fromUtc t = some v := by
  obtain ⟨result, hshift, hsnap⟩ := Option.bind_eq_some_iff.mp h
  obtain ⟨first, hfirst, hresult⟩ := Option.bind_eq_some_iff.mp hshift
  have hnormal : ∃ w, zone.normalize w = some result := by
    unfold shiftBy at hresult
    split at hresult
    · cases hresult
      exact ⟨_, hfirst⟩
    · obtain ⟨w, -, hnormal⟩ := Option.bind_eq_some_iff.mp hresult
      exact ⟨_, hnormal⟩
  unfold snapTo at hsnap
  split at hsnap
  · obtain ⟨w, -, hw⟩ := Option.bind_eq_some_iff.mp hsnap
    exact exists_fromUtc_of_normalize hw
  · cases hsnap
    exact exists_fromUtc_of_normalize hnormal.choose_spec

variable (tables zone now) in
/-- An endpoint is rejected, or it is an instant that is shown where it `Shows`, or something else
is raised. -/
theorem parseEndpoint_cases (text : List Char) :
    (¬ Accepts tables text ∧ zone.Parses tables now text ∧
        zone.parseEndpoint tables now text = .error .relativeTimeError) ∨
      (Accepts tables text ∧ zone.Parses tables now text ∧ ∃ t,
        zone.parseEndpoint tables now text = .ok t ∧
          (zone.Shows tables text ↔ (zone.fromUtc t).isSome)) ∨
      (¬ zone.Parses tables now text ∧ ∃ e ≠ DateError.relativeTimeError,
        zone.parseEndpoint tables now text = .error e) := by
  simp only [Accepts, Parses, Shows, parseEndpoint]
  generalize Trim.trimEnds tables.isSpace tables.isSpace text = text
  cases tables.token? text with
  | some token =>
    dsimp only
    by_cases hplain : token.Plain
    · rw [moment_eq hplain]
      cases hreached : zone.reached now token with
      | none => exact .inr (.inr ⟨by simp, .overflowError, nofun, rfl⟩)
      | some v =>
        obtain ⟨t, ht, hshown⟩ := exists_fromUtc_of_reached hreached
        exact .inr (.inl ⟨.inl rfl, ⟨hplain, rfl⟩, t, by
          simp only [datetime, bind, Except.bind, ht], by simp [hshown]⟩)
    · obtain ⟨e, he, herror⟩ := moment_eq_error hplain
      exact .inr (.inr ⟨fun h => hplain h.1, e, he, by rw [herror]; rfl⟩)
  | none =>
    cases tables.strptime text with
    | none => exact .inl ⟨by simp, by simp, rfl⟩
    | some naive =>
      cases hutc : (zone.localize naive).bind Aware.toUtc with
      | none => exact .inr (.inr ⟨by simp [hutc], .overflowError, nofun, by simp only [hutc]; rfl⟩)
      | some t =>
        obtain ⟨v, hv, ht⟩ := Option.bind_eq_some_iff.mp hutc
        exact .inr (.inl ⟨.inr rfl, by simp [hutc], t, by simp only [hutc]; rfl, by
          simp [hv, Zone.normalize, ht]⟩)

section Handled

variable {value : List Char}

theorem handled_of_rejected (h : zone.parseDateRange tables now value = .error .relativeTimeError) :
    zone.Handled tables now value where
  raises e he := (Except.error.inj (h.symm.trans he)).symm
  ordered part a b _ hok := nomatch h.symm.trans hok
  display := ⟨"", by rw [resolveDateRangeForDisplay, h], iff_of_true rfl ⟨_, h⟩⟩

theorem not_handled_of_error {e : DateError} (he : e ≠ .relativeTimeError)
    (h : zone.parseDateRange tables now value = .error e) : ¬ zone.Handled tables now value :=
  fun hhandled => he (hhandled.raises e h)

theorem handled_iff_of_ok {a b : ℕ} (h : zone.parseDateRange tables now value = .ok (a, b))
    (hordered : ∀ part, splitRange value = [part] → a ≤ b) :
    zone.Handled tables now value ↔ (zone.fromUtc a).isSome ∧ (zone.fromUtc b).isSome := by
  have hdisplay : zone.resolveDateRangeForDisplay tables now value =
      (datetime (zone.fromUtc a)).bind fun start => (datetime (zone.fromUtc b)).bind fun stop =>
        .ok (strftime start ++ " – " ++ strftime stop) := by
    rw [resolveDateRangeForDisplay, h]
    rfl
  constructor
  · intro hhandled
    obtain ⟨text, htext, -⟩ := hhandled.display
    rw [hdisplay] at htext
    cases ha : zone.fromUtc a with
    | none => simp [ha, datetime, Except.bind] at htext
    | some start =>
      cases hb : zone.fromUtc b with
      | none => simp [ha, hb, datetime, Except.bind] at htext
      | some stop => exact ⟨rfl, rfl⟩
  · rintro ⟨ha, hb⟩
    obtain ⟨start, hstart⟩ := Option.isSome_iff_exists.mp ha
    obtain ⟨stop, hstop⟩ := Option.isSome_iff_exists.mp hb
    constructor
    · intro e he
      cases h.symm.trans he
    · intro part a' b' hpart hok
      cases h.symm.trans hok
      exact hordered part hpart
    · refine ⟨strftime start ++ " – " ++ strftime stop, by rw [hdisplay, hstart, hstop]; rfl,
        iff_of_false (fun hempty => ?_) fun ⟨e, he⟩ => nomatch h.symm.trans he⟩
      have hlength := congrArg String.length hempty
      simp [String.length_append] at hlength

end Handled

/-- Everything is handled exactly where nothing leaves the calendar and all numbers and units are
known. -/
theorem dateRange_handled_iff (tables : CharTables) (zone : LocalZone) (now : Aware)
    (value : List Char) : zone.Handled tables now value ↔ zone.Fits tables now value := by
  rw [Fits]
  split
  next part hsplit =>
    have hparse : zone.parseDateRange tables now value = (zone.parseEndpoint tables now part).bind
        fun resolved => (datetime now.toUtc).bind fun nowUtc =>
          .ok (if resolved ≤ nowUtc then (resolved, nowUtc) else (nowUtc, resolved)) := by
      rw [parseDateRange, hsplit]
      rfl
    rcases parseEndpoint_cases tables zone now part with
      ⟨hno, hparses, hendpoint⟩ | ⟨hyes, hparses, t, hendpoint, hshows⟩ | ⟨hparses, e, he, hendpoint⟩
    · exact iff_of_true (handled_of_rejected (by rw [hparse, hendpoint]; rfl))
        ⟨hparses, fun h => absurd h hno⟩
    · rw [hshows, Zone.normalize]
      cases hnow : now.toUtc with
      | none =>
        refine iff_of_false (not_handled_of_error (e := .overflowError) (by simp) ?_) ?_
        · rw [hparse, hendpoint, hnow]
          rfl
        · rintro ⟨-, h⟩
          cases (h hyes).2
      | some n =>
        have hok : zone.parseDateRange tables now value =
            .ok (if t ≤ n then (t, n) else (n, t)) := by
          rw [hparse, hendpoint, hnow]
          rfl
        by_cases hle : t ≤ n
        · rw [if_pos hle] at hok
          rw [handled_iff_of_ok hok fun _ _ => hle]
          exact ⟨fun h => ⟨hparses, fun _ => h⟩, fun h => h.2 hyes⟩
        · rw [if_neg hle] at hok
          rw [handled_iff_of_ok hok fun _ _ => Nat.le_of_not_le hle]
          exact ⟨fun h => ⟨hparses, fun _ => h.symm⟩, fun h => (h.2 hyes).symm⟩
    · exact iff_of_false (not_handled_of_error he (by rw [hparse, hendpoint]; rfl))
        fun h => hparses h.1
  next start stop hsplit =>
    have hparse : zone.parseDateRange tables now value = (zone.parseEndpoint tables now start).bind
        fun a => (zone.parseEndpoint tables now stop).bind fun b => .ok (a, b) := by
      rw [parseDateRange, hsplit]
      rfl
    rcases parseEndpoint_cases tables zone now start with
      ⟨hno, hparses, hendpoint⟩ | ⟨hyes, hparses, a, hendpoint, hshows⟩ | ⟨hparses, e, he, hendpoint⟩
    · exact iff_of_true (handled_of_rejected (by rw [hparse, hendpoint]; rfl))
        ⟨hparses, fun h => absurd h hno⟩
    · rcases parseEndpoint_cases tables zone now stop with
        ⟨hno, hparses', hendpoint'⟩ | ⟨hyes', hparses', b, hendpoint', hshows'⟩ |
          ⟨hparses', e, he, hendpoint'⟩
      · exact iff_of_true (handled_of_rejected (by rw [hparse, hendpoint, hendpoint']; rfl))
          ⟨hparses, fun _ => ⟨hparses', fun h => absurd h hno⟩⟩
      · have hok : zone.parseDateRange tables now value = .ok (a, b) := by
          rw [hparse, hendpoint, hendpoint']
          rfl
        rw [handled_iff_of_ok hok fun part hpart => (by simp [hsplit] at hpart), ← hshows,
          ← hshows']
        exact ⟨fun h => ⟨hparses, fun _ => ⟨hparses', fun _ => h⟩⟩,
          fun h => (h.2 hyes).2 hyes'⟩
      · exact iff_of_false
          (not_handled_of_error he (by rw [hparse, hendpoint, hendpoint']; rfl))
          fun h => hparses' (h.2 hyes).1
    · exact iff_of_false (not_handled_of_error he (by rw [hparse, hendpoint]; rfl))
        fun h => hparses h.1
  next parts hone htwo =>
    refine iff_of_true (handled_of_rejected ?_) trivial
    rw [parseDateRange]
    split
    next part hpart => exact absurd hpart (hone part)
    next start stop hparts => exact absurd hparts (htwo start stop)
    next => rfl

def asciiTables : CharTables where
  isSpace := Char.isWhitespace
  digit c := if c.isDigit then some (c.toNat - '0'.toNat) else none

def utcZone : LocalZone := ⟨⟨0, []⟩, fun w => some ⟨w, 0⟩⟩

/-- A number of days that is more than the calendar has, and a unit that only matches, escape from
both functions. -/
theorem large_number_and_long_s_escape :
    let now : Aware := ⟨(ordinal 2026 1 22 * 24 + 15) * hour, 0⟩
    utcZone.parseDateRange asciiTables now "-99999999d".toList = .error .overflowError ∧
    utcZone.resolveDateRangeForDisplay asciiTables now "-99999999d".toList =
      .error .overflowError ∧
    utcZone.parseDateRange asciiTables now "-7ſ".toList = .error .keyError ∧
    ¬ utcZone.Handled asciiTables now "-99999999d".toList ∧
    ¬ utcZone.Handled asciiTables now "-7ſ".toList := by
  intro now
  have hlarge : utcZone.parseDateRange asciiTables now "-99999999d".toList =
      .error .overflowError := by decide
  have hlong : utcZone.parseDateRange asciiTables now "-7ſ".toList = .error .keyError := by
    decide
  exact ⟨hlarge, by rw [resolveDateRangeForDisplay, hlarge], hlong,
    not_handled_of_error (by decide) hlarge, not_handled_of_error (by decide) hlong⟩

end LocalZone

end Ace3.Util
