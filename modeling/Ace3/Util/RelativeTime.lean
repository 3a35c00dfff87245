import Ace3.Correlation.Commands
import Ace3.EmailArchive.LocalArchive
import Ace3.Lib.Calendar

/-!
# Relative Times

`parse_relative_time` of `saq/util/relative_time.py`, for the time zones of `pytz`. The text of a
token is in ASCII.
-/

namespace Ace3.Util

open Lib Lib.Calendar

/-! ## §1 ℕ clocks -/

abbrev second : ℕ := 1000000

abbrev minute : ℕ := 60000000

abbrev hour : ℕ := 3600000000

abbrev day : ℕ := 86400000000

def maxWall : ℕ := daysBeforeYear 10000 * day

/-- A `datetime`, or `OverflowError`. -/
def checked (w : ℤ) : Option ℕ := if 0 ≤ w ∧ w < maxWall then some w.toNat else none

/-- The fields that `replace` is given. -/
structure Fields where
  month : Option ℕ := none
  day : Option ℕ := none
  hour : Option ℕ := none
  minute : Option ℕ := none
  second : Option ℕ := none
  microsecond : Option ℕ := none
  deriving DecidableEq

/-- `datetime.replace`. -/
def replace (w : ℕ) (fields : Fields) : ℕ :=
  let k := w / day
  ordinal (yearOf k) (fields.month.getD (monthOf k)) (fields.day.getD (dayOf k)) * day +
    fields.hour.getD (w / hour % 24) * hour + fields.minute.getD (w / minute % 60) * minute +
    fields.second.getD (w / second % 60) * second + fields.microsecond.getD (w % second)

/-! ## §2 Time zones -/

/-- A time zone: the offset from UTC at first, and the changes of it in their order, each with the
instant from which it is in effect. -/
structure Zone where
  initial : ℤ
  transitions : List (ℕ × ℤ)
  deriving DecidableEq

/-- A `datetime` with the offset that it carries. -/
structure Aware where
  wall : ℕ
  offset : ℤ
  deriving DecidableEq

/-- `astimezone(pytz.utc)`: the instant, as a wall clock of UTC. -/
def Aware.toUtc (v : Aware) : Option ℕ := checked (v.wall - v.offset)

namespace Zone

def offsetAt (zone : Zone) (i : ℕ) : ℤ :=
  ((zone.transitions.filter (·.1 ≤ i)).getLast?.map (·.2)).getD zone.initial

def wallAt (zone : Zone) (i : ℕ) : Option ℕ := checked (i + zone.offsetAt i)

/-- `tz.fromutc`. -/
def fromUtc (zone : Zone) (i : ℕ) : Option Aware :=
  (zone.wallAt i).map fun w => ⟨w, zone.offsetAt i⟩

/-- `astimezone(tz)`, and `tz.normalize`: the same instant with the offset in effect then. -/
def normalize (zone : Zone) (v : Aware) : Option Aware := v.toUtc.bind zone.fromUtc

end Zone

/-! ## §3 Tokens -/

inductive SnapUnit where
  | s | m | h | d | w | mon | y
  deriving DecidableEq

def SnapUnit.text : SnapUnit → String
  | .s => "s" | .m => "m" | .h => "h" | .d => "d" | .w => "w" | .mon => "mon" | .y => "y"

def snapUnit (text : String) : Option SnapUnit :=
  [SnapUnit.s, .m, .h, .d, .w, .mon, .y].find? fun unit => unit.text = text

/-- The groups of `_RELATIVE_RE`; the sign is `+` where `forward` is set. -/
structure RelativeToken where
  offset : Option (Bool × String)
  snap : Option SnapUnit
  deriving DecidableEq

/-- Where a magnitude is read: at its begin, in a number, in the space after one, after a unit, or
in the space after that. -/
inductive MagnitudeState where
  | start | digits | gap | unit | between
  deriving DecidableEq

/-- `\d+\s*[smhdwy](?:\s*\d+\s*[smhdwy])*` -/
def isMagnitude : MagnitudeState → List Char → Bool
  | state, [] => state = .unit
  | state, c :: text =>
    if c.isDigit then state ≠ .gap && isMagnitude .digits text
    else if c.isWhitespace then
      match state with
      | .start => false
      | .digits | .gap => isMagnitude .gap text
      | .unit | .between => isMagnitude .between text
    else
      match state with
      | .digits | .gap => c.toLower ∈ ['s', 'm', 'h', 'd', 'w', 'y'] && isMagnitude .unit text
      | _ => false

/-- The part of a token before `@`. -/
def matchOffset : List Char → Option (Option (Bool × String))
  | [] => some none
  | c :: text =>
    if (c :: text).map Char.toLower = ['n', 'o', 'w'] then some none
    else if (c = '+' ∨ c = '-') ∧ isMagnitude .start text then
      some (some (c = '+', String.ofList text))
    else none

def matchSnap : List Char → Option (Option SnapUnit)
  | [] => some none
  | _ :: unit => (snapUnit (String.ofList (unit.map Char.toLower))).map some

/-- A match of `_RELATIVE_RE` that is a token: the empty text is none. -/
def relativeToken (value : String) : Option RelativeToken := do
  let text := (EmailArchive.strip value).toList
  let offset ← matchOffset (text.takeWhile (· ≠ '@'))
  let snap ← matchSnap (text.dropWhile (· ≠ '@'))
  if text = [] then none else return ⟨offset, snap⟩

/-! ## §4 Snaps -/

def snapFields : SnapUnit → Fields
  | .s => { microsecond := some 0 }
  | .m => { microsecond := some 0, second := some 0 }
  | .h => { microsecond := some 0, second := some 0, minute := some 0 }
  | .d | .w => { microsecond := some 0, second := some 0, minute := some 0, hour := some 0 }
  | .mon =>
    { microsecond := some 0, second := some 0, minute := some 0, hour := some 0, day := some 1 }
  | .y =>
    { microsecond := some 0, second := some 0, minute := some 0, hour := some 0, day := some 1,
      month := some 1 }

/-- What `_snap` does to a wall clock. -/
def snapWall (unit : SnapUnit) (w : ℕ) : Option ℕ :=
  let result := replace w (snapFields unit)
  -- the week begins on the Sunday before
  if unit = .w then checked (result - ((weekday (result / day) + 1) % 7 * day : ℕ))
  else some result

def snap (unit : SnapUnit) (v : Aware) : Option Aware :=
  (snapWall unit v.wall).map fun w => ⟨w, v.offset⟩

/-! ## §5 Instants -/

inductive TimeError where
  | relativeTimeError
  | valueError
  | overflowError
  deriving DecidableEq

/-- A `datetime`, or the exception. -/
def orOverflow {α : Type} : Option α → Except TimeError α
  | some x => .ok x
  | none => .error .overflowError

def Zone.shift (zone : Zone) (result : Aware) (forward : Bool) (seconds : ℕ) : Option Aware := do
  let delta : ℤ := seconds * second
  let w ← checked (if forward then result.wall + delta else result.wall - delta)
  zone.normalize ⟨w, result.offset⟩

def Zone.offsetMoment (zone : Zone) (now : Aware) (token : RelativeToken) :
    Except TimeError Aware := do
  let result ← orOverflow (zone.normalize now)
  match token.offset with
  | none => return result
  | some (forward, magnitude) =>
    match Correlation.timespecSeconds magnitude with
    | none => .error .valueError
    | some seconds => orOverflow (zone.shift result forward seconds)

def parseRelativeTime (zone : Zone) (now : Aware) (value : String) : Except TimeError ℕ := do
  match relativeToken value with
  | none => .error .relativeTimeError
  | some token =>
    let result ← zone.offsetMoment now token
    let result ← match token.snap with
      | none => pure result
      | some unit => orOverflow ((snap unit result).bind zone.normalize)
    orOverflow result.toUtc

end Ace3.Util
