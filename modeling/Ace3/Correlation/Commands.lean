import Ace3.Correlation.Steps
import Mathlib.Algebra.GroupWithZero.Nat

/-!
# Commands of a Correlation

`execute_command` and the three stores it looks into before it asks a query source or starts a
process: the results of the run, the persistent cache and the saved results of an earlier run
(`saq/collectors/hunter/correlation/commands.py`, `cache.py`, `saq/util/timespec.py`).
-/

namespace Ace3.Correlation

open Lib.Json

/-! ## §1 Timespecs -/

/-- The digits read so far, and whether a space was read after them. -/
inductive TimespecState where
  | start
  | count (digits : Nat) (spaced : Bool)

def timespecUnit (letter : Char) : Option Nat :=
  match letter.toLower with
  | 's' => some 1
  | 'm' => some 60
  | 'h' => some 3600
  | 'd' => some 86400
  | 'w' => some 604800
  | 'y' => some (365 * 86400)
  | _ => none

/-- The matches of `(\d+)\s*([smhdwy])`, in seconds. -/
def timespecMatches : TimespecState → List Char → List Nat
  | _, [] => []
  | state, letter :: text =>
    match state with
    | .start =>
      if letter.isDigit then timespecMatches (.count (letter.toNat - '0'.toNat) false) text
      else timespecMatches .start text
    | .count digits spaced =>
      if letter.isDigit then
        timespecMatches (.count ((if spaced then 0 else 10 * digits) +
          (letter.toNat - '0'.toNat)) false) text
      else if letter.isWhitespace then timespecMatches (.count digits true) text
      else
        match timespecUnit letter with
        | some seconds => digits * seconds :: timespecMatches .start text
        | none => timespecMatches .start text

def timespecSeconds (value : String) : Option Nat :=
  match timespecMatches .start value.toList with
  | [] => none
  | counts => some counts.sum

example : timespecSeconds "8h 30m5s" = some 30605 := by decide

def showTimedelta (seconds : Nat) : String :=
  let twoDigits (n : Nat) := if n < 10 then s!"0{n}" else s!"{n}"
  let clock := s!"{seconds / 3600 % 24}:{twoDigits (seconds / 60 % 60)}:{twoDigits (seconds % 60)}"
  match seconds / 86400 with
  | 0 => clock
  | 1 => s!"1 day, {clock}"
  | days => s!"{days} days, {clock}"

/-! ## §2 Calls -/

/-- `build_jinja_context` -/
structure JinjaContext where
  event : Value
  events : List Value
  config : Option Value
  secrets : Option Value := none

structure QueryCall where
  query : String
  startTime : Instant
  endTime : Instant
  timeout : Nat
  sourceOptions : Dict

structure QuerySource where
  defaultTimeField : Option String
  defaultTimeFormat : Option String
  executeQuery : QueryCall → Except String (List Value)

/-- What is passed to `subprocess.run`. The directory is a new one each time. -/
structure ExecutableCall where
  args : List String
  env : List (String × String)
  stdin : Option String
  timeout : Nat

/-- What `subprocess.run` returns, or that it raises `TimeoutExpired`. -/
inductive ProcessOutcome where
  | exited (returncode : Int) (stdout stderr : String)
  | timedOut

/-- What the commands take from Python, jinja, the registered query sources and the host. -/
structure CommandLibrary where
  render : JinjaContext → String → Except String String
  repr : String → String
  /-- `to_command_config`, which raises where the overrides are not valid. -/
  toCommandConfig : CommandConfig → Option Dict → Except String CommandConfig
  parseTimeValue : Value → Option String → Except String Instant
  dumps : Value → String
  loads : String → Except String Value
  /-- The lines of an output that are not empty. -/
  lines : String → List String
  sha256 : String → String
  sources : String → Option QuerySource
  run : ExecutableCall → ProcessOutcome
  recursionLimit : Nat

/-- The arguments of `execute_command`, and the environment of the process. -/
structure Invocation where
  command : CommandConfig
  event : Value
  events : List Value
  transformType : String
  predefinedCommands : List PredefinedCommandConfig
  huntStartTime : Instant
  huntEndTime : Instant
  secrets : Value
  config : Option Value
  currentSource : Option String
  environ : List (String × String)

def CommandConfig.sourceName (command : CommandConfig) : String := command.source.getD "None"

def CommandConfig.pathName (command : CommandConfig) : String := command.path.getD "None"

def CommandConfig.caches (command : CommandConfig) : Bool := command.cache.any (· ≠ "")

/-! ## §3 Time ranges -/

def Instant.shift (instant : Instant) (seconds : Int) : Instant :=
  { instant with moment := instant.moment + 1000000 * seconds }

namespace CommandLibrary

variable (lib : CommandLibrary)

def parseTimespec (value : String) : Except String Nat :=
  match timespecSeconds value with
  | some seconds => .ok seconds
  | none => .error s!"invalid timespec: {lib.repr value}"

def optionalTimespec (value : Option String) : Except String Nat :=
  match value.filter (· ≠ "") with
  | some value => lib.parseTimespec value
  | none => .ok 0

def resolveTimeFieldAndFormat (command : CommandConfig) (currentSource : Option String) :
    Option String × Option String :=
  let explicitField := command.timeRange.bind (·.relativeTimeField)
  let explicitFormat := command.timeRange.bind (·.relativeTimeFormat)
  let source := currentSource.bind lib.sources
  if explicitField.isSome ∧ explicitFormat.isSome then (explicitField, explicitFormat)
  else (explicitField.or (source.bind (·.defaultTimeField)),
    explicitFormat.or (source.bind (·.defaultTimeFormat)))

def resolveTimeRange (command : CommandConfig) (inv : Invocation) :
    Except String (Instant × Instant) := do
  let before ← lib.optionalTimespec (command.timeRange.bind (·.before))
  let after ← lib.optionalTimespec (command.timeRange.bind (·.after))
  match inv.transformType, lib.resolveTimeFieldAndFormat command inv.currentSource with
  | "event", (some name, format) =>
    match ← contains inv.event name with
    | false => .error (s!"event missing time field {name} required by query time_range " ++
        "(source=" ++ inv.currentSource.getD "None" ++ ")")
    | true =>
      let reference ← lib.parseTimeValue ((field inv.event name).getD .null) format
      return (reference.shift (-before), reference.shift after)
  | _, _ => return (inv.huntStartTime.shift (-before), inv.huntEndTime.shift after)

end CommandLibrary

/-! ## §4 Stores -/

/-- A `CorrelateQueryRecorder`: the saved results, and the captured ones with their sources and
queries, in the order in which they came. -/
structure Recorder where
  replay : String × String → Option String := fun _ => none
  captured : List ((String × String) × String) := []

/-- `record`: the first output for a query stays. -/
def Recorder.record (recorder : Recorder) (key : String × String) (output : String) : Recorder :=
  if (recorder.captured.lookup key).isSome then recorder
  else { recorder with captured := recorder.captured ++ [(key, output)] }

/-- The persistent cache, the stream query cache of an engine and its recorder. -/
structure Stores where
  persistent : String → Option String := fun _ => none
  streamQueryCache : String → Option String := fun _ => none
  recorder : Recorder := {}

/-- Whether the persistent cache can be read and written at the moment: what it raises is only
logged. -/
structure Redis where
  readable : Bool
  writable : Bool

def getCachedResult (redis : Redis) (command : CommandConfig) (key : String) (stores : Stores) :
    Option String :=
  if command.caches ∧ redis.readable then stores.persistent key else none

namespace CommandLibrary

variable (lib : CommandLibrary)

/-- `set_cached_result`, if the command caches. The duration is parsed before anything is caught,
and the database refuses one of no seconds. -/
def setCachedResult (redis : Redis) (command : CommandConfig) (key output : String)
    (stores : Stores) : Except String Stores :=
  if command.caches then
    match lib.parseTimespec (command.cache.getD "") with
    | .error error => .error error
    | .ok ttl =>
      if redis.writable ∧ 0 < ttl then
        .ok { stores with persistent := Function.update stores.persistent key (some output) }
      else .ok stores
  else .ok stores

def makeCacheKey (commandArgs : Dict) : String :=
  "hunt_cache:" ++ lib.sha256 (lib.dumps (.dict commandArgs))

def jsonLines (rows : List Value) : String := "\n".intercalate (rows.map lib.dumps)

/-- A saved result, of the source, the query and the rows. -/
abbrev SavedQuery := (String × String) × List Value

def exportQueries (recorder : Recorder) : Except String (List SavedQuery) :=
  recorder.captured.mapM fun entry =>
    ((lib.lines entry.2).mapM lib.loads).map fun rows => (entry.1, rows)

/-- `CorrelateQueryRecorder(replay=...)`: of two results for a query the last one counts. -/
def newRecorder (replay : List SavedQuery) : Recorder where
  replay key := (replay.reverse.lookup key).map lib.jsonLines

/-! ## §5 Queries -/

def renderQuery (command : CommandConfig) (inv : Invocation) : Except String String :=
  match command.query with
  | some query =>
    lib.render { event := inv.event, events := inv.events, config := inv.config } query
  | none => .error "Can't compile non template nodes"

def streamKey (command : CommandConfig) (queryStr : String) : String :=
  s!"query:{command.sourceName}:{queryStr}"

def queryCacheKey (command : CommandConfig) (queryStr : String) : String :=
  lib.makeCacheKey [("type", .str "query"), ("source", .str command.sourceName),
    ("query", .str queryStr)]

def runQuery (command : CommandConfig) (inv : Invocation) (queryStr : String) :
    Except String String := do
  let (startTime, endTime) ← lib.resolveTimeRange command inv
  let timeout ← lib.parseTimespec command.timeout
  match lib.sources command.sourceName with
  | none => .error s!"query source not registered: {lib.repr command.sourceName}"
  | some source =>
    let results ← source.executeQuery
      { query := queryStr
        startTime := startTime
        endTime := endTime
        timeout := timeout
        sourceOptions := command.sourceOptions }
    return lib.jsonLines results

def storeQuery (redis : Redis) (command : CommandConfig) (inv : Invocation)
    (queryStr output : String) (stores : Stores) : Except String String × Stores :=
  let recorded := { stores with
    recorder := stores.recorder.record (command.sourceName, queryStr) output }
  match lib.setCachedResult redis command (lib.queryCacheKey command queryStr) output recorded with
  | .error error => (.error error, recorded)
  | .ok stored =>
    if inv.transformType = "stream" then
      (.ok output, { stored with
        streamQueryCache :=
          Function.update stored.streamQueryCache (streamKey command queryStr) (some output) })
    else (.ok output, stored)

/-- What the stores have for a query, of those that answer without storing anything. -/
def lookUpQuery (redis : Redis) (command : CommandConfig) (inv : Invocation) (queryStr : String)
    (stores : Stores) : Option String :=
  (if inv.transformType = "stream" then stores.streamQueryCache (streamKey command queryStr)
    else none).or
    (getCachedResult redis command (lib.queryCacheKey command queryStr) stores)

/-- `_execute_query`, once the query is rendered. -/
def answerQuery (redis : Redis) (command : CommandConfig) (inv : Invocation) (queryStr : String)
    (stores : Stores) : Except String String × Stores :=
  match lib.lookUpQuery redis command inv queryStr stores with
  | some output => (.ok output, stores)
  | none =>
    match stores.recorder.replay (command.sourceName, queryStr) with
    | some output => lib.storeQuery redis command inv queryStr output stores
    | none =>
      match lib.runQuery command inv queryStr with
      | .error error => (.error error, stores)
      | .ok output => lib.storeQuery redis command inv queryStr output stores

def executeQuery (redis : Redis) (command : CommandConfig) (inv : Invocation) (stores : Stores) :
    Except String String × Stores :=
  match lib.renderQuery command inv with
  | .error error => (.error error, stores)
  | .ok queryStr => lib.answerQuery redis command inv queryStr stores

/-! ## §6 Executables -/

def encryptedPrefix : String := "encrypted:"

def setVariable (env : List (String × String)) (entry : String × String) :
    List (String × String) :=
  env.filter (·.1 ≠ entry.1) ++ [entry]

def renderVariable (command : CommandConfig) (inv : Invocation) (entry : String × String) :
    Except String (String × String) := do
  let rendered ← lib.render
    { event := inv.event, events := inv.events, config := inv.config, secrets := inv.secrets }
    entry.2
  if encryptedPrefix.toList <:+: rendered.toList then
    .error (sanitizeValue inv.secrets (s!"env {entry.1} of {command.pathName} rendered an " ++
      s!"unresolved {lib.repr encryptedPrefix} marker: {lib.repr rendered}. " ++
      "read the secret with _secrets['<name>'] instead of _config."))
  else return (entry.1, rendered)

structure RenderedExecutable where
  timeout : Nat
  args : List String
  env : Option (List (String × String))

def renderExecutable (command : CommandConfig) (inv : Invocation) :
    Except String RenderedExecutable := do
  let timeout ← lib.parseTimespec command.timeout
  let args ← (command.args.getD []).mapM
    (lib.render { event := inv.event, events := inv.events, config := inv.config })
  match command.env.filter (!·.isEmpty) with
  | none => return { timeout := timeout, args := args, env := none }
  | some env =>
    let env ← env.mapM (lib.renderVariable command inv)
    return { timeout := timeout, args := args, env := some env }

def executableCacheKey (command : CommandConfig) (rendered : RenderedExecutable) : String :=
  lib.makeCacheKey [("type", .str "executable"), ("path", .str command.pathName),
    ("args", .list (rendered.args.map .str)),
    ("env", (rendered.env.map fun env => .dict (env.map fun entry => (entry.1, .str entry.2))).getD
      .null)]

def stdinData (command : CommandConfig) (inv : Invocation) : Option String :=
  if inv.transformType = "stream" then some (lib.jsonLines inv.events)
  else if command.stdin.getD false then some (lib.dumps inv.event)
  else none

/-- What is passed to `subprocess.run`; without variables of its own the process has those of its
parent. -/
def executableCall (command : CommandConfig) (inv : Invocation) (rendered : RenderedExecutable) :
    ExecutableCall where
  args := command.pathName :: rendered.args
  env := (rendered.env.getD []).foldl setVariable inv.environ
  stdin := lib.stdinData command inv
  timeout := rendered.timeout

def runExecutable (command : CommandConfig) (inv : Invocation) (rendered : RenderedExecutable) :
    Except String String :=
  match lib.run (lib.executableCall command inv rendered) with
  | .timedOut => .error s!"command timed out after {showTimedelta rendered.timeout}"
  | .exited returncode stdout stderr =>
    if returncode ≠ 0 then
      .error (sanitizeValue inv.secrets s!"command exited with code {returncode}: {stderr}")
    else .ok (sanitizeValue inv.secrets stdout)

def storeExecutable (redis : Redis) (command : CommandConfig) (rendered : RenderedExecutable)
    (output : String) (stores : Stores) : Except String String × Stores :=
  match lib.setCachedResult redis command (lib.executableCacheKey command rendered) output
      stores with
  | .error error => (.error error, stores)
  | .ok stored => (.ok output, stored)

def answerExecutable (redis : Redis) (command : CommandConfig) (inv : Invocation)
    (rendered : RenderedExecutable) (stores : Stores) : Except String String × Stores :=
  match getCachedResult redis command (lib.executableCacheKey command rendered) stores with
  | some output => (.ok output, stores)
  | none =>
    match lib.runExecutable command inv rendered with
    | .error error => (.error error, stores)
    | .ok output => lib.storeExecutable redis command rendered output stores

def executeExecutable (redis : Redis) (command : CommandConfig) (inv : Invocation)
    (stores : Stores) : Except String String × Stores :=
  match lib.renderExecutable command inv with
  | .error error => (.error error, stores)
  | .ok rendered => lib.answerExecutable redis command inv rendered stores

/-! ## §7 Commands -/

/-- `_execute_defined`, until a command is reached that is not a reference to another one. -/
def resolveCommand (inv : Invocation) : Nat → CommandConfig → Except String CommandConfig
  | depth, command =>
    if command.type = "defined" then
      match depth, inv.predefinedCommands.find? fun predefined =>
          some predefined.name = command.name with
      | _, none => .error ("predefined command not found: " ++ lib.repr (command.name.getD "None"))
      | 0, some _ => .error "maximum recursion depth exceeded"
      | depth + 1, some predefined =>
        match lib.toCommandConfig predefined.command command.arguments with
        | .error error => .error error
        | .ok command => resolveCommand inv depth command
    else .ok command

def executeCommand (redis : Redis) (inv : Invocation) (stores : Stores) :
    Except String String × Stores :=
  match lib.resolveCommand inv lib.recursionLimit inv.command with
  | .error error => (.error error, stores)
  | .ok command =>
    match command.type with
    | "query" => lib.executeQuery redis command inv stores
    | "executable" => lib.executeExecutable redis command inv stores
    | type => (.error s!"unknown command type: {lib.repr type}", stores)

end CommandLibrary

end Ace3.Correlation
