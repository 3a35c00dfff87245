import Ace3.Lib.FallibleMap
import Ace3.Lib.Memo
import Ace3.Lib.Runs
import Ace3.Correlation.Commands

/-!
# Answers Without a Live Call

Commands that are answered out of a store, against the live call in their place.
-/

namespace Ace3.Correlation

open List
open Lib.FallibleMap Lib.Json Lib.Memo Lib.Runs

/-! ## §1 Requests -/

inductive Request where
  | query (command : CommandConfig) (queryStr : String)
  | executable (command : CommandConfig) (rendered : CommandLibrary.RenderedExecutable)

def Request.command : Request → CommandConfig
  | query command _ | executable command _ => command

structure Asked where
  engine : Nat
  inv : Invocation
  request : Request

def Asked.streamKey (engine : Nat) (asked : Asked) : Option String :=
  match asked.request with
  | .query command queryStr =>
    if asked.engine = engine ∧ asked.inv.transformType = "stream" then
      some (CommandLibrary.streamKey command queryStr)
    else none
  | .executable _ _ => none

def Asked.recordKey (engine : Option Nat) (asked : Asked) : Option (String × String) :=
  match asked.request with
  | .query command queryStr =>
    if some asked.engine = engine then some (command.sourceName, queryStr) else none
  | .executable _ _ => none

namespace CommandLibrary

variable (lib : CommandLibrary)

def request (inv : Invocation) : Except String Request := do
  let command ← lib.resolveCommand inv lib.recursionLimit inv.command
  match command.type with
  | "query" => return .query command (← lib.renderQuery command inv)
  | "executable" => return .executable command (← lib.renderExecutable command inv)
  | type => .error s!"unknown command type: {lib.repr type}"

def persistentKey (asked : Asked) : Option String :=
  if asked.request.command.caches then
    match asked.request with
    | .query command queryStr => some (lib.queryCacheKey command queryStr)
    | .executable command rendered => some (lib.executableCacheKey command rendered)
  else none

def runLive (asked : Asked) : Except String String :=
  match asked.request with
  | .query command queryStr => lib.runQuery command asked.inv queryStr
  | .executable command rendered => lib.runExecutable command asked.inv rendered

def answer (redis : Redis) (asked : Asked) (stores : Stores) : Except String String × Stores :=
  match asked.request with
  | .query command queryStr => lib.answerQuery redis command asked.inv queryStr stores
  | .executable command rendered =>
    lib.answerExecutable redis command asked.inv rendered stores

theorem executeCommand_eq (redis : Redis) (inv : Invocation) (stores : Stores) (engine : Nat) :
    lib.executeCommand redis inv stores =
      match lib.request inv with
      | .error error => (.error error, stores)
      | .ok request => lib.answer redis ⟨engine, inv, request⟩ stores := by
  unfold executeCommand request
  cases hcommand : lib.resolveCommand inv lib.recursionLimit inv.command with
  | error error => rfl
  | ok command =>
    simp only [bind, Except.bind]
    by_cases hquery : command.type = "query"
    · simp only [hquery, executeQuery]
      cases lib.renderQuery command inv <;> rfl
    by_cases hexecutable : command.type = "executable"
    · simp only [hexecutable, executeExecutable]
      cases lib.renderExecutable command inv <;> rfl
    · simp only [hquery, hexecutable]

/-! ## §2 One command -/

def Hit (asked : Asked) (stores : Stores) (output : String) : Prop :=
  (∃ key, asked.streamKey asked.engine = some key ∧
    stores.streamQueryCache key = some output) ∨
  (∃ key, lib.persistentKey asked = some key ∧ stores.persistent key = some output) ∨
  ∃ key, asked.recordKey (some asked.engine) = some key ∧
    stores.recorder.replay key = some output

/-- What the stores have more, after an output was stored for what was asked. -/
structure Stored (asked : Asked) (output : String) (stores stores' : Stores) : Prop where
  persistent : stores'.persistent = stores.persistent ∨ ∃ key,
    lib.persistentKey asked = some key ∧
      stores'.persistent = Function.update stores.persistent key (some output)
  streamQueryCache : stores'.streamQueryCache = stores.streamQueryCache ∨ ∃ key,
    asked.streamKey asked.engine = some key ∧
      stores'.streamQueryCache = Function.update stores.streamQueryCache key (some output)
  replay : stores'.recorder.replay = stores.recorder.replay
  captured : stores'.recorder.captured = stores.recorder.captured ∨ ∃ key,
    asked.recordKey (some asked.engine) = some key ∧
      stores'.recorder.captured = stores.recorder.captured ++ [(key, output)]

def DurationValid (command : CommandConfig) : Prop :=
  command.caches → (timespecSeconds (command.cache.getD "")).isSome

variable {lib} {redis : Redis} {asked : Asked} {stores : Stores} {output : String}

variable {command : CommandConfig}

theorem setCachedResult_spec (redis : Redis) (key output : String) (stores : Stores)
    (hvalid : DurationValid command) :
    ∃ persistent, lib.setCachedResult redis command key output stores =
        .ok { stores with persistent := persistent } ∧
      (persistent = stores.persistent ∨ command.caches ∧
        persistent = Function.update stores.persistent key (some output)) := by
  unfold setCachedResult
  by_cases hcaches : command.caches
  · obtain ⟨seconds, hseconds⟩ := Option.isSome_iff_exists.mp (hvalid hcaches)
    simp only [hcaches, if_true, parseTimespec, hseconds]
    split
    · exact ⟨_, rfl, .inr ⟨trivial, rfl⟩⟩
    · exact ⟨_, rfl, .inl rfl⟩
  · rw [if_neg hcaches]
    exact ⟨_, rfl, .inl rfl⟩

theorem getCachedResult_eq_some {key : String}
    (h : getCachedResult redis command key stores = some output) :
    command.caches ∧ stores.persistent key = some output := by
  unfold getCachedResult at h
  split at h
  · next hcaches => exact ⟨hcaches.1, h⟩
  · cases h

theorem record_spec (recorder : Recorder) (key : String × String) (output : String) :
    (recorder.record key output).replay = recorder.replay ∧
      ((recorder.record key output).captured = recorder.captured ∨
        (recorder.record key output).captured = recorder.captured ++ [(key, output)]) := by
  unfold Recorder.record
  split
  · exact ⟨rfl, .inl rfl⟩
  · exact ⟨rfl, .inr rfl⟩

theorem storeQuery_spec {engine : Nat} {inv : Invocation} {queryStr : String}
    (hvalid : DurationValid command) :
    (lib.storeQuery redis command inv queryStr output stores).1 = .ok output ∧
      lib.Stored ⟨engine, inv, .query command queryStr⟩ output stores
        (lib.storeQuery redis command inv queryStr output stores).2 := by
  obtain ⟨hreplay, hcaptured⟩ := record_spec stores.recorder (command.sourceName, queryStr) output
  obtain ⟨persistent, hset, hpersistent⟩ := lib.setCachedResult_spec redis
    (lib.queryCacheKey command queryStr) output
    { stores with recorder := stores.recorder.record (command.sourceName, queryStr) output } hvalid
  have hpersistent' : persistent = stores.persistent ∨ ∃ key,
      lib.persistentKey ⟨engine, inv, .query command queryStr⟩ = some key ∧
        persistent = Function.update stores.persistent key (some output) :=
    hpersistent.imp id fun ⟨hcaches, h⟩ => ⟨_, if_pos hcaches, h⟩
  unfold storeQuery
  simp only [hset]
  split
  · next hstream =>
    exact ⟨rfl, hpersistent', .inr ⟨_, if_pos ⟨rfl, hstream⟩, rfl⟩, hreplay,
      hcaptured.imp id fun h => ⟨_, if_pos rfl, h⟩⟩
  · exact ⟨rfl, hpersistent', .inl rfl, hreplay,
      hcaptured.imp id fun h => ⟨_, if_pos rfl, h⟩⟩

theorem storeExecutable_spec {engine : Nat} {inv : Invocation} {rendered : RenderedExecutable}
    (hvalid : DurationValid command) :
    (lib.storeExecutable redis command rendered output stores).1 = .ok output ∧
      lib.Stored ⟨engine, inv, .executable command rendered⟩ output stores
        (lib.storeExecutable redis command rendered output stores).2 := by
  obtain ⟨persistent, hset, hpersistent⟩ := lib.setCachedResult_spec redis
    (lib.executableCacheKey command rendered) output stores hvalid
  unfold storeExecutable
  rw [hset]
  exact ⟨rfl, hpersistent.imp id fun ⟨hcaches, h⟩ => ⟨_, if_pos hcaches, h⟩, .inl rfl, rfl,
    .inl rfl⟩

/-- A command is answered as by the live call, if what the stores have is what the live call
returns; only such outputs are stored. -/
theorem answer_spec (hvalid : DurationValid asked.request.command)
    (hhit : ∀ output, lib.Hit asked stores output → lib.runLive asked = .ok output) :
    (lib.answer redis asked stores).1 = lib.runLive asked ∧
      ((lib.answer redis asked stores).2 = stores ∨ ∃ output,
        lib.runLive asked = .ok output ∧
          lib.Stored asked output stores (lib.answer redis asked stores).2) := by
  obtain ⟨engine, inv, request⟩ := asked
  cases request with
  | query command queryStr =>
    have hstored : ∀ output,
        (lib.storeQuery redis command inv queryStr output stores).1 = .ok output ∧
          lib.Stored ⟨engine, inv, .query command queryStr⟩ output stores
            (lib.storeQuery redis command inv queryStr output stores).2 :=
      fun output => storeQuery_spec hvalid
    simp only [answer, runLive, answerQuery]
    cases hfound : lib.lookUpQuery redis command inv queryStr stores with
    | some output =>
      have hlive : lib.runQuery command inv queryStr = .ok output := by
        refine hhit output ?_
        rcases Option.or_eq_some_iff.mp hfound with hstream | ⟨_, hcached⟩
        · split at hstream
          · next htype => exact .inl ⟨_, if_pos ⟨rfl, htype⟩, hstream⟩
          · cases hstream
        · obtain ⟨hcaches, hpersistent⟩ := getCachedResult_eq_some hcached
          exact .inr (.inl ⟨_, if_pos hcaches, hpersistent⟩)
      exact ⟨hlive.symm, .inl rfl⟩
    | none =>
      cases hreplay : stores.recorder.replay (command.sourceName, queryStr) with
      | some output =>
        have hlive : lib.runQuery command inv queryStr = .ok output :=
          hhit output (.inr (.inr ⟨_, if_pos rfl, hreplay⟩))
        exact ⟨(hstored output).1.trans hlive.symm, .inr ⟨output, hlive, (hstored output).2⟩⟩
      | none =>
        cases hlive : lib.runQuery command inv queryStr with
        | error error => exact ⟨rfl, .inl rfl⟩
        | ok output => exact ⟨(hstored output).1, .inr ⟨output, rfl, (hstored output).2⟩⟩
  | executable command rendered =>
    simp only [answer, runLive, answerExecutable]
    cases hfound : getCachedResult redis command (lib.executableCacheKey command rendered)
      stores with
    | some output =>
      have hlive : lib.runExecutable command inv rendered = .ok output := by
        obtain ⟨hcaches, hpersistent⟩ := getCachedResult_eq_some hfound
        exact hhit output (.inr (.inl ⟨_, if_pos hcaches, hpersistent⟩))
      exact ⟨hlive.symm, .inl rfl⟩
    | none =>
      cases hlive : lib.runExecutable command inv rendered with
      | error error => exact ⟨rfl, .inl rfl⟩
      | ok output =>
        have hstored : (lib.storeExecutable redis command rendered output stores).1 = .ok output ∧
            lib.Stored ⟨engine, inv, .executable command rendered⟩ output stores
              (lib.storeExecutable redis command rendered output stores).2 :=
          storeExecutable_spec hvalid
        exact ⟨hstored.1, .inr ⟨output, rfl, hstored.2⟩⟩

end CommandLibrary

/-! ## §3 Runs -/

/-- What happens: an engine executes a command, the duration of a result in the persistent cache is
over, the captured results are saved, and an engine is created, with the saved results to replay,
if any. -/
inductive CommandEvent where
  | execute (redis : Redis) (inv : Invocation)
  | expire (key : String)
  | save
  | create (replay : Option Nat)

/-- The stores, the engine that is running, the engine whose results it replays, the saved results
with their engines, and what was asked so far. -/
structure CommandRun where
  stores : Stores := {}
  engine : Nat := 0
  replayed : Option Nat := none
  files : List (Nat × List CommandLibrary.SavedQuery) := []
  asked : List Asked := []

namespace CommandLibrary

variable (lib : CommandLibrary)

def askedAfter (run : CommandRun) (inv : Invocation) : List Asked :=
  match lib.request inv with
  | .ok request => ⟨run.engine, inv, request⟩ :: run.asked
  | .error _ => run.asked

def step (run : CommandRun) : CommandEvent → CommandRun
  | .execute redis inv =>
    { run with
      stores := (lib.executeCommand redis inv run.stores).2
      asked := lib.askedAfter run inv }
  | .expire key =>
    { run with stores := { run.stores with
        persistent := Function.update run.stores.persistent key none } }
  | .save =>
    match lib.exportQueries run.stores.recorder with
    | .ok saved => { run with files := run.files ++ [(run.engine, saved)] }
    | .error _ => run
  | .create replay =>
    match replay.bind (run.files[·]?) with
    | some (engine, saved) =>
      { run with
        stores := { persistent := run.stores.persistent, recorder := lib.newRecorder saved }
        engine := run.engine + 1
        replayed := some engine }
    | none =>
      { run with
        stores := { persistent := run.stores.persistent }
        engine := run.engine + 1
        replayed := none }

/-- What the command returns where no store has anything. -/
def live (inv : Invocation) : Except String String :=
  (lib.executeCommand ⟨false, false⟩ inv {}).1

def Transparent (run : CommandRun) : CommandEvent → Prop
  | .execute redis inv => (lib.executeCommand redis inv run.stores).1 = lib.live inv
  | _ => True

/-- What is asked now has a key in common with what was asked before, in a store where the earlier
result can be found. -/
def Meets (run : CommandRun) (earlier now : Asked) : Prop :=
  (∃ key, earlier.streamKey run.engine = some key ∧ now.streamKey now.engine = some key) ∨
  (∃ key, lib.persistentKey earlier = some key ∧ lib.persistentKey now = some key ∧
    (run.stores.persistent key).isSome) ∨
  ∃ key, earlier.recordKey run.replayed = some key ∧ now.recordKey (some now.engine) = some key

/-- Two commands agree on what is passed to the source or to the process, and an executable on the
secrets, which are masked in its output. -/
def Agrees (earlier now : Asked) : Prop :=
  match earlier.request, now.request with
  | .query command queryStr, .query command' queryStr' =>
    command.sourceName = command'.sourceName ∧ queryStr = queryStr' ∧
      lib.resolveTimeRange command earlier.inv = lib.resolveTimeRange command' now.inv ∧
      lib.parseTimespec command.timeout = lib.parseTimespec command'.timeout ∧
      command.sourceOptions = command'.sourceOptions
  | .executable command rendered, .executable command' rendered' =>
    command.pathName = command'.pathName ∧ rendered = rendered' ∧
      lib.stdinData command earlier.inv = lib.stdinData command' now.inv ∧
      earlier.inv.environ = now.inv.environ ∧ earlier.inv.secrets = now.inv.secrets
  | _, _ => False

/-- A command whose cache duration is a timespec agrees with every earlier command that it meets in
a store. -/
def AgreesWithEarlier (run : CommandRun) : CommandEvent → Prop
  | .execute _ inv => ∀ request, lib.request inv = .ok request →
      DurationValid request.command ∧
        ∀ earlier ∈ run.asked, lib.Meets run earlier ⟨run.engine, inv, request⟩ →
          lib.Agrees earlier ⟨run.engine, inv, request⟩
  | _ => True

/-- The rows of an output are read back, and written as before. -/
def ReadsBack : Prop :=
  ∀ rows, ∃ rows', (lib.lines (lib.jsonLines rows)).mapM lib.loads = .ok rows' ∧
    lib.jsonLines rows' = lib.jsonLines rows

/-! ## §4 The stores along a run -/

def Answers (asked : Asked) (output : String) : Prop := lib.runLive asked = .ok output

/-- Each output that is stored anywhere is that of a live call for something that was asked, with
the key under which it is stored. -/
structure Consistent (run : CommandRun) : Prop where
  persistent :
    Justified lib.persistentKey lib.Answers (· ∈ run.asked) run.stores.persistent
  streamQueryCache :
    Justified (Asked.streamKey run.engine) lib.Answers (· ∈ run.asked) run.stores.streamQueryCache
  replay :
    Justified (Asked.recordKey run.replayed) lib.Answers (· ∈ run.asked) run.stores.recorder.replay
  captured : ∀ entry ∈ run.stores.recorder.captured, ∃ asked ∈ run.asked,
    asked.recordKey (some run.engine) = some entry.1 ∧ lib.Answers asked entry.2
  files : ∀ file ∈ run.files, ∀ entry ∈ file.2, ∃ asked ∈ run.asked,
    asked.recordKey (some file.1) = some entry.1 ∧ lib.Answers asked (lib.jsonLines entry.2)

variable {lib} {run : CommandRun}

theorem runLive_congr {earlier now : Asked} (h : lib.Agrees earlier now) :
    lib.runLive earlier = lib.runLive now := by
  obtain ⟨engine, inv, request⟩ := earlier
  obtain ⟨engine', inv', request'⟩ := now
  cases request with
  | query command queryStr =>
    cases request' with
    | query command' queryStr' =>
      obtain ⟨hsource, hquery, hrange, htimeout, hoptions⟩ := h
      simp only [runLive, runQuery, hsource, hquery, hrange, htimeout, hoptions]
    | executable command' rendered' => exact h.elim
  | executable command rendered =>
    cases request' with
    | query command' queryStr' => exact h.elim
    | executable command' rendered' =>
      obtain ⟨hpath, hrendered, hstdin, henviron, hsecrets⟩ := h
      have henviron' : inv.environ = inv'.environ := henviron
      have hsecrets' : inv.secrets = inv'.secrets := hsecrets
      simp only [runLive, runExecutable, executableCall, hpath, hrendered, hstdin, henviron',
        hsecrets']

theorem Consistent.hit (h : lib.Consistent run) {now : Asked}
    (hagrees : ∀ earlier ∈ run.asked, lib.Meets run earlier now → lib.Agrees earlier now)
    (output : String) (hhit : lib.Hit now run.stores output) : lib.runLive now = .ok output := by
  have hsame : ∀ earlier ∈ run.asked, lib.Meets run earlier now → ∀ output,
      lib.Answers earlier output → lib.Answers now output := by
    intro earlier hearlier hmeets output ha
    exact (runLive_congr (hagrees earlier hearlier hmeets)).symm.trans ha
  rcases hhit with ⟨key, hkey, hfound⟩ | ⟨key, hkey, hfound⟩ | ⟨key, hkey, hfound⟩
  · exact h.streamQueryCache.answer_of_eq_some hfound fun earlier hearlier hkey' =>
      hsame earlier hearlier (.inl ⟨key, hkey', hkey⟩)
  · exact h.persistent.answer_of_eq_some hfound fun earlier hearlier hkey' =>
      hsame earlier hearlier (.inr (.inl ⟨key, hkey', hkey, Option.isSome_of_eq_some hfound⟩))
  · exact h.replay.answer_of_eq_some hfound fun earlier hearlier hkey' =>
      hsame earlier hearlier (.inr (.inr ⟨key, hkey', hkey⟩))

theorem Consistent.ask (h : lib.Consistent run) (now : Asked) :
    lib.Consistent { run with asked := now :: run.asked } where
  persistent := h.persistent.mono fun _ => mem_cons_of_mem _
  streamQueryCache := h.streamQueryCache.mono fun _ => mem_cons_of_mem _
  replay := h.replay.mono fun _ => mem_cons_of_mem _
  captured entry hentry := by
    obtain ⟨asked, hasked, hanswer⟩ := h.captured entry hentry
    exact ⟨asked, mem_cons_of_mem _ hasked, hanswer⟩
  files file hfile entry hentry := by
    obtain ⟨asked, hasked, hanswer⟩ := h.files file hfile entry hentry
    exact ⟨asked, mem_cons_of_mem _ hasked, hanswer⟩

theorem Consistent.store (h : lib.Consistent run) {now : Asked} {output : String}
    {stores' : Stores} (hnow : now ∈ run.asked) (hengine : now.engine = run.engine)
    (hlive : lib.runLive now = .ok output) (hstored : lib.Stored now output run.stores stores') :
    lib.Consistent { run with stores := stores' } where
  persistent := by
    rcases hstored.persistent with heq | ⟨key, hkey, heq⟩ <;> simp only [heq]
    · exact h.persistent
    · exact h.persistent.put hnow hkey hlive
  streamQueryCache := by
    rcases hstored.streamQueryCache with heq | ⟨key, hkey, heq⟩ <;> simp only [heq]
    · exact h.streamQueryCache
    · exact h.streamQueryCache.put hnow (hengine ▸ hkey) hlive
  replay := by
    simp only [hstored.replay]
    exact h.replay
  captured := by
    rcases hstored.captured with heq | ⟨key, hkey, heq⟩ <;> simp only [heq]
    · exact h.captured
    · intro entry hentry
      rcases mem_append.mp hentry with hentry | hentry
      · exact h.captured entry hentry
      · rw [mem_singleton.mp hentry]
        exact ⟨now, hnow, hengine ▸ hkey, hlive⟩
  files := h.files

theorem live_eq {inv : Invocation} {request : Request} (hrequest : lib.request inv = .ok request)
    (hvalid : DurationValid request.command) (engine : Nat) :
    lib.live inv = lib.runLive ⟨engine, inv, request⟩ := by
  have hempty : ∀ output, ¬ lib.Hit ⟨engine, inv, request⟩ {} output := by
    rintro output (⟨_, _, h⟩ | ⟨_, _, h⟩ | ⟨_, _, h⟩) <;> cases h
  rw [live, executeCommand_eq _ _ _ _ engine, hrequest]
  exact (answer_spec hvalid fun output h => absurd h (hempty output)).1

theorem mem_exportQueries {recorder : Recorder} {saved : List SavedQuery} {entry : SavedQuery}
    (h : lib.exportQueries recorder = .ok saved) (hentry : entry ∈ saved) :
    ∃ captured ∈ recorder.captured, captured.1 = entry.1 ∧
      (lib.lines captured.2).mapM lib.loads = .ok entry.2 := by
  obtain ⟨captured, hcaptured, heq⟩ := exists_of_mem_mapM h hentry
  refine ⟨captured, hcaptured, ?_⟩
  cases hrows : (lib.lines captured.2).mapM lib.loads with
  | error error =>
    rw [hrows] at heq
    cases heq
  | ok rows =>
    rw [hrows] at heq
    cases heq
    exact ⟨rfl, rfl⟩

theorem answers_saved (hjson : lib.ReadsBack) {asked : Asked} {engine : Option Nat}
    {key : String × String} {output : String} {rows : List Value}
    (hkey : asked.recordKey engine = some key) (hanswer : lib.Answers asked output)
    (hrows : (lib.lines output).mapM lib.loads = .ok rows) :
    lib.Answers asked (lib.jsonLines rows) := by
  obtain ⟨number, inv, request⟩ := asked
  cases request with
  | executable command rendered => cases hkey
  | query command queryStr =>
    -- the output of a query is the lines of its rows
    have hlines : ∃ results, output = lib.jsonLines results := by
      unfold Answers runLive at hanswer
      simp only [runQuery, bind, Except.bind] at hanswer
      split at hanswer
      · cases hanswer
      · split at hanswer
        · cases hanswer
        · split at hanswer
          · cases hanswer
          · split at hanswer
            · cases hanswer
            · next results _ =>
              cases hanswer
              exact ⟨results, rfl⟩
    obtain ⟨results, rfl⟩ := hlines
    obtain ⟨rows', hrows', hsame⟩ := hjson results
    cases hrows'.symm.trans hrows
    rwa [hsame]

theorem justified_newRecorder {asked : List Asked} {engine : Nat} {saved : List SavedQuery}
    (h : ∀ entry ∈ saved, ∃ q ∈ asked,
      q.recordKey (some engine) = some entry.1 ∧ lib.Answers q (lib.jsonLines entry.2)) :
    Justified (Asked.recordKey (some engine)) lib.Answers (· ∈ asked)
      (lib.newRecorder saved).replay := by
  intro key output houtput
  obtain ⟨rows, hrows, rfl⟩ := Option.map_eq_some_iff.mp houtput
  obtain ⟨before, after, hsplit, _⟩ := lookup_eq_some_iff.mp hrows
  have hmem : (key, rows) ∈ saved := by
    rw [← mem_reverse, hsplit]
    exact mem_append_right _ mem_cons_self
  exact h (key, rows) hmem

theorem Consistent.execute (h : lib.Consistent run) (redis : Redis) (inv : Invocation)
    (hevent : lib.AgreesWithEarlier run (.execute redis inv)) :
    lib.Consistent (lib.step run (.execute redis inv)) := by
  simp only [CommandLibrary.step, askedAfter, executeCommand_eq _ _ _ _ run.engine]
  cases hrequest : lib.request inv with
  | error error => exact h
  | ok request =>
    obtain ⟨hvalid, hagrees⟩ := hevent request hrequest
    have hask := h.ask ⟨run.engine, inv, request⟩
    have hanswer : (lib.answer redis ⟨run.engine, inv, request⟩ run.stores).2 = run.stores ∨
        ∃ output, lib.runLive ⟨run.engine, inv, request⟩ = .ok output ∧
          lib.Stored ⟨run.engine, inv, request⟩ output run.stores
            (lib.answer redis ⟨run.engine, inv, request⟩ run.stores).2 :=
      (answer_spec hvalid (h.hit hagrees)).2
    rcases hanswer with heq | ⟨output, hlive, hstored⟩
    · simp only [heq]
      exact hask
    · exact hask.store mem_cons_self rfl hlive hstored

theorem Consistent.step (hjson : lib.ReadsBack) (h : lib.Consistent run) (event : CommandEvent)
    (hevent : lib.AgreesWithEarlier run event) : lib.Consistent (lib.step run event) := by
  cases event with
  | execute redis inv => exact h.execute redis inv hevent
  | expire key => exact { h with persistent := h.persistent.drop key }
  | save =>
    simp only [CommandLibrary.step]
    split
    · next saved hsaved =>
      refine { h with files := fun file hfile entry hentry => ?_ }
      rcases mem_append.mp hfile with hfile | hfile
      · exact h.files file hfile entry hentry
      · rw [mem_singleton.mp hfile] at hentry ⊢
        obtain ⟨captured, hcaptured, hkey, hrows⟩ := mem_exportQueries hsaved hentry
        obtain ⟨asked, hasked, hasKey, hanswer⟩ := h.captured captured hcaptured
        rw [hkey] at hasKey
        exact ⟨asked, hasked, hasKey, answers_saved hjson hasKey hanswer hrows⟩
    · exact h
  | create replay =>
    simp only [CommandLibrary.step]
    split
    · next engine saved hfile =>
      obtain ⟨index, _, hindex⟩ := Option.bind_eq_some_iff.mp hfile
      have hmem : (engine, saved) ∈ run.files := mem_of_getElem? hindex
      exact
        { persistent := h.persistent
          streamQueryCache := justified_empty
          replay := justified_newRecorder (h.files _ hmem)
          captured := fun _ hentry => absurd hentry not_mem_nil
          files := h.files }
    · exact
        { persistent := h.persistent
          streamQueryCache := justified_empty
          replay := justified_empty
          captured := fun _ hentry => absurd hentry not_mem_nil
          files := h.files }

theorem Consistent.transparent (h : lib.Consistent run) (event : CommandEvent)
    (hevent : lib.AgreesWithEarlier run event) : lib.Transparent run event := by
  cases event with
  | execute redis inv =>
    show (lib.executeCommand redis inv run.stores).1 = lib.live inv
    rw [executeCommand_eq _ _ _ _ run.engine]
    cases hrequest : lib.request inv with
    | error error =>
      rw [live, executeCommand_eq _ _ _ _ run.engine, hrequest]
    | ok request =>
      obtain ⟨hvalid, hagrees⟩ := hevent request hrequest
      rw [live_eq hrequest hvalid run.engine]
      exact (answer_spec hvalid (h.hit hagrees)).1
  | expire key => trivial
  | save => trivial
  | create replay => trivial

/-- **Commands answered out of a store return what the live call returns**, in every run in which
commands that meet in a store agree on what its keys leave out. -/
theorem memoisation_is_transparent (lib : CommandLibrary) (hjson : lib.ReadsBack)
    (events : List CommandEvent) (h : Along lib.step lib.AgreesWithEarlier {} events) :
    Along lib.step lib.Transparent {} events := by
  refine h.of_invariant lib.Consistent (fun run event hrun hevent => hrun.step hjson event hevent)
    (fun run event hrun hevent => hrun.transparent event hevent) ?_
  exact
    { persistent := justified_empty
      streamQueryCache := justified_empty
      replay := justified_empty
      captured := fun _ hentry => absurd hentry not_mem_nil
      files := fun _ hfile => absurd hfile not_mem_nil }

/-! ## §5 Windows around events -/

/-- Templates without markers, events whose time is a number of microseconds, and a source that has
an empty row for a window that begins at the epoch. -/
def windowLibrary : CommandLibrary where
  render _ template := .ok template
  repr text := "'" ++ text ++ "'"
  toCommandConfig command _ := .ok command
  parseTimeValue
    | .int moment, _ => .ok ⟨true, moment⟩
    | _, _ => .error "Invalid isoformat string"
  dumps _ := "{}"
  loads _ := .ok (.dict [])
  lines output := ((output.toList.splitOn '\n').filter (· ≠ [])).map String.ofList
  sha256 := id
  sources _ := some
    { defaultTimeField := some "t"
      defaultTimeFormat := none
      executeQuery := fun call => .ok (if call.startTime.moment = 0 then [.dict []] else []) }
  run _ := .timedOut
  recursionLimit := 1000

theorem windowLibrary_lines (rows : List Value) :
    windowLibrary.lines (windowLibrary.jsonLines rows) = rows.map fun _ => "{}" := by
  cases rows with
  | nil => decide
  | cons row rows =>
    have hsplit : ("\n".toList.intercalate (((row :: rows).map fun _ => "{}").map
        String.toList)).splitOn '\n' = ((row :: rows).map fun _ => "{}").map String.toList := by
      refine splitOn_intercalate '\n' (fun line hline => ?_) (cons_ne_nil _ _)
      rw [map_map] at hline
      obtain ⟨_, _, rfl⟩ := mem_map.mp hline
      show '\n' ∉ "{}".toList
      decide
    have hfull : (((row :: rows).map fun _ => "{}").map String.toList).filter (· ≠ []) =
        ((row :: rows).map fun _ => "{}").map String.toList := by
      refine filter_eq_self.mpr fun line hline => ?_
      rw [map_map] at hline
      obtain ⟨_, _, rfl⟩ := mem_map.mp hline
      show decide ("{}".toList ≠ []) = true
      decide
    show ((("\n".intercalate ((row :: rows).map fun _ => "{}")).toList.splitOn '\n').filter
      (· ≠ [])).map String.ofList = _
    rw [String.toList_intercalate, hsplit, hfull, map_map]
    refine map_congr_left (g := id) (fun line _ => String.ofList_toList) |>.trans ?_
    exact map_id _

theorem windowLibrary_readsBack : windowLibrary.ReadsBack := by
  intro rows
  refine ⟨rows.map fun _ => .dict [], ?_, ?_⟩
  · rw [windowLibrary_lines, mapM_map]
    exact mapM_pure
  · exact congrArg ("\n".intercalate ·) (map_map.trans rfl)

def windowQuery (moment : Int) : Invocation where
  command :=
    { type := "query", timeout := "10m", cache := some "1h", source := some "s",
      query := some "q", timeRange := none, sourceOptions := [], path := none, stdin := none,
      args := none, env := none, name := none, arguments := none }
  event := .dict [("t", .int moment)]
  events := []
  transformType := "event"
  predefinedCommands := []
  huntStartTime := ⟨true, 0⟩
  huntEndTime := ⟨true, 0⟩
  secrets := .dict []
  config := none
  currentSource := some "s"
  environ := []

/-- The query of one event, cached, asked again and then replayed. -/
def repeatedQuery : List CommandEvent :=
  [.execute ⟨true, true⟩ (windowQuery 0), .execute ⟨true, true⟩ (windowQuery 0), .save,
    .create (some 0), .execute ⟨false, true⟩ (windowQuery 0)]

theorem agrees_of_eq {lib : CommandLibrary} {earlier now : Asked} (hinv : earlier.inv = now.inv)
    (hrequest : earlier.request = now.request) : lib.Agrees earlier now := by
  unfold Agrees
  rw [hinv, hrequest]
  split
  · next heq heq' =>
    cases heq.symm.trans heq'
    exact ⟨rfl, rfl, rfl, rfl, rfl⟩
  · next heq heq' =>
    cases heq.symm.trans heq'
    exact ⟨rfl, rfl, rfl, rfl, rfl⟩
  · next hquery hexecutable =>
    cases hnow : now.request with
    | query command queryStr => exact (hquery _ _ _ _ hnow hnow).elim
    | executable command rendered => exact (hexecutable _ _ _ _ hnow hnow).elim

theorem agrees_of_same {lib : CommandLibrary} {run : CommandRun} {redis : Redis} {inv : Invocation}
    {request : Request} (hrequest : lib.request inv = .ok request)
    (hvalid : DurationValid request.command)
    (h : ∀ earlier ∈ run.asked, earlier.inv = inv ∧ earlier.request = request) :
    lib.AgreesWithEarlier run (.execute redis inv) := by
  intro request' hrequest'
  cases hrequest.symm.trans hrequest'
  refine ⟨hvalid, fun earlier hearlier _ => ?_⟩
  obtain ⟨hinv, hsame⟩ := h earlier hearlier
  exact agrees_of_eq hinv hsame

theorem asked_step {lib : CommandLibrary} {run : CommandRun} {event : CommandEvent}
    (h : ∀ redis inv, event ≠ .execute redis inv) : (lib.step run event).asked = run.asked := by
  cases event with
  | execute redis inv => exact absurd rfl (h redis inv)
  | expire key => rfl
  | save =>
    simp only [CommandLibrary.step]
    split <;> rfl
  | create replay =>
    simp only [CommandLibrary.step]
    split <;> rfl

theorem windowQuery_request : windowLibrary.request (windowQuery 0) =
    .ok (.query (windowQuery 0).command "q") := by rfl

theorem repeated_query_is_transparent :
    Along windowLibrary.step windowLibrary.Transparent {} repeatedQuery := by
  refine memoisation_is_transparent windowLibrary windowLibrary_readsBack repeatedQuery ?_
  have hvalid : DurationValid (Request.query (windowQuery 0).command "q").command := fun _ => by
    decide
  have hasked : ∀ run : CommandRun, ∀ redis,
      (windowLibrary.step run (.execute redis (windowQuery 0))).asked =
        ⟨run.engine, windowQuery 0, .query (windowQuery 0).command "q"⟩ :: run.asked := by
    intro run redis
    show windowLibrary.askedAfter run (windowQuery 0) = _
    rw [askedAfter, windowQuery_request]
  refine ⟨agrees_of_same windowQuery_request hvalid ?_,
    agrees_of_same windowQuery_request hvalid ?_, trivial, trivial,
    agrees_of_same windowQuery_request hvalid ?_, trivial⟩
  · exact fun _ h => absurd h not_mem_nil
  · rw [hasked]
    exact forall_mem_singleton.mpr ⟨rfl, rfl⟩
  · rw [asked_step (by simp), asked_step (by simp), hasked, hasked]
    exact forall_mem_cons.mpr ⟨⟨rfl, rfl⟩, forall_mem_singleton.mpr ⟨rfl, rfl⟩⟩

/-- The query of the second event is answered with the result for the window of the first one. -/
theorem window_of_another_event :
    ¬ ∀ lib : CommandLibrary, lib.ReadsBack → ∀ events,
      Along lib.step lib.Transparent {} events := by
  intro h
  have hrun := h windowLibrary windowLibrary_readsBack
    [.execute ⟨true, true⟩ (windowQuery 0), .execute ⟨true, true⟩ (windowQuery 1)]
  have hsecond : (windowLibrary.executeCommand ⟨true, true⟩ (windowQuery 1)
      (windowLibrary.step {} (.execute ⟨true, true⟩ (windowQuery 0))).stores).1 =
        windowLibrary.live (windowQuery 1) := hrun.2.1
  have hcached : (windowLibrary.executeCommand ⟨true, true⟩ (windowQuery 1)
      (windowLibrary.step {} (.execute ⟨true, true⟩ (windowQuery 0))).stores).1.toOption =
        some "{}" := by decide
  have hlive : (windowLibrary.live (windowQuery 1)).toOption = some "" := by decide
  rw [hsecond, hlive] at hcached
  exact absurd hcached (by decide)

end CommandLibrary

end Ace3.Correlation
