import Ace3.Lib.Separators
import Mathlib.Logic.Function.Basic

/-!
# The Network Semaphore Server

The client threads of `saq/network_semaphore/server.py` and the `LoggingSemaphore` of
`saq/network_semaphore/logging.py`, cut where another thread can come in between: a
`LoggingSemaphore` takes or returns its permit and adjusts its count in two steps, and
`maintain_undefined_semaphores` looks at one count after the other and deletes afterwards, under a
lock that no `acquire` needs.
-/

namespace Ace3.NetworkSemaphore

/-! ## §1 Semaphores and clients -/

/-- The name of a semaphore, and whatever else a client sends. -/
abbrev Text := List Char

/-- The identity of a semaphore object: the one that `load_configured_semaphores` made for a
name, or the `k`-th that `add_undefined_semaphore` made. -/
inductive SemaphoreRef where
  | defined (name : Text)
  | undefined (k : Nat)
  deriving DecidableEq

/-- A `LoggingSemaphore`: the permits that are left, and the count of those that are out. -/
structure LoggingSemaphore where
  semaphoreName : Text
  value : Nat
  count : Int
  deriving DecidableEq

/-- Where a client thread stands in `client_loop`. -/
inductive ClientPhase where
  /-- The `acquire` command is to be read. -/
  | connected
  /-- The name is not a configured one; the table of undefined semaphores is to be looked at. -/
  | requesting (name : Text)
  | waiting (semaphore : SemaphoreRef)
  /-- The permit is taken, the count is not yet increased. -/
  | acquired (semaphore : SemaphoreRef)
  /-- `locked|` is to be sent. -/
  | locking (semaphore : SemaphoreRef)
  | holding (semaphore : SemaphoreRef)
  /-- In the `finally` block, before the release. -/
  | leaving (semaphore : SemaphoreRef)
  /-- The permit is returned, the count is not yet decreased. -/
  | released (semaphore : SemaphoreRef)
  /-- `maintain_undefined_semaphores` is to take the lock of the table. -/
  | maintaining
  /-- With the lock: the names still to be looked at, and those whose count was zero. -/
  | inspecting (remaining targets : List Text)
  | disconnected
  deriving DecidableEq

def ClientPhase.held : ClientPhase → Option SemaphoreRef
  | .acquired semaphore | .locking semaphore | .holding semaphore | .leaving semaphore =>
    some semaphore
  | _ => none

/-- The semaphore that a thread waits for or has a permit of. -/
def ClientPhase.semaphore : ClientPhase → Option SemaphoreRef
  | .waiting semaphore => some semaphore
  | phase => phase.held

/-- The server: `semaphores` are the objects, `created` the number of undefined ones, and the two
dictionaries lead from names to objects. A configured name leads to its own object. -/
structure NetworkSemaphoreServer (Client : Type*) where
  capacityLimits : List (Text × Nat)
  semaphores : SemaphoreRef → LoggingSemaphore
  created : Nat
  undefinedSemaphores : List (Text × Nat)
  undefinedSemaphoresLock : Option Client
  phase : Client → ClientPhase

/-! ## §2 Commands -/

def acquireWord : Text := ['a', 'c', 'q', 'u', 'i', 'r', 'e', ':']

def releaseWord : Text := ['r', 'e', 'l', 'e', 'a', 's', 'e']

def waitWord : Text := ['w', 'a', 'i', 't']

/-- `re.match(r'^acquire:([^|]+)\|$', command)`: `$` also matches before a last newline. -/
def acquireName (command : Text) : Option Text :=
  let rest := command.drop acquireWord.length
  let name := rest.takeWhile (· ≠ '|')
  let after := rest.dropWhile (· ≠ '|')
  if acquireWord.isPrefixOf command ∧ name ≠ [] ∧ (after = ['|'] ∨ after = ['|', '\n']) then
    some name
  else none

/-- What a client sends while it holds the semaphore lets it go on: `wait` commands only. -/
def keepsHolding (command : Text) : Bool :=
  let commands := command.dropLast.splitOn '|'
  command.getLast? = some '|' ∧ releaseWord ∉ commands ∧ ∀ word ∈ commands, word = waitWord

/-! ## §3 Steps -/

namespace NetworkSemaphoreServer

variable {Client : Type*} [DecidableEq Client]

/-- The server after `load_configured_semaphores`. -/
def start (limits : List (Text × Nat)) : NetworkSemaphoreServer Client where
  capacityLimits := limits
  semaphores
    | .defined name => ⟨name, (limits.lookup name).getD 0, 0⟩
    | .undefined _ => ⟨[], 0, 0⟩
  created := 0
  undefinedSemaphores := []
  undefinedSemaphoresLock := none
  phase := fun _ => .connected

def setPhase (s : NetworkSemaphoreServer Client) (c : Client) (phase : ClientPhase) :
    NetworkSemaphoreServer Client :=
  { s with phase := Function.update s.phase c phase }

def setSemaphore (s : NetworkSemaphoreServer Client) (ref : SemaphoreRef)
    (semaphore : LoggingSemaphore) : NetworkSemaphoreServer Client :=
  { s with semaphores := Function.update s.semaphores ref semaphore }

def addUndefinedSemaphore (s : NetworkSemaphoreServer Client) (name : Text) (count : Nat) :
    NetworkSemaphoreServer Client :=
  { s.setSemaphore (.undefined s.created) ⟨name, count, 0⟩ with
    created := s.created + 1
    undefinedSemaphores := s.undefinedSemaphores ++ [(name, s.created)] }

def isUnused (s : NetworkSemaphoreServer Client) (name : Text) : Bool :=
  (s.undefinedSemaphores.lookup name).any fun k => (s.semaphores (.undefined k)).count = 0

/-- `with self.undefined_semaphores_lock`, entered by the thread of a client. -/
def takeLock (s : NetworkSemaphoreServer Client) (c : Client) : NetworkSemaphoreServer Client :=
  { s with undefinedSemaphoresLock := some c }

/-- `del self.undefined_semaphores[target]` for each target, and the lock is given back. -/
def deleteUndefined (s : NetworkSemaphoreServer Client) (targets : List Text) :
    NetworkSemaphoreServer Client :=
  { s with
    undefinedSemaphores := s.undefinedSemaphores.filter (·.1 ∉ targets)
    undefinedSemaphoresLock := none }

/-- What happens next, and in the thread of which client. -/
inductive Event (Client : Type*) where
  /-- `recv` returns a command, or raises. -/
  | receive (c : Client) (command : Option Text)
  | lookUp (c : Client)
  | acquire (c : Client)
  /-- `acquire` timed out, and `wait|` is sent or cannot be sent. -/
  | heartbeat (c : Client) (sent : Bool)
  | increaseCount (c : Client)
  | sendLocked (c : Client) (sent : Bool)
  | release (c : Client)
  | decreaseCount (c : Client)
  | lockTable (c : Client)
  | inspect (c : Client)
  | deleteTargets (c : Client)
  deriving DecidableEq

/-- One step of one client thread. A step that the thread is not at, or that waits for a permit or
for the lock, changes nothing. -/
def step (s : NetworkSemaphoreServer Client) : Event Client → NetworkSemaphoreServer Client
  | .receive c command =>
    match s.phase c with
    | .connected =>
      match command.bind acquireName with
      | none => s.setPhase c .disconnected
      | some name =>
        if (s.capacityLimits.lookup name).isSome then s.setPhase c (.waiting (.defined name))
        else s.setPhase c (.requesting name)
    | .holding ref =>
      if command.any keepsHolding then s else s.setPhase c (.leaving ref)
    | _ => s
  | .lookUp c =>
    match s.phase c, s.undefinedSemaphoresLock with
    | .requesting name, none =>
      match s.undefinedSemaphores.lookup name with
      | some k => s.setPhase c (.waiting (.undefined k))
      | none => (s.addUndefinedSemaphore name 1).setPhase c (.waiting (.undefined s.created))
    | _, _ => s
  | .acquire c =>
    match s.phase c with
    | .waiting ref =>
      let semaphore := s.semaphores ref
      if semaphore.value = 0 then s
      else (s.setSemaphore ref { semaphore with value := semaphore.value - 1 }).setPhase c
        (.acquired ref)
    | _ => s
  | .heartbeat c sent =>
    match s.phase c with
    | .waiting _ => if sent then s else s.setPhase c .disconnected
    | _ => s
  | .increaseCount c =>
    match s.phase c with
    | .acquired ref =>
      let semaphore := s.semaphores ref
      (s.setSemaphore ref { semaphore with count := semaphore.count + 1 }).setPhase c (.locking ref)
    | _ => s
  | .sendLocked c sent =>
    match s.phase c with
    | .locking ref => s.setPhase c (if sent then .holding ref else .leaving ref)
    | _ => s
  | .release c =>
    match s.phase c with
    | .leaving ref =>
      let semaphore := s.semaphores ref
      (s.setSemaphore ref { semaphore with value := semaphore.value + 1 }).setPhase c
        (.released ref)
    | _ => s
  | .decreaseCount c =>
    match s.phase c with
    | .released ref =>
      let semaphore := s.semaphores ref
      (s.setSemaphore ref { semaphore with count := semaphore.count - 1 }).setPhase c .maintaining
    | _ => s
  | .lockTable c =>
    match s.phase c, s.undefinedSemaphoresLock with
    | .maintaining, none =>
      (s.takeLock c).setPhase c
        (.inspecting (s.undefinedSemaphores.map (·.1)) [])
    | _, _ => s
  | .inspect c =>
    match s.phase c with
    | .inspecting (name :: remaining) targets =>
      s.setPhase c (.inspecting remaining (if s.isUnused name then targets ++ [name] else targets))
    | _ => s
  | .deleteTargets c =>
    match s.phase c with
    | .inspecting [] targets =>
      (s.deleteUndefined targets).setPhase c .disconnected
    | _ => s

end NetworkSemaphoreServer

end Ace3.NetworkSemaphore
