import Ace3.NetworkSemaphore.Server

/-!
# The Network Semaphore Client

`NetworkSemaphoreClient` of `saq/network_semaphore/client.py`, and the semaphores of
`saq/network_semaphore/fallback.py` that it takes where the server cannot be reached. `acquire`
waits in two loops; it is cut at each turn of them, so that the server, other threads and
`cancel_request` come in between.
-/

namespace Ace3.NetworkSemaphore

/-! ## §1 Fallback semaphores -/

/-- The two dictionaries of fallback semaphores, and the objects they lead to. -/
structure FallbackSemaphores where
  definedFallbackSemaphores : List Text
  undefinedFallbackSemaphores : List (Text × Nat)
  semaphores : SemaphoreRef → LoggingSemaphore
  /-- How many undefined semaphores have been made. -/
  created : Nat

/-- What another thread does with the fallback semaphores. -/
inductive FallbackOp where
  | find (name : Text)
  | acquire (semaphore : SemaphoreRef)
  | release (semaphore : SemaphoreRef)
  | maintain
  deriving DecidableEq

namespace FallbackSemaphores

def initializeFallbackSemaphores (limits : List (Text × Nat)) : FallbackSemaphores where
  definedFallbackSemaphores := limits.map (·.1)
  undefinedFallbackSemaphores := []
  semaphores
    | .defined name => ⟨[], (limits.lookup name).getD 0, 0⟩
    | .undefined _ => ⟨[], 0, 0⟩
  created := 0

def setSemaphore (s : FallbackSemaphores) (ref : SemaphoreRef) (semaphore : LoggingSemaphore) :
    FallbackSemaphores :=
  { s with semaphores := Function.update s.semaphores ref semaphore }

def addUndefined (s : FallbackSemaphores) (name : Text) : FallbackSemaphores :=
  { s.setSemaphore (.undefined s.created) ⟨[], 1, 0⟩ with
    undefinedFallbackSemaphores := s.undefinedFallbackSemaphores ++ [(name, s.created)]
    created := s.created + 1 }

def find (s : FallbackSemaphores) (name : Text) : SemaphoreRef × FallbackSemaphores :=
  if name ∈ s.definedFallbackSemaphores then (.defined name, s)
  else
    match s.undefinedFallbackSemaphores.lookup name with
    | some k => (.undefined k, s)
    | none => (.undefined s.created, s.addUndefined name)

/-- `LoggingSemaphore.acquire`, where a permit is left. -/
def acquire (s : FallbackSemaphores) (ref : SemaphoreRef) : FallbackSemaphores :=
  let semaphore := s.semaphores ref
  s.setSemaphore ref
    { semaphore with value := semaphore.value - 1, count := semaphore.count + 1 }

/-- `LoggingSemaphore.release`. -/
def release (s : FallbackSemaphores) (ref : SemaphoreRef) : FallbackSemaphores :=
  let semaphore := s.semaphores ref
  s.setSemaphore ref
    { semaphore with value := semaphore.value + 1, count := semaphore.count - 1 }

def maintainUndefinedSemaphores (s : FallbackSemaphores) : FallbackSemaphores :=
  { s with undefinedFallbackSemaphores := s.undefinedFallbackSemaphores.filter fun entry =>
      (s.semaphores (.undefined entry.2)).count ≠ 0 }

def apply (s : FallbackSemaphores) : FallbackOp → FallbackSemaphores
  | .find name => (s.find name).2
  | .acquire ref => if (s.semaphores ref).value = 0 then s else s.acquire ref
  | .release ref => s.release ref
  | .maintain => s.maintainUndefinedSemaphores

end FallbackSemaphores

/-! ## §2 The client -/

def lockedWord : Text := ['l', 'o', 'c', 'k', 'e', 'd']

/-- Where the client stands. `timed` says whether there is a deadline. -/
inductive AcquirePhase where
  | idle
  /-- In the loop that receives from the server. -/
  | waiting (name : Text) (timed : Bool)
  /-- In the loop that tries the fallback semaphore. -/
  | fallingBack (name : Text) (timed : Bool)
  deriving DecidableEq

structure NetworkSemaphoreClient where
  phase : AcquirePhase
  /-- The number of the connection. -/
  socket : Option Nat
  semaphoreAcquired : Bool
  semaphoreName : Option Text
  /-- Whether the event is set, where there is one. -/
  releaseEvent : Option Bool
  fallbackSemaphore : Option SemaphoreRef
  cancelRequestFlag : Bool
  deriving DecidableEq

/-- A permit of the server, for one connection, or of a fallback semaphore. -/
inductive Permit where
  | server (connection : Nat)
  | fallback (semaphore : SemaphoreRef)
  deriving DecidableEq

/-- The client and what it deals with. `serverHolds` are the connections for which the server has
taken a permit. `acquired` and `released` record all permits in their order; `obtained` is what
`acquire` got last, until it is given back. -/
structure World where
  client : NetworkSemaphoreClient
  fallbacks : FallbackSemaphores
  /-- The number of the next connection. -/
  connections : Nat
  serverHolds : List Nat
  acquired : List Permit
  released : List Permit
  obtained : Option Permit

/-! ## §3 Steps -/

/-- How `acquire` begins: the socket cannot be made, the request cannot be sent, or it is. -/
inductive Connect where
  | noSocket
  | refused
  | requested
  deriving DecidableEq

inductive Event where
  | acquire (name : Text) (timed : Bool) (connect : Connect)
  /-- The server takes a permit for the connection. -/
  | grant
  /-- A turn of the first loop: what the callback says, what is received, unless that raises, and
  whether the deadline has passed. -/
  | receive (callback : Bool) (command : Option Text) (late : Bool)
  /-- A turn of the second loop. -/
  | tryFallback (callback late : Bool)
  | release
  | cancelRequest
  /-- A turn of `failsafe_loop`, and whether the keep-alive message is sent. -/
  | failsafe (sent : Bool)
  | other (op : FallbackOp)
  deriving DecidableEq

namespace World

/-- A new client in a process with these capacity limits. -/
def start (limits : List (Text × Nat)) : World where
  client := ⟨.idle, none, false, none, none, none, false⟩
  fallbacks := .initializeFallbackSemaphores limits
  connections := 0
  serverHolds := []
  acquired := []
  released := []
  obtained := none

def setPhase (w : World) (phase : AcquirePhase) : World :=
  { w with client := { w.client with phase := phase } }

/-- `self.socket.close()`: the server gives the permit of the connection back. -/
def closeSocket (w : World) : World :=
  match w.client.socket with
  | none => w
  | some c =>
    if c ∈ w.serverHolds then
      { w with
        serverHolds := w.serverHolds.filter (· ≠ c)
        released := w.released ++ [.server c]
        obtained := if w.obtained = some (.server c) then none else w.obtained }
    else w

/-- `self.socket = socket.socket()`. The old one is not referred to any more, so it is closed. -/
def newSocket (w : World) : World :=
  { w.closeSocket with
    client := { w.closeSocket.client with socket := some w.connections }
    connections := w.connections + 1 }

/-- The call of `acquire`, up to the first loop. -/
def requestAcquire (w : World) (name : Text) (timed : Bool) (connect : Connect) : World :=
  -- a semaphore that is acquired already is not acquired again
  if w.client.phase ≠ .idle ∨ w.client.semaphoreAcquired then w
  else
    match connect with
    | .noSocket => w.closeSocket.setPhase (.fallingBack name timed)
    | .refused => w.newSocket.closeSocket.setPhase (.fallingBack name timed)
    | .requested => w.newSocket.setPhase (.waiting name timed)

/-- The server takes a permit for the connection that waits. -/
def grant (w : World) : World :=
  match w.client.phase, w.client.socket with
  | .waiting _ _, some c =>
    if c ∈ w.serverHolds then w
    else { w with serverHolds := c :: w.serverHolds, acquired := w.acquired ++ [.server c] }
  | _, _ => w

/-- A permit has been obtained, and the failsafe thread is started. -/
def succeed (w : World) (name : Text) (permit : Option Permit) : World :=
  { w with
    client := { w.client with
      phase := .idle
      semaphoreAcquired := true
      semaphoreName := some name
      releaseEvent := some false }
    obtained := permit }

def requestIsCancelled (w : World) (callback : Bool) : Bool := w.client.cancelRequestFlag || callback

def receive (w : World) (callback : Bool) (command : Option Text) (late : Bool) : World :=
  match w.client.phase with
  | .waiting name timed =>
    if w.requestIsCancelled callback then w.closeSocket.setPhase .idle
    else
      let commands := (command.getD []).dropLast.splitOn '|'
      -- an exception, a disconnect, or a command that is not known: the fallback is used
      if command.getD [] = [] then w.closeSocket.setPhase (.fallingBack name timed)
      else if lockedWord ∈ commands then
        w.grant.succeed name (w.client.socket.map .server)
      else if commands.all (· = waitWord) then
        if timed && late then w.closeSocket.setPhase .idle else w
      else w.closeSocket.setPhase (.fallingBack name timed)
  | _ => w

/-- One turn of the loop that tries the fallback semaphore. -/
def tryFallback (w : World) (callback late : Bool) : World :=
  match w.client.phase with
  | .fallingBack name timed =>
    if w.requestIsCancelled callback then w.setPhase .idle
    else
      let ref := (w.fallbacks.find name).1
      let fallbacks := (w.fallbacks.find name).2
      if (fallbacks.semaphores ref).value = 0 then
        let found : World := { w with fallbacks := fallbacks }
        found.setPhase (if timed && late then .idle else .fallingBack name timed)
      else
        let taken : World := { w with
          client := { w.client with fallbackSemaphore := some ref }
          fallbacks := fallbacks.acquire ref
          acquired := w.acquired ++ [.fallback ref] }
        taken.succeed name (some (.fallback ref))
  | _ => w

/-- `semaphore_acquired` is reset, and the failsafe thread ends. -/
def endHolding (w : World) : World :=
  { w with client := { w.client with
      semaphoreAcquired := false
      releaseEvent := w.client.releaseEvent.map fun _ => true } }

/-- `release`. Over the network the socket is closed in any case, whether the command could be sent
and whatever the server replied. -/
def release (w : World) : World :=
  match w.client.phase, w.client.fallbackSemaphore with
  | .idle, some ref =>
    let given : World := { w with
      fallbacks := (w.fallbacks.release ref).maintainUndefinedSemaphores
      released := w.released ++ [.fallback ref]
      obtained := if w.obtained = some (.fallback ref) then none else w.obtained }
    given.endHolding
  | .idle, none => w.closeSocket.endHolding
  | _, _ => w

/-- One turn of the failsafe thread: the socket is closed where the message cannot be sent. -/
def failsafe (w : World) (sent : Bool) : World :=
  if w.client.releaseEvent = some false ∧ w.client.fallbackSemaphore = none ∧ sent = false then
    w.closeSocket
  else w

def step (w : World) : Event → World
  | .acquire name timed connect => w.requestAcquire name timed connect
  | .grant => w.grant
  | .receive callback command late => w.receive callback command late
  | .tryFallback callback late => w.tryFallback callback late
  | .release => w.release
  | .cancelRequest => { w with client := { w.client with cancelRequestFlag := true } }
  | .failsafe sent => w.failsafe sent
  | .other op => { w with fallbacks := w.fallbacks.apply op }

end World

end Ace3.NetworkSemaphore
