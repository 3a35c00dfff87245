import Ace3.Lib.Runs
import Mathlib.Data.Finset.Card
import Mathlib.Data.Finset.Range
import Mathlib.Logic.Function.Basic

/-!
# Dispatching Hunts

The manager thread of a hunt type and the threads that execute its hunts
(`saq/collectors/hunter/manager.py` and `execute_with_lock` of
`saq/collectors/hunter/base_hunter.py`), with their semaphores.

The network semaphore is a service that grants at most so many permits at a time.
-/

namespace Ace3.Collectors

/-! ## §1 Semaphores -/

/-- `concurrency_type`, with the limit. -/
inductive Concurrency where
  | unlimited
  | localSemaphore (limit : Nat)
  | networkSemaphore (limit : Nat)
  deriving DecidableEq

def Concurrency.isLocal : Concurrency → Bool
  | .localSemaphore _ => true
  | _ => false

inductive ExecutionMode where
  | continuous
  | singleShot
  deriving DecidableEq

/-- What `acquire_concurrency_lock` may return: the `threading.Semaphore` of the manager, or the
`NetworkSemaphoreClient` that was made for a dispatch. -/
inductive Semaphore where
  | shared
  | client (dispatch : Nat)
  deriving DecidableEq

/-! ## §2 States -/

inductive DispatchPhase where
  /-- The manager has the semaphore. -/
  | acquired
  /-- The thread waits for the execution lock. -/
  | starting
  | executing
  /-- The execution lock is released, the semaphore is not. -/
  | postProcessing
  | ended
  deriving DecidableEq

structure Dispatch where
  hunt : Nat
  /-- What `acquire_concurrency_lock` returned, and whether that is a permit. -/
  semaphore : Option Semaphore
  obtained : Bool
  phase : DispatchPhase
  deriving DecidableEq

inductive ManagerThread where
  | idle
  | acquiring (hunt : Nat)
  /-- Between `acquire_concurrency_lock` and the startup barrier. -/
  | dispatching (dispatch : Nat)
  /-- In single shot mode it executes the hunt itself. -/
  | executing (dispatch : Nat)
  deriving DecidableEq

structure HuntManager where
  /-- `manager_control_event`. -/
  shutdown : Bool
  /-- The counter of the local semaphore. -/
  value : Nat
  /-- The dispatches whose clients hold the network semaphore. -/
  held : Finset Nat
  /-- `hunt.semaphore`. -/
  semaphore : Nat → Option Semaphore
  /-- `hunt.execution_lock` is held. -/
  locked : Nat → Bool
  dispatches : Nat → Dispatch
  nextDispatch : Nat
  thread : ManagerThread
  /-- The calls of `release`, with the dispatch that made them. -/
  releases : List (Nat × Semaphore)

inductive HuntEvent where
  /-- `execute` finds the hunt ready, and calls `execute_hunt`. -/
  | look (hunt : Nat)
  /-- `acquire_concurrency_lock` returns, with a permit or without. -/
  | acquire (obtained : Bool)
  /-- The rest of `execute_hunt`, in which the new thread starts or cannot be started. -/
  | proceed (starts : Bool)
  /-- The execution lock is taken, and the barrier is passed. -/
  | begin (dispatch : Nat)
  /-- `execute_with_lock` returns. -/
  | executed (dispatch : Nat)
  /-- `execute_threaded_hunt` releases the semaphore. -/
  | finish (dispatch : Nat)
  /-- `stop`. -/
  | stop
  deriving DecidableEq

/-! ## §3 Steps -/

namespace HuntManager

def init (kind : Concurrency) : HuntManager where
  shutdown := false
  value := match kind with | .localSemaphore limit => limit | _ => 0
  held := ∅
  semaphore _ := none
  locked _ := false
  dispatches _ := ⟨0, none, false, .ended⟩
  nextDispatch := 0
  thread := .idle
  releases := []

def setPhase (m : HuntManager) (n : Nat) (phase : DispatchPhase) : HuntManager :=
  { m with dispatches := Function.update m.dispatches n { m.dispatches n with phase } }

/-- `acquire_concurrency_lock`, with what it returns and whether that is a permit. The local
semaphore is waited for until it is there or the manager shuts down; the client of the network
semaphore is returned whether it was granted a permit or not. -/
def acquireConcurrencyLock (kind : Concurrency) (m : HuntManager) (obtained : Bool) :
    Option (HuntManager × Option Semaphore × Bool) :=
  match kind with
  | .unlimited => some (m, none, false)
  | .localSemaphore _ =>
    if obtained then
      if 0 < m.value then some ({ m with value := m.value - 1 }, some .shared, true) else none
    else if m.shutdown then some (m, none, false)
    else none
  | .networkSemaphore limit =>
    if obtained then
      if m.held.card < limit then
        some ({ m with held := insert m.nextDispatch m.held }, some (.client m.nextDispatch), true)
      else none
    else some (m, some (.client m.nextDispatch), false)

/-- `release_concurrency_lock`, called by a dispatch. A client that holds nothing has nothing to
release. -/
def releaseConcurrencyLock (m : HuntManager) (n : Nat) : Option Semaphore → HuntManager
  | none => m
  | some .shared => { m with value := m.value + 1, releases := m.releases ++ [(n, .shared)] }
  | some (.client k) =>
    { m with held := m.held.erase k, releases := m.releases ++ [(n, .client k)] }

def endDispatch (m : HuntManager) (n : Nat) : HuntManager :=
  (m.setPhase n .ended).releaseConcurrencyLock n (m.semaphore (m.dispatches n).hunt)

/-- What an event does; an event that cannot happen in the state does nothing. -/
def step (kind : Concurrency) (mode : ExecutionMode) (m : HuntManager) : HuntEvent → HuntManager
  | .look hunt =>
    if m.thread = .idle ∧ m.locked hunt = false then { m with thread := .acquiring hunt } else m
  | .acquire obtained =>
    match m.thread with
    | .acquiring hunt =>
      match acquireConcurrencyLock kind m obtained with
      | some (m, semaphore, obtained) =>
        { m with
          semaphore := Function.update m.semaphore hunt semaphore
          dispatches :=
            Function.update m.dispatches m.nextDispatch ⟨hunt, semaphore, obtained, .acquired⟩
          nextDispatch := m.nextDispatch + 1
          thread := .dispatching m.nextDispatch }
      | none => m
    | _ => m
  | .proceed starts =>
    match m.thread with
    | .dispatching n =>
      if (m.dispatches n).phase = .acquired then
        if m.shutdown then { m.endDispatch n with thread := .idle }
        else if mode = .singleShot then { m.setPhase n .starting with thread := .executing n }
        else if starts then m.setPhase n .starting
        else { m.setPhase n .ended with thread := .idle }
      else m
    | _ => m
  | .begin n =>
    if (m.dispatches n).phase = .starting ∧ m.locked (m.dispatches n).hunt = false then
      { m.setPhase n .executing with
        locked := Function.update m.locked (m.dispatches n).hunt true
        thread := if mode = .continuous then .idle else m.thread }
    else m
  | .executed n =>
    if (m.dispatches n).phase = .executing then
      { m.setPhase n .postProcessing with
        locked := Function.update m.locked (m.dispatches n).hunt false }
    else m
  | .finish n =>
    if (m.dispatches n).phase = .postProcessing then
      { m.endDispatch n with thread := if m.thread = .executing n then .idle else m.thread }
    else m
  | .stop => { m with shutdown := true }

/-! ## §4 Balance -/

def releasesBy (m : HuntManager) (n : Nat) : List Semaphore :=
  (m.releases.filter (·.1 = n)).map (·.2)

/-- The permits balance: a dispatch that obtained a permit releases it once, when it ends, and
nobody releases anything else; no more hunts execute than the limit allows; and when all dispatches
have ended, nothing is held. -/
structure Balanced (kind : Concurrency) (m : HuntManager) : Prop where
  released : ∀ n < m.nextDispatch, (m.dispatches n).obtained →
    m.releasesBy n =
      if (m.dispatches n).phase = .ended then (m.dispatches n).semaphore.toList else []
  own : ∀ release ∈ m.releases, (m.dispatches release.1).semaphore = some release.2
  limited : ∀ limit, kind = .localSemaphore limit ∨ kind = .networkSemaphore limit →
    ∀ executing : Finset Nat, (∀ n ∈ executing, (m.dispatches n).phase = .executing) →
      executing.card ≤ limit
  returned : (∀ n < m.nextDispatch, (m.dispatches n).phase = .ended) →
    m.value = (init kind).value ∧ m.held = ∅

/-- When the manager puts a semaphore into a hunt, no earlier run of the hunt is being
post-processed, unless both are the local semaphore; a permit is only missing at shutdown; and a
thread that is to take a permit over can be started. -/
def Undisturbed (kind : Concurrency) (m : HuntManager) : HuntEvent → Prop
  | .acquire obtained =>
    match m.thread with
    | .acquiring hunt =>
      kind = .unlimited ∨
        (obtained ∨ m.shutdown) ∧
        (kind.isLocal ∧ obtained ∨
          ∀ n < m.nextDispatch, (m.dispatches n).hunt = hunt →
            (m.dispatches n).phase ≠ .postProcessing)
    | _ => True
  | .proceed starts => kind = .unlimited ∨ m.shutdown ∨ starts
  | _ => True

instance decidableUndisturbed (kind : Concurrency) (m : HuntManager) (event : HuntEvent) :
    Decidable (Undisturbed kind m event) := by
  unfold Undisturbed
  split
  · split <;> infer_instance
  · infer_instance
  · infer_instance

end HuntManager

end Ace3.Collectors
