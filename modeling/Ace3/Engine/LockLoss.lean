import Ace3.Engine.LockProtocol

/-!
# Does the Keepalive Notice a Lost Lock?

A keepalive tick renews the lock through `acquire_lock`, which starts with an `INSERT`. When
somebody else holds the lock, the call fails and `on_lock_lost` is called. When the lock was lost
and then given up again, the `INSERT` succeeds and the worker goes on as if nothing had happened.
-/

namespace Ace3.Engine

open List
open Database

namespace Cluster

/-! ## §1 The statements of others -/

section Others

variable {timeout : Nat} {s : Cluster} {e : Event} {w : Nat} {uuid : RootUuid}

theorem workers_of_others (hother : e.worker ≠ some w) :
    (s.step timeout e).workers w = s.workers w := by
  have hne {w' : Nat} (h : some w' ≠ some w) : w ≠ w' := fun heq => h (heq ▸ rfl)
  have hacquire {w' : Nat} (h : some w' ≠ some w) (root : RootUuid) (stage : Locks.AcquireStage)
      (goesOn : Locks.AcquireStage → Worker) (acquired failed : Worker) :
      (s.acquireAs timeout w' root stage goesOn acquired failed).workers w = s.workers w := by
    obtain ⟨worker, heq⟩ := s.acquireAs_eq timeout w' root stage goesOn acquired failed
    rw [heq, setWorker_workers_of_ne (hne h)]
    rfl
  rcases s.step_cases timeout e with hidle | hfires
  · rw [hidle]
  generalize s.step timeout e = s' at hfires
  cases hfires with
  | advance | releaseRecovered => rfl
  | acquire | resumeAcquire | startKeepalive | resumeStart | tick | resumeTick =>
    exact hacquire hother ..
  | die | release | readFailed | forceRelease => exact setWorker_workers_of_ne (hne hother) _
  | recover | resumeRecover => rw [acquireRecovery_workers]

theorem owner_ne_of_others (hother : e.worker ≠ some w)
    (howner : s.owner uuid ≠ some (.worker w)) :
    (s.step timeout e).owner uuid ≠ some (.worker w) := by
  cases ownerChange_step timeout s e uuid with
  | unchanged h => rwa [h]
  | inserted lockUuid _ hrequester h =>
    rw [h]
    rintro ⟨⟩
    refine hother ?_
    cases e <;> simp [Event.requester] at hrequester <;> simp [Event.worker, hrequester]
  | takenOver _ _ _ _ h => simp [h]
  | released _ _ _ h => simp [h]
  | forceReleased _ _ _ _ _ _ h => simp [h]

theorem workers_of_others_run (timeout : Nat) {events : List Event}
    (hothers : ∀ e ∈ events, e.worker ≠ some w) :
    (events.foldl (step timeout) s).workers w = s.workers w :=
  List.foldlRecOn (motive := fun t : Cluster => t.workers w = s.workers w) events _ rfl fun _ ih e he =>
    (workers_of_others (hothers e he)).trans ih

theorem owner_ne_of_others_run (timeout : Nat) {events : List Event}
    (hothers : ∀ e ∈ events, e.worker ≠ some w) (howner : s.owner uuid ≠ some (.worker w)) :
    (events.foldl (step timeout) s).owner uuid ≠ some (.worker w) :=
  List.foldlRecOn (motive := fun t : Cluster => t.owner uuid ≠ some (.worker w)) events _ howner
    fun _ ih e he => owner_ne_of_others (hothers e he) ih

end Others

/-! ## §2 A tick after a loss -/

/-- The statements of one tick of a worker, with what others do after each of the first two. A
tick whose `INSERT` succeeds is over at once; its later events then find nothing to do. -/
def tickEvents (w : Nat) (afterInsert afterUpdate : List Event) : List Event :=
  .tick w :: afterInsert ++ .resumeKeepalive w :: afterUpdate ++ [.resumeKeepalive w]

section Tick

variable {timeout : Nat} {s : Cluster} {w : Nat} {uuid : RootUuid}

theorem tick_of_no_row (hworker : s.workers w = some ⟨.holds uuid, .waiting⟩)
    (hrow : s.locks uuid = none) :
    (s.step timeout (.tick w)).workers w = some ⟨.holds uuid, .waiting⟩ := by
  simp only [step, hworker, acquireTick, acquireAs, Locks.acquireLock, Locks.insert, hrow,
    setWorker_workers_self]

theorem tick_of_row (timeout : Nat) (hworker : s.workers w = some ⟨.holds uuid, .waiting⟩)
    (hrow : s.locks uuid ≠ none) :
    (s.step timeout (.tick w)).workers w = some ⟨.holds uuid, .ticking .update⟩ ∧
      (s.step timeout (.tick w)).owner uuid = s.owner uuid := by
  obtain ⟨row, hrow⟩ := Option.ne_none_iff_exists'.mp hrow
  have hstep : s.step timeout (.tick w) =
      (s.setLocks s.locks).setWorker w (some ⟨.holds uuid, .ticking .update⟩) := by
    simp only [step, hworker, acquireTick, acquireAs, Locks.acquireLock, Locks.insert, hrow]
  rw [hstep]
  exact ⟨setWorker_workers_self .., rfl⟩

theorem resume_of_update (timeout : Nat) (hworker : s.workers w = some ⟨.holds uuid, .ticking .update⟩) :
    (s.step timeout (.resumeKeepalive w)).workers w = some ⟨.holds uuid, .ticking .verify⟩ ∧
      (s.step timeout (.resumeKeepalive w)).owner uuid = s.owner uuid := by
  have hstep : s.step timeout (.resumeKeepalive w) =
      (s.setLocks (s.locks.update timeout s.now uuid (.worker w) false)).setWorker w
        (some ⟨.holds uuid, .ticking .verify⟩) := by
    simp only [step, hworker, acquireTick, acquireAs, Locks.acquireLock]
  rw [hstep]
  exact ⟨setWorker_workers_self .., Locks.getLockUuid_update_false⟩

theorem resume_of_verify (hworker : s.workers w = some ⟨.holds uuid, .ticking .verify⟩)
    (howner : s.owner uuid ≠ some (.worker w)) :
    (s.step timeout (.resumeKeepalive w)).workers w = some ⟨.holds uuid, .lockLost⟩ := by
  have howner' : s.locks.getLockUuid uuid ≠ some (.worker w) := howner
  simp only [step, hworker, acquireTick, acquireAs, Locks.acquireLock, howner', decide_false,
    setWorker_workers_self]

theorem resume_of_waiting (hworker : s.workers w = some ⟨.holds uuid, .waiting⟩) :
    s.step timeout (.resumeKeepalive w) = s := by
  simp only [step, hworker]

variable {afterInsert afterUpdate : List Event}
  (hothers : ∀ e ∈ afterInsert ++ afterUpdate, e.worker ≠ some w)

include hothers

theorem tickEvents_of_no_row (timeout : Nat) (hworker : s.workers w = some ⟨.holds uuid, .waiting⟩)
    (hrow : s.locks uuid = none) :
    ((tickEvents w afterInsert afterUpdate).foldl (step timeout) s).workers w =
      some ⟨.holds uuid, .waiting⟩ := by
  simp only [tickEvents, cons_append, foldl_cons, foldl_append, foldl_nil]
  have hinsert : (afterInsert.foldl (step timeout) (s.step timeout (.tick w))).workers w =
      some ⟨.holds uuid, .waiting⟩ :=
    (workers_of_others_run timeout fun e he => hothers e (mem_append_left _ he)).trans
      (tick_of_no_row hworker hrow)
  rw [resume_of_waiting hinsert]
  have hupdate := (workers_of_others_run timeout
    fun e he => hothers e (mem_append_right _ he)).trans hinsert
  rw [resume_of_waiting hupdate, hupdate]

theorem tickEvents_of_row (hworker : s.workers w = some ⟨.holds uuid, .waiting⟩)
    (hrow : s.locks uuid ≠ none) (howner : s.owner uuid ≠ some (.worker w)) :
    ((tickEvents w afterInsert afterUpdate).foldl (step timeout) s).workers w =
      some ⟨.holds uuid, .lockLost⟩ := by
  simp only [tickEvents, cons_append, foldl_cons, foldl_append, foldl_nil]
  have hfirst : ∀ e ∈ afterInsert, e.worker ≠ some w :=
    fun e he => hothers e (mem_append_left _ he)
  have hsecond : ∀ e ∈ afterUpdate, e.worker ≠ some w :=
    fun e he => hothers e (mem_append_right _ he)
  obtain ⟨hticking, hsame⟩ := tick_of_row timeout hworker hrow
  rw [← hsame] at howner
  have hlost := owner_ne_of_others_run timeout hfirst howner
  obtain ⟨hverify, hsame⟩ := resume_of_update timeout
    ((workers_of_others_run timeout hfirst).trans hticking)
  rw [← hsame] at hlost
  exact resume_of_verify ((workers_of_others_run timeout hsecond).trans hverify)
    (owner_ne_of_others_run timeout hsecond hlost)

end Tick

/-! ## §3 When the loss is noticed -/

/-- At some moment while the events happen, the worker is not the holder of the lock. -/
def Lapses (timeout : Nat) (s : Cluster) (w : Nat) (uuid : RootUuid) (events : List Event) :
    Prop :=
  ∃ first, first <+: events ∧ (first.foldl (step timeout) s).owner uuid ≠ some (.worker w)

theorem Lapses.owner_ne {timeout : Nat} {s : Cluster} {w : Nat} {uuid : RootUuid}
    {events : List Event} (h : Lapses timeout s w uuid events)
    (hothers : ∀ e ∈ events, e.worker ≠ some w) :
    (events.foldl (step timeout) s).owner uuid ≠ some (.worker w) := by
  obtain ⟨first, ⟨rest, rfl⟩, howner⟩ := h
  rw [foldl_append]
  exact owner_ne_of_others_run timeout (fun e he => hothers e (mem_append_right _ he)) howner

/-- A worker whose last tick is over, and which then was not the holder at some moment of any
interleaving with others, is told so by its next tick if and only if the lock row exists when
that tick issues its `INSERT`; otherwise its keepalive goes on in silence. -/
theorem tick_detects_loss_iff {timeout : Nat} {s : Cluster} {w : Nat} {uuid : RootUuid}
    (hworker : s.workers w = some ⟨.holds uuid, .waiting⟩)
    {between afterInsert afterUpdate : List Event}
    (hothers : ∀ e ∈ between ++ afterInsert ++ afterUpdate, e.worker ≠ some w)
    (hlapses : Lapses timeout s w uuid between) :
    ((between ++ tickEvents w afterInsert afterUpdate).foldl (step timeout) s).workers w =
        some ⟨.holds uuid, .lockLost⟩ ↔
      (between.foldl (step timeout) s).locks uuid ≠ none := by
  have hbetween : ∀ e ∈ between, e.worker ≠ some w :=
    fun e he => hothers e (mem_append_left _ (mem_append_left _ he))
  have hduring : ∀ e ∈ afterInsert ++ afterUpdate, e.worker ≠ some w := by
    rw [append_assoc] at hothers
    exact fun e he => hothers e (mem_append_right _ he)
  have hwaiting := (workers_of_others_run timeout hbetween).trans hworker
  rw [foldl_append]
  constructor
  · intro hdetected hrow
    have hsilent := tickEvents_of_no_row hduring timeout hwaiting hrow
    cases hdetected.symm.trans hsilent
  · intro hrow
    exact tickEvents_of_row hduring hwaiting hrow (hlapses.owner_ne hbetween)

/-- Worker 0 has acquired the lock of `root` and started its keepalive. -/
def keptAlive : Cluster :=
  [.acquire 0 "root", .startKeepalive 0, .resumeKeepalive 0, .resumeKeepalive 0].foldl (step 60) init

/-- The lock of worker 0 expires and is recovered, and worker 1 acquires it. -/
def takenByOther : List Event :=
  [.advance 60, .recover 0 "root", .resumeRecover 0, .resumeRecover 0, .releaseRecovered 0,
    .acquire 1 "root"]

/-- Once worker 1 has released the lock again, the next tick of worker 0 inserts a new row and
worker 0 goes on. -/
theorem takenByOther_goes_unnoticed :
    keptAlive.workers 0 = some ⟨.holds "root", .waiting⟩ ∧
      (takenByOther.foldl (step 60) keptAlive).owner "root" = some (.worker 1) ∧
      ((takenByOther ++ [Event.release 1] ++ tickEvents 0 [] []).foldl (step 60) keptAlive).workers 0 =
        some ⟨.holds "root", .waiting⟩ := by
  decide

/-- While worker 1 holds the lock, the next tick of worker 0 notices. -/
theorem takenByOther_is_noticed :
    ((takenByOther ++ tickEvents 0 [] []).foldl (step 60) keptAlive).workers 0 =
      some ⟨.holds "root", .lockLost⟩ :=
  (tick_detects_loss_iff (s := keptAlive) (w := 0) (by decide) (by decide)
    ⟨takenByOther, prefix_rfl, by decide⟩).mpr (by decide)

end Cluster

end Ace3.Engine
