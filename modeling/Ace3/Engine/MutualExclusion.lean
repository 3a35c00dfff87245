import Ace3.Engine.LockProtocol
import Ace3.Lib.Runs

/-!
# Mutual Exclusion of the Lock Protocol

Two live workers must never hold the lock of the same root, and nobody may take the row of a
live owner. With workers that renew their locks in time, one statement can break this: the `DELETE`
at the end of `_handle_failed_analysis`, which is scoped to the lock uuid read before it, or to
none. By then the lock may have been recovered and the root may have gone to a live worker.
-/

namespace Ace3.Engine

open Database
open Lib.Runs

namespace Cluster

/-! ## §1 Who comes to hold a lock, and who keeps it -/

section Holds

variable {timeout : Nat} {s s' : Cluster} {e : Event} {w : Nat} {uuid : RootUuid}

theorem holds_setWorker_of_ne {w' : Nat} (h : w ≠ w') (worker : Option Worker) :
    (s.setWorker w' worker).Holds w uuid ↔ s.Holds w uuid := by
  simp only [Holds, setWorker_workers_of_ne h]

theorem holds_setWorker_self {worker : Worker} :
    (s.setWorker w (some worker)).Holds w uuid ↔ worker.main = .holds uuid := by
  simp only [Holds, setWorker_workers_self, Option.some.injEq]
  constructor
  · rintro ⟨_, rfl⟩
    rfl
  · intro h
    exact ⟨worker.keepalive, by rw [← h]⟩

theorem holds_iff_of_workers {worker : Worker} (h : s.workers w = some worker) :
    s.Holds w uuid ↔ worker.main = .holds uuid := by
  rw [← holds_setWorker_self (s := s), setWorker, ← h, Function.update_eq_self]

/-- A worker that holds a lock after a statement of its `acquire_lock` is the holder in the
table, unless the call left it holding what it held. -/
private theorem holds_of_acquireAs {w' : Nat} {root : RootUuid} {stage : Locks.AcquireStage}
    {goesOn : Locks.AcquireStage → Worker} {acquired failed : Worker}
    (hacquired : acquired.main = .holds root)
    (h : (s.acquireAs timeout w' root stage goesOn acquired failed).Holds w uuid) :
    (s.acquireAs timeout w' root stage goesOn acquired failed).owner uuid = some (.worker w) ∨
      w ≠ w' ∧ s.Holds w uuid ∨
      w = w' ∧ ((∃ stage', (goesOn stage').main = .holds uuid) ∨ failed.main = .holds uuid) := by
  by_cases hw : w = w'
  · subst hw
    rcases s.acquireAs_cases w root stage goesOn acquired failed with
      ⟨-, -, heq⟩ | ⟨locks, worker, heq, howner, hworker⟩
    · rw [heq, holds_setWorker_self, hacquired] at h
      obtain rfl := MainThread.holds.inj h
      rw [heq, owner_setWorker, owner_setLocks, Locks.getLockUuid_update_self]
      exact .inl rfl
    · rw [heq, holds_setWorker_self] at h
      rcases hworker with ⟨stage', -, rfl⟩ | ⟨hown, rfl⟩ | ⟨-, rfl⟩
      · exact .inr (.inr ⟨rfl, .inl ⟨stage', h⟩⟩)
      · rw [hacquired] at h
        obtain rfl := MainThread.holds.inj h
        rw [heq, owner_setWorker, owner_setLocks, howner]
        exact .inl hown
      · exact .inr (.inr ⟨rfl, .inr h⟩)
  · obtain ⟨worker, heq⟩ := s.acquireAs_eq timeout w' root stage goesOn acquired failed
    rw [heq, holds_setWorker_of_ne hw] at h
    exact .inr (.inl ⟨hw, h⟩)

/-- A worker whose keepalive renews the lock it holds keeps holding it while it is the holder. -/
private theorem holds_kept_of_acquireAs {root : RootUuid} {stage : Locks.AcquireStage}
    {goesOn : Locks.AcquireStage → Worker} {acquired failed : Worker}
    (hacquired : acquired.main = .holds root) (hgoesOn : ∀ stage', (goesOn stage').main = .holds root)
    (howner : (s.acquireAs timeout w root stage goesOn acquired failed).owner root =
      some (.worker w)) :
    (s.acquireAs timeout w root stage goesOn acquired failed).Holds w root := by
  rcases s.acquireAs_cases w root stage goesOn acquired failed with
    ⟨-, -, heq⟩ | ⟨locks, worker, heq, hlocks, hworker⟩
  · rw [heq, holds_setWorker_self]
    exact hacquired
  · rw [heq, owner_setWorker, owner_setLocks, hlocks] at howner
    rw [heq, holds_setWorker_self]
    rcases hworker with ⟨stage', -, rfl⟩ | ⟨-, rfl⟩ | ⟨hnot, -⟩
    · exact hgoesOn stage'
    · exact hacquired
    · exact absurd howner hnot

/-- A worker that holds a lock held it before, and did not just release it, or is the holder
in the table. -/
theorem holds_of_fires (hfires : Fires timeout s e s') (h : s'.Holds w uuid) :
    s'.owner uuid = some (.worker w) ∨ s.Holds w uuid ∧ e ≠ .release w := by
  cases hfires with
  | advance => exact .inr ⟨h, by simp⟩
  | @die w' =>
    by_cases hw : w = w'
    · subst hw
      obtain ⟨_, h⟩ := h
      rw [setWorker_workers_self] at h
      cases h
    · exact .inr ⟨(holds_setWorker_of_ne hw none).mp h, by simp⟩
  | acquire hworker =>
    rcases holds_of_acquireAs rfl h with h | ⟨-, h⟩ | ⟨-, ⟨_, h⟩ | h⟩
    · exact .inl h
    · exact .inr ⟨h, by simp⟩
    · cases h
    · cases h
  | resumeAcquire hworker =>
    rcases holds_of_acquireAs rfl h with h | ⟨-, h⟩ | ⟨-, ⟨_, h⟩ | h⟩
    · exact .inl h
    · exact .inr ⟨h, by simp⟩
    · cases h
    · cases h
  | startKeepalive hworker | resumeStart hworker =>
    rcases holds_of_acquireAs rfl h with h | ⟨-, h⟩ | ⟨rfl, ⟨_, h⟩ | h⟩
    · exact .inl h
    · exact .inr ⟨h, by simp⟩
    · -- the call goes on: the worker still holds the lock it is to keep alive
      exact .inr ⟨(holds_iff_of_workers hworker).mpr h, by simp⟩
    · cases h
  | tick hworker | resumeTick hworker =>
    rcases holds_of_acquireAs rfl h with h | ⟨-, h⟩ | ⟨rfl, ⟨_, h⟩ | h⟩
    · exact .inl h
    · exact .inr ⟨h, by simp⟩
    · exact .inr ⟨(holds_iff_of_workers hworker).mpr h, by simp⟩
    · exact .inr ⟨(holds_iff_of_workers hworker).mpr h, by simp⟩
  | @release w' =>
    by_cases hw : w = w'
    · subst hw
      cases holds_setWorker_self.mp h
    · exact .inr ⟨(holds_setWorker_of_ne hw _).mp h, by simp [Ne.symm hw]⟩
  | @readFailed w' | @forceRelease w' =>
    by_cases hw : w = w'
    · subst hw
      cases holds_setWorker_self.mp h
    · exact .inr ⟨(holds_setWorker_of_ne hw _).mp h, by simp⟩
  | recover | resumeRecover =>
    simp only [Holds, acquireRecovery_workers] at h
    exact .inr ⟨h, by simp⟩
  | releaseRecovered => exact .inr ⟨h, by simp⟩

/-- A live worker that held a lock, and is its holder in the table afterwards, still holds it. -/
theorem holds_kept (hfires : Fires timeout s e s') (h : s.Holds w uuid)
    (howner : s'.owner uuid = some (.worker w)) (halive : (s'.workers w).isSome) :
    s'.Holds w uuid := by
  have hself {worker : Worker} (hworker : s.workers w = some worker) :
      worker.main = .holds uuid := (holds_iff_of_workers hworker).mp h
  cases hfires with
  | advance | releaseRecovered => exact h
  | @die w' =>
    by_cases hw : w = w'
    · subst hw
      rw [setWorker_workers_self] at halive
      cases halive
    · exact (holds_setWorker_of_ne hw none).mpr h
  | @acquire w' _ _ hworker | @resumeAcquire w' _ _ _ hworker =>
    by_cases hw : w = w'
    · subst hw
      cases hself hworker
    · obtain ⟨worker, heq⟩ := s.acquireAs_eq timeout w' _ _ _ _ _
      rw [acquireMain, heq]
      exact (holds_setWorker_of_ne hw _).mpr h
  | @startKeepalive w' _ hworker | @resumeStart w' _ _ hworker =>
    by_cases hw : w = w'
    · subst hw
      obtain rfl := MainThread.holds.inj (hself hworker)
      exact holds_kept_of_acquireAs rfl (fun _ => rfl) howner
    · obtain ⟨worker, heq⟩ := s.acquireAs_eq timeout w' _ _ _ _ _
      rw [acquireStart, heq]
      exact (holds_setWorker_of_ne hw _).mpr h
  | @tick w' _ hworker | @resumeTick w' _ _ hworker =>
    by_cases hw : w = w'
    · subst hw
      obtain rfl := MainThread.holds.inj (hself hworker)
      exact holds_kept_of_acquireAs rfl (fun _ => rfl) howner
    · obtain ⟨worker, heq⟩ := s.acquireAs_eq timeout w' _ _ _ _ _
      rw [acquireTick, heq]
      exact (holds_setWorker_of_ne hw _).mpr h
  | @release w' root keepalive hworker =>
    by_cases hw : w = w'
    · subst hw
      obtain rfl := MainThread.holds.inj (hself hworker)
      rw [owner_setWorker, owner_setLocks, Locks.getLockUuid_releaseLock] at howner
      split at howner
      next => cases howner
      next hnot => exact absurd ⟨rfl, howner⟩ hnot
    · exact (holds_setWorker_of_ne hw _).mpr h
  | @readFailed w' _ _ hworker | @forceRelease w' _ _ _ hworker =>
    by_cases hw : w = w'
    · subst hw
      cases hself hworker
    · exact (holds_setWorker_of_ne hw _).mpr h
  | recover | resumeRecover => simpa only [Holds, acquireRecovery_workers] using h

end Holds

/-! ## §2 The promise and the condition -/

/-- Live workers renew their locks before they expire: no time passes that would let the row of
a live owner reach the lock timeout. -/
def Refreshed (timeout : Nat) (s : Cluster) (e : Event) : Prop :=
  ∀ seconds, e = .advance seconds → ∀ uuid w row, (s.workers w).isSome →
    s.locks uuid = some row → row.lockUuid = .worker w →
    ¬ row.expired timeout (s.now + seconds)

/-- What each event promises: at most one live worker holds the lock of a root afterwards, and
the lock of a live owner is neither removed nor taken over by any other party. -/
structure Excludes (timeout : Nat) (s : Cluster) (e : Event) : Prop where
  exclusive (uuid : RootUuid) (w w' : Nat) (h : (s.step timeout e).Holds w uuid)
    (h' : (s.step timeout e).Holds w' uuid) : w = w'
  kept (uuid : RootUuid) (w : Nat) (halive : (s.workers w).isSome)
    (howner : s.owner uuid = some (.worker w)) (hother : e ≠ .release w) :
    (s.step timeout e).owner uuid = some (.worker w)

/-- When `_handle_failed_analysis` issues its `DELETE`, no live worker owns the lock whose uuid
it read, nor, where it had read that there is no lock, a lock acquired since. -/
def ForceReleaseHarmless (s : Cluster) (e : Event) : Prop :=
  ∀ w uuid observed keepalive, e = .forceRelease w →
    s.workers w = some ⟨.failedAnalysis uuid observed, keepalive⟩ →
    ∀ w', (s.workers w').isSome → s.owner uuid = some (.worker w') →
      observed ≠ none ∧ observed ≠ some (.worker w')

/-! ## §3 The invariant -/

/-- A live worker holds a lock exactly when the row names it, and such a row is not expired. -/
structure Exclusive (timeout : Nat) (s : Cluster) : Prop where
  owner_of_holds : ∀ uuid w, s.Holds w uuid → s.owner uuid = some (.worker w)
  holds_of_owner : ∀ uuid w, s.owner uuid = some (.worker w) → (s.workers w).isSome →
    s.Holds w uuid
  fresh : ∀ uuid w row, (s.workers w).isSome → s.locks uuid = some row →
    row.lockUuid = .worker w → ¬ row.expired timeout s.now

theorem exclusive_init (timeout : Nat) : Exclusive timeout init where
  owner_of_holds := by rintro uuid w ⟨_, ⟨⟩⟩
  holds_of_owner := by rintro uuid w ⟨⟩
  fresh := by rintro uuid w row _ ⟨⟩

section Invariant

variable {timeout : Nat} {s : Cluster} {e : Event}

theorem Exclusive.kept (hinv : Exclusive timeout s) (hharmless : ForceReleaseHarmless s e)
    {uuid : RootUuid} {w : Nat} (halive : (s.workers w).isSome)
    (howner : s.owner uuid = some (.worker w)) (hother : e ≠ .release w) :
    (s.step timeout e).owner uuid = some (.worker w) := by
  obtain ⟨keepalive, hworker⟩ := hinv.holds_of_owner uuid w howner halive
  cases ownerChange_step timeout s e uuid with
  | unchanged h => exact h.trans howner
  | inserted _ hfree => cases hfree.symm.trans howner
  | takenOver call row hrow hexpired =>
    have hrowOwner : row.lockUuid = .worker w := by
      simpa [owner, Locks.getLockUuid, hrow] using howner
    exact absurd hexpired (hinv.fresh uuid w row halive hrow hrowOwner)
  | released lockUuid hown hrelease =>
    exact absurd (hrelease w (Option.some.inj (hown.symm.trans howner))) hother
  | forceReleased w' keepalive' observed hevent hworker' hmatch h =>
    obtain ⟨hnone, hsome⟩ := hharmless w' uuid observed keepalive' hevent hworker' w halive howner
    rcases hmatch with rfl | rfl
    · exact absurd rfl hnone
    · exact absurd howner hsome

theorem Exclusive.step (hpos : 0 < timeout) (hinv : Exclusive timeout s)
    (hrefreshed : Refreshed timeout s e) (hharmless : ForceReleaseHarmless s e) :
    Exclusive timeout (s.step timeout e) := by
  rcases s.step_cases timeout e with hidle | hfires
  · rwa [hidle]
  have hshape := shape_of_fires hfires
  refine ⟨fun uuid w hholds => ?_, fun uuid w howner halive => ?_, ?_⟩
  · -- whoever holds a lock just became its holder, or was it and nobody took it
    rcases holds_of_fires hfires hholds with howner | ⟨hbefore, hother⟩
    · exact howner
    · obtain ⟨_, hworker⟩ := hbefore
      exact hinv.kept hharmless (by rw [hworker]; rfl)
        (hinv.owner_of_holds uuid w ⟨_, hworker⟩) hother
  · cases ownerChange_step timeout s e uuid with
    | unchanged h =>
      have hbefore := hinv.holds_of_owner uuid w (h.symm.trans howner)
        (isSome_of_shape hshape halive)
      exact holds_kept hfires hbefore howner halive
    | inserted lockUuid _ _ h hholds =>
      exact hholds w (Option.some.inj (h.symm.trans howner))
    | takenOver _ _ _ _ h => cases h.symm.trans howner
    | released _ _ _ h => cases h.symm.trans howner
    | forceReleased _ _ _ _ _ _ h => cases h.symm.trans howner
  · intro uuid w row halive hrow hown
    have halive' := isSome_of_shape hshape halive
    have hrows (locks : Locks) (h : s.RowsFrom locks) (hrow : locks uuid = some row) :
        ¬ row.expired timeout s.now := by
      rcases h uuid row hrow with hold | hnew
      · exact hinv.fresh uuid w row halive' hold hown
      · simp [LockRow.expired, hnew]
        omega
    generalize s.step timeout e = s' at hshape hrow ⊢
    cases hshape with
    | advance seconds hevent => exact hrefreshed seconds hevent uuid w row halive' hrow hown
    | worker locks _ _ h => exact hrows locks h hrow
    | recovery locks _ _ h => exact hrows locks h hrow

theorem Exclusive.excludes_iff (hpos : 0 < timeout) (hinv : Exclusive timeout s)
    (hrefreshed : Refreshed timeout s e) : Excludes timeout s e ↔ ForceReleaseHarmless s e := by
  constructor
  · rintro h w uuid observed keepalive rfl hworker w' halive howner
    have hkept := h.kept uuid w' halive howner (by simp)
    simp only [Cluster.step, hworker, owner_setWorker, owner_setLocks] at hkept
    constructor
    · rintro rfl
      rw [Locks.forceReleaseLock, Locks.getLockUuid_update_self] at hkept
      cases hkept
    · rintro rfl
      rw [Locks.forceReleaseLock, Locks.getLockUuid_releaseLock, if_pos ⟨rfl, howner⟩] at hkept
      cases hkept
  · intro hharmless
    have hafter := hinv.step hpos hrefreshed hharmless
    refine ⟨fun uuid w w' h h' => ?_, fun uuid w => hinv.kept hharmless⟩
    have howner := hafter.owner_of_holds uuid w h
    have howner' := hafter.owner_of_holds uuid w' h'
    exact LockUuid.worker.inj (Option.some.inj (howner.symm.trans howner'))

end Invariant

/-! ## §4 Every run -/

/-- In every run in which live workers renew their locks in time, each event keeps mutual
exclusion and the locks of live owners if and only if no `_handle_failed_analysis` deletes the
lock of a live worker that it read, or that appeared after it had read none. -/
theorem run_excludes_iff {timeout : Nat} (hpos : 0 < timeout) (events : List Event)
    (hrefreshed : Along (step timeout) (Refreshed timeout) init events) :
    Along (step timeout) (Excludes timeout) init events ↔
      Along (step timeout) ForceReleaseHarmless init events :=
  along_iff_of_assuming (Exclusive timeout)
    (fun _ _ hinv hrefreshed hexcludes =>
      hinv.step hpos hrefreshed ((hinv.excludes_iff hpos hrefreshed).mp hexcludes))
    (fun _ _ hinv => hinv.excludes_iff hpos) (exclusive_init timeout) hrefreshed

/-- Worker 0 dies while it holds the lock of `root`, which expires, is recovered and goes to worker
1 before its replacement, worker 2, reads the row. Worker 2 deletes it, and worker 3 acquires it. -/
def deadWorkerRecovered : List Event :=
  [.acquire 0 "root", .die 0, .advance 60, .recover 0 "root", .resumeRecover 0, .resumeRecover 0,
    .releaseRecovered 0, .acquire 1 "root", .readFailed 2 "root", .forceRelease 2,
    .acquire 3 "root"]

/-- No live worker lets its lock expire, and yet workers 1 and 3 hold the lock at once. -/
theorem deadWorkerRecovered_breaks_exclusion :
    Along (step 60) (Refreshed 60) init deadWorkerRecovered ∧
      ¬ Along (step 60) (Excludes 60) init deadWorkerRecovered := by
  constructor
  · refine ⟨nofun, nofun, ?_, nofun, nofun, nofun, nofun, nofun, nofun, nofun, nofun, trivial⟩
    intro seconds _ uuid w row halive hrow hown
    -- the only row is that of worker 0, which is dead
    by_cases huuid : uuid = "root"
    · subst huuid
      obtain rfl : (⟨.worker 0, 0⟩ : LockRow) = row := Option.some.inj hrow
      obtain rfl := LockUuid.worker.inj hown
      cases halive
    · simp [step, init, acquireMain, acquireAs, Locks.acquireLock, Locks.insert, setLocks,
        setWorker, huuid] at hrow
  · intro h
    have hlast : Excludes 60 ((deadWorkerRecovered.take 10).foldl (step 60) init)
        (.acquire 3 "root") := h.at (deadWorkerRecovered.take 10)
    exact absurd (hlast.exclusive "root" 1 3 ⟨.stopped, by decide⟩ ⟨.stopped, by decide⟩)
      (by decide)

/-- When worker 2 reads the row before it is recovered, it reads the dead worker's own lock,
and the run keeps its promise. -/
theorem deadWorkerReleased_excludes :
    Along (step 60) (Excludes 60) init
      [.acquire 0 "root", .die 0, .readFailed 2 "root", .forceRelease 2, .acquire 1 "root"] := by
  refine (run_excludes_iff (by decide) _ ?_).mpr ?_
  · exact ⟨nofun, nofun, nofun, nofun, nofun, trivial⟩
  · refine ⟨nofun, nofun, nofun, ?_, nofun, trivial⟩
    rintro w uuid observed keepalive ⟨⟩ hworker w' halive howner
    have hread : (⟨.failedAnalysis "root" (some (.worker 0)), .stopped⟩ : Worker) =
        ⟨.failedAnalysis uuid observed, keepalive⟩ := Option.some.inj hworker
    obtain ⟨rfl, rfl⟩ := MainThread.failedAnalysis.inj (congrArg Worker.main hread)
    obtain rfl : 0 = w' := LockUuid.worker.inj (Option.some.inj howner)
    cases halive

end Cluster

end Ace3.Engine
