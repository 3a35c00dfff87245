import Ace3.NetworkSemaphore.Client
import Ace3.Lib.Runs
import Mathlib.Data.List.Count
import Mathlib.Tactic.SplitIfs

/-!
# Through Which Channel a Permit Is Released

A client remembers in `fallback_semaphore` that its permit is one of a fallback semaphore, and does
not forget it when the permit is released. So a later `release` gives back a permit of it again,
also where the client has a permit of the server, or none.
-/

namespace Ace3.NetworkSemaphore.World

open List
open Lib.Runs

variable {w : World} {event : Event}

/-! ## §1 Fields and permits -/

def IsWaiting : AcquirePhase → Prop
  | .waiting _ _ => True
  | _ => False

def Connected (w : World) : Prop := ∀ c ∈ w.serverHolds, w.client.socket = some c

/-- The fields say which permit the client has, and every other permit has been given back. -/
structure Inv (w : World) : Prop where
  busy : w.client.phase ≠ .idle → w.obtained = none
  flagged : w.obtained ≠ none → w.client.semaphoreAcquired = true
  fallback : ∀ ref, w.obtained = some (.fallback ref) → w.client.fallbackSemaphore = some ref
  server : ∀ c, w.obtained = some (.server c) → c ∈ w.serverHolds
  connected : w.Connected
  waits : ∀ c ∈ w.serverHolds, IsWaiting w.client.phase ∨ w.obtained = some (.server c)
  balance : ∀ ref, w.acquired.count (.fallback ref) = w.released.count (.fallback ref) +
    if w.obtained = some (.fallback ref) then 1 else 0

theorem inv_start (limits : List (Text × Nat)) : (start limits).Inv where
  busy _ := rfl
  flagged h := absurd rfl h
  fallback _ h := nomatch h
  server _ h := nomatch h
  connected _ hc := nomatch hc
  waits _ hc := nomatch hc
  balance _ := rfl

theorem inv_of_none (hobtained : w.obtained = none) (hholds : w.serverHolds = [])
    (hbalance : ∀ ref, w.acquired.count (.fallback ref) = w.released.count (.fallback ref)) :
    w.Inv where
  busy _ := hobtained
  flagged h := absurd hobtained h
  fallback ref h := by
    rw [hobtained] at h
    cases h
  server c h := by
    rw [hobtained] at h
    cases h
  connected c hc := by
    rw [hholds] at hc
    cases hc
  waits c hc := by
    rw [hholds] at hc
    cases hc
  balance ref := by rw [hbalance ref, hobtained, if_neg nofun, Nat.add_zero]

theorem Inv.balance_of_none (h : w.Inv) {ref : SemaphoreRef}
    (hobtained : w.obtained ≠ some (.fallback ref)) :
    w.acquired.count (.fallback ref) = w.released.count (.fallback ref) := by
  rw [h.balance ref, if_neg hobtained, Nat.add_zero]

theorem Inv.serverHolds_eq_nil (h : w.Inv) (hphase : ¬ IsWaiting w.client.phase)
    (hobtained : ∀ c, w.obtained ≠ some (.server c)) : w.serverHolds = [] := by
  apply eq_nil_iff_forall_not_mem.mpr
  intro c hc
  exact (h.waits c hc).elim hphase (hobtained c)

/-! ## §2 Steps -/

/-- Closing the socket gives back what the server has out, and nothing else. -/
structure Closes (w w' : World) : Prop where
  client : w'.client = w.client
  acquired : w'.acquired = w.acquired
  serverHolds : w'.serverHolds = []
  obtained : w'.obtained = none
  released : ∃ connections : List Nat, w'.released = w.released ++ connections.map .server ∧
    connections ⊆ w.serverHolds ∧ ∀ c, w.obtained = some (.server c) → connections = [c]

theorem Inv.closes (h : w.Inv) (hfallback : ∀ ref, w.obtained ≠ some (.fallback ref)) :
    Closes w w.closeSocket := by
  have hnone : (∀ c, w.obtained ≠ some (.server c)) → w.obtained = none := by
    intro hserver
    cases hobtained : w.obtained with
    | none => rfl
    | some permit =>
      cases permit with
      | server c => exact absurd hobtained (hserver c)
      | fallback ref => exact absurd hobtained (hfallback ref)
  by_cases hsocket : ∃ c, w.client.socket = some c ∧ c ∈ w.serverHolds
  · obtain ⟨c, hsocket, hc⟩ := hsocket
    have hsame : ∀ c' ∈ w.serverHolds, c' = c := fun c' hc' =>
      Option.some.inj ((h.connected c' hc').symm.trans hsocket)
    have hclose : w.closeSocket = { w with
        serverHolds := w.serverHolds.filter (· ≠ c)
        released := w.released ++ [.server c]
        obtained := if w.obtained = some (.server c) then none else w.obtained } := by
      simp only [closeSocket, hsocket, if_pos hc]
    refine ⟨by rw [hclose], by rw [hclose], ?_, ?_, [c], by rw [hclose]; rfl,
      cons_subset.mpr ⟨hc, nil_subset _⟩, fun c' hc' => ?_⟩
    · rw [hclose]
      exact filter_eq_nil_iff.mpr fun c' hc' => by simp [hsame c' hc']
    · rw [hclose]
      split
      · rfl
      next hne =>
        refine hnone fun c' hc' => hne ?_
        rw [hc', hsame c' (h.server c' hc')]
    · rw [hsame c' (h.server c' hc')]
  · have hholds : w.serverHolds = [] := eq_nil_iff_forall_not_mem.mpr fun c hc =>
      hsocket ⟨c, h.connected c hc, hc⟩
    have hserver : ∀ c, w.obtained ≠ some (.server c) := fun c hc => by
      have hmem := h.server c hc
      rw [hholds] at hmem
      cases hmem
    have hclose : w.closeSocket = w := by
      rw [closeSocket]
      split
      · rfl
      next c _ => rw [if_neg (by rw [hholds]; exact not_mem_nil)]
    rw [hclose]
    exact ⟨rfl, rfl, hholds, hnone hserver, [], by simp, nil_subset _,
      fun c hc => absurd hc (hserver c)⟩

theorem Closes.count_eq {w' : World} (h : Closes w w') (ref : SemaphoreRef) :
    w'.released.count (.fallback ref) = w.released.count (.fallback ref) := by
  obtain ⟨connections, hreleased, -, -⟩ := h.released
  have hnot : Permit.fallback ref ∉ connections.map .server := by
    intro hmem
    obtain ⟨c, -, hc⟩ := mem_map.mp hmem
    cases hc
  rw [hreleased, count_append, count_eq_zero_of_not_mem hnot, Nat.add_zero]

theorem Inv.closed (h : w.Inv) (hfallback : ∀ ref, w.obtained ≠ some (.fallback ref)) {w' : World}
    (hobtained : w'.obtained = w.closeSocket.obtained)
    (hholds : w'.serverHolds = w.closeSocket.serverHolds)
    (hacquired : w'.acquired = w.closeSocket.acquired)
    (hreleased : w'.released = w.closeSocket.released) : w'.Inv := by
  have hcloses := h.closes hfallback
  refine inv_of_none (hobtained.trans hcloses.obtained) (hholds.trans hcloses.serverHolds) ?_
  intro ref
  rw [hacquired, hcloses.acquired, hreleased, hcloses.count_eq]
  exact h.balance_of_none (hfallback ref)

def RemembersItsOwn (w : World) (event : Event) : Prop :=
  event = .release → w.client.phase = .idle →
    w.client.fallbackSemaphore = none ∨ ∃ ref, w.obtained = some (.fallback ref)

theorem Inv.requestAcquire (h : w.Inv) (name : Text) (timed : Bool) (connect : Connect) :
    (w.requestAcquire name timed connect).Inv := by
  unfold World.requestAcquire
  split
  · exact h
  next hfree =>
    rw [not_or] at hfree
    have hnone : w.obtained = none := by
      by_contra hobtained
      exact hfree.2 (h.flagged hobtained)
    have hfallback : ∀ ref, w.obtained ≠ some (.fallback ref) := fun ref => by
      rw [hnone]
      exact nofun
    have hnew : w.newSocket.Inv := h.closed hfallback rfl rfl rfl rfl
    have hnewNone : w.newSocket.obtained = none := (h.closes hfallback).obtained
    have hnewFallback : ∀ ref, w.newSocket.obtained ≠ some (.fallback ref) := fun ref => by
      rw [hnewNone]
      exact nofun
    cases connect with
    | noSocket => exact h.closed hfallback rfl rfl rfl rfl
    | refused => exact hnew.closed hnewFallback rfl rfl rfl rfl
    | requested => exact h.closed hfallback rfl rfl rfl rfl

theorem Inv.grant (h : w.Inv) {name : Text} {timed : Bool}
    (hphase : w.client.phase = .waiting name timed) :
    w.grant.Inv ∧ w.grant.client = w.client ∧ w.grant.obtained = none ∧
      ∀ c ∈ w.client.socket, c ∈ w.grant.serverHolds := by
  have hnone : w.obtained = none := h.busy (by rw [hphase]; exact nofun)
  cases hsocket : w.client.socket with
  | none =>
    have hgrant : w.grant = w := by simp only [World.grant, hphase, hsocket]
    rw [hgrant]
    exact ⟨h, rfl, hnone, nofun⟩
  | some c =>
    by_cases hc : c ∈ w.serverHolds
    · have hgrant : w.grant = w := by simp only [World.grant, hphase, hsocket, if_pos hc]
      rw [hgrant]
      exact ⟨h, rfl, hnone, fun c' hc' => Option.some.inj hc' ▸ hc⟩
    · have hgrant : w.grant =
          { w with serverHolds := c :: w.serverHolds, acquired := w.acquired ++ [.server c] } := by
        simp only [World.grant, hphase, hsocket, if_neg hc]
      rw [hgrant]
      refine ⟨⟨h.busy, h.flagged, h.fallback, fun c' hc' => ?_, fun c' hc' => ?_, fun c' _ => ?_,
        fun ref => ?_⟩, rfl, hnone, fun c' hc' => Option.some.inj hc' ▸ mem_cons_self⟩
      · exact mem_cons_of_mem c (h.server c' hc')
      · rcases mem_cons.mp hc' with rfl | hc'
        · exact hsocket
        · exact h.connected c' hc'
      · left
        show IsWaiting w.client.phase
        rw [hphase]
        trivial
      · rw [count_append, count_singleton, if_neg (by simp), Nat.add_zero]
        exact h.balance ref

theorem Inv.receive (h : w.Inv) (callback : Bool) (command : Option Text) (late : Bool) :
    (w.receive callback command late).Inv := by
  cases hphase : w.client.phase with
  | idle | fallingBack =>
    rw [show w.receive callback command late = w by simp only [World.receive, hphase]]
    exact h
  | waiting name timed =>
    have hnone : w.obtained = none := h.busy (by rw [hphase]; exact nofun)
    have hclosed (phase : AcquirePhase) : (w.closeSocket.setPhase phase).Inv :=
      h.closed (fun ref => by rw [hnone]; exact nofun) rfl rfl rfl rfl
    simp only [World.receive, hphase]
    split_ifs
    · exact hclosed _
    · exact hclosed _
    · -- the server has locked the semaphore
      obtain ⟨hgrant, hclient, hobtained, hholds⟩ := h.grant hphase
      refine ⟨fun hbusy => absurd rfl hbusy, fun _ => rfl, fun ref href => ?_, fun c hc => ?_,
        hgrant.connected, fun c hc => ?_, fun ref => ?_⟩
      · obtain ⟨c, -, hc⟩ := Option.map_eq_some_iff.mp href
        cases hc
      · obtain ⟨c', hsocket, heq⟩ := Option.map_eq_some_iff.mp hc
        obtain rfl := Permit.server.inj heq
        exact hholds c' hsocket
      · right
        show w.client.socket.map Permit.server = some (.server c)
        rw [← hclient, hgrant.connected c hc, Option.map_some]
      · rw [if_neg]
        · exact hgrant.balance_of_none (by rw [hobtained]; exact nofun)
        · intro href
          obtain ⟨c, -, hc⟩ := Option.map_eq_some_iff.mp href
          cases hc
    · exact hclosed _
    · exact h
    · exact hclosed _

theorem Inv.tryFallback (h : w.Inv) (callback late : Bool) : (w.tryFallback callback late).Inv := by
  cases hphase : w.client.phase with
  | idle | waiting =>
    rw [show w.tryFallback callback late = w by simp only [World.tryFallback, hphase]]
    exact h
  | fallingBack name timed =>
    have hnone : w.obtained = none := h.busy (by rw [hphase]; exact nofun)
    have hholds : w.serverHolds = [] :=
      h.serverHolds_eq_nil (by rw [hphase]; exact id) fun c => by rw [hnone]; exact nofun
    have hbalance (ref : SemaphoreRef) :
        w.acquired.count (.fallback ref) = w.released.count (.fallback ref) :=
      h.balance_of_none (by rw [hnone]; exact nofun)
    simp only [World.tryFallback, hphase]
    split_ifs
    · exact inv_of_none hnone hholds hbalance
    · exact inv_of_none hnone hholds hbalance
    · exact inv_of_none hnone hholds hbalance
    · refine ⟨fun hbusy => absurd rfl hbusy, fun _ => rfl, fun ref href => ?_, fun c hc => ?_,
        fun c hc => ?_, fun c hc => ?_, fun ref => ?_⟩
      · exact congrArg some (Permit.fallback.inj (Option.some.inj href))
      · cases hc
      · have hmem : c ∈ w.serverHolds := hc
        rw [hholds] at hmem
        cases hmem
      · have hmem : c ∈ w.serverHolds := hc
        rw [hholds] at hmem
        cases hmem
      · show (w.acquired ++ [Permit.fallback (w.fallbacks.find name).1]).count (.fallback ref) =
          w.released.count (.fallback ref) +
            if some (Permit.fallback (w.fallbacks.find name).1) = some (.fallback ref) then 1 else 0
        rw [count_append, count_singleton, hbalance ref]
        simp only [beq_iff_eq, Option.some.injEq]

theorem Inv.release (h : w.Inv) (hidle : w.client.phase = .idle)
    (hown : w.client.fallbackSemaphore = none ∨ ∃ ref, w.obtained = some (.fallback ref)) :
    w.release.Inv ∧ w.release.serverHolds = [] ∧
      w.release.released = w.released ++ w.obtained.toList := by
  cases hsemaphore : w.client.fallbackSemaphore with
  | none =>
    have hfallback : ∀ ref, w.obtained ≠ some (.fallback ref) := fun ref href => by
      have hsome := h.fallback ref href
      rw [hsemaphore] at hsome
      cases hsome
    have hrelease : w.release = w.closeSocket.endHolding := by
      simp only [World.release, hidle, hsemaphore]
    rw [hrelease]
    refine ⟨h.closed hfallback rfl rfl rfl rfl, (h.closes hfallback).serverHolds, ?_⟩
    obtain ⟨connections, hreleased, hsubset, hall⟩ := (h.closes hfallback).released
    show w.closeSocket.released = _
    cases hobtained : w.obtained with
    | none =>
      have hholds : w.serverHolds = [] :=
        h.serverHolds_eq_nil (by rw [hidle]; exact id) fun c => by rw [hobtained]; exact nofun
      rw [hholds] at hsubset
      rw [hreleased, subset_nil.mp hsubset]
      rfl
    | some permit =>
      cases permit with
      | fallback ref => exact absurd hobtained (hfallback ref)
      | server c =>
        rw [hreleased, hall c hobtained]
        rfl
  | some ref =>
    rw [hsemaphore] at hown
    obtain ⟨ref', hobtained⟩ := hown.resolve_left nofun
    obtain rfl : ref = ref' := Option.some.inj (hsemaphore.symm.trans (h.fallback ref' hobtained))
    have hholds : w.serverHolds = [] :=
      h.serverHolds_eq_nil (by rw [hidle]; exact id) fun c => by rw [hobtained]; exact nofun
    simp only [World.release, hidle, hsemaphore]
    refine ⟨inv_of_none (if_pos hobtained) hholds fun other => ?_, hholds, ?_⟩
    · show w.acquired.count (.fallback other) =
        (w.released ++ [Permit.fallback ref]).count (.fallback other)
      rw [count_append, count_singleton, h.balance other, hobtained]
      simp only [beq_iff_eq, Option.some.injEq]
    · rw [hobtained]
      rfl

theorem Inv.failsafe (h : w.Inv) (sent : Bool) : (w.failsafe sent).Inv := by
  rw [World.failsafe]
  split
  next hfails =>
    refine h.closed (fun ref href => ?_) rfl rfl rfl rfl
    have hsome := h.fallback ref href
    rw [hfails.2.1] at hsome
    cases hsome
  · exact h

theorem Inv.step (h : w.Inv) (hown : w.RemembersItsOwn event) : (w.step event).Inv := by
  cases event with
  | acquire name timed connect => exact h.requestAcquire name timed connect
  | grant =>
    cases hphase : w.client.phase with
    | waiting name timed => exact (h.grant hphase).1
    | idle | fallingBack =>
      rw [show w.step .grant = w by simp only [World.step, World.grant, hphase]]
      exact h
  | receive callback command late => exact h.receive callback command late
  | tryFallback callback late => exact h.tryFallback callback late
  | release =>
    by_cases hidle : w.client.phase = .idle
    · exact (h.release hidle (hown rfl hidle)).1
    · have hbusy : w.step .release = w := by
        cases hphase : w.client.phase with
        | idle => exact absurd hphase hidle
        | waiting | fallingBack => simp only [World.step, World.release, hphase]
      rw [hbusy]
      exact h
  | cancelRequest => exact ⟨h.busy, h.flagged, h.fallback, h.server, h.connected, h.waits, h.balance⟩
  | failsafe sent => exact h.failsafe sent
  | other op => exact ⟨h.busy, h.flagged, h.fallback, h.server, h.connected, h.waits, h.balance⟩

/-! ## §3 Runs -/

/-- A release gives back exactly the permit that the last acquisition has obtained, and leaves no
permit with the server; and no more permits of a fallback semaphore have been given back than
taken. -/
def GivesBack (w : World) (event : Event) : Prop :=
  (event = .release → w.client.phase = .idle →
    (w.step event).released = w.released ++ w.obtained.toList ∧ (w.step event).serverHolds = []) ∧
  ∀ ref, (w.step event).released.count (.fallback ref) ≤
    (w.step event).acquired.count (.fallback ref)

theorem Inv.count_le (h : w.Inv) (ref : SemaphoreRef) :
    w.released.count (.fallback ref) ≤ w.acquired.count (.fallback ref) := by
  rw [h.balance ref]
  exact Nat.le_add_right _ _

theorem Inv.remembersItsOwn_iff (h : w.Inv) (event : Event) :
    w.RemembersItsOwn event ↔ w.GivesBack event := by
  constructor
  · intro hown
    refine ⟨fun hrelease hidle => ?_, (h.step hown).count_le⟩
    subst hrelease
    obtain ⟨-, hholds, hreleased⟩ := h.release hidle (hown rfl hidle)
    exact ⟨hreleased, hholds⟩
  · rintro ⟨hgives, -⟩ hrelease hidle
    subst hrelease
    cases hsemaphore : w.client.fallbackSemaphore with
    | none => exact Or.inl rfl
    | some ref =>
      -- the semaphore that is remembered is released
      right
      have hreleased : (w.step .release).released = w.released ++ [.fallback ref] := by
        simp only [World.step, World.release, hidle, hsemaphore]
        rfl
      have hobtained : w.obtained.toList = [.fallback ref] :=
        append_cancel_left ((hgives rfl hidle).1.symm.trans hreleased)
      exact ⟨ref, Option.toList_eq_singleton_iff.mp hobtained⟩

/-- In a run of a client, the releases match what was acquired exactly if each of them finds no
fallback semaphore remembered, or the one whose permit the client has. -/
theorem releases_match_iff (limits : List (Text × Nat)) (events : List Event) :
    Along step GivesBack (start limits) events ↔
      Along step RemembersItsOwn (start limits) events :=
  (along_iff_of_invariant Inv (fun _ _ h hown => h.step hown)
    (fun _ event h => h.remembersItsOwn_iff event) (inv_start limits) events).symm

/-- A permit of a fallback semaphore and its release, then a permit of the server. -/
def fallbackThenServer : List Event :=
  [.acquire ['x'] false .refused, .tryFallback false false, .release,
    .acquire ['x'] false .requested, .receive false (some (lockedWord ++ ['|'])) false]

/-- The permit of the server is kept, and the fallback semaphore is released a second time. -/
theorem server_permit_is_kept :
    let events := fallbackThenServer ++ [Event.release]
    let w : World := events.foldl step (start [(['x'], 1)])
    (¬ Along step GivesBack (start [(['x'], 1)]) events) ∧
      w.serverHolds = [1] ∧ w.acquired.count (.fallback (.defined ['x'])) = 1 ∧
      w.released.count (.fallback (.defined ['x'])) = 2 := by
  intro events w
  refine ⟨fun h => ?_, by decide, by decide, by decide⟩
  have hgives := ((along_append _ _ _ _).mp h).2.1.1 rfl rfl
  exact absurd hgives.2 (by decide)

end Ace3.NetworkSemaphore.World
