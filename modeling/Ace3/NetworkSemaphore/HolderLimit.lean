import Ace3.NetworkSemaphore.Server
import Ace3.Lib.Runs
import Mathlib.Data.Finset.Card

/-!
# Holders of a Network Semaphore

No more than `n` clients hold a semaphore object with `n` permits. For a configured name there is
one object. For an undefined name there is one as long as the object is only deleted while no client
waits for it or holds it; but `maintain_undefined_semaphores` looks at the count of permits that are
out, where a client that waits, or has not yet increased the count, is missing.
-/

namespace Ace3.NetworkSemaphore

open List Function
open Lib.Runs

theorem lookup_filter_notMem {α : Type*} (entries : List (Text × α)) (targets : List Text)
    (name : Text) : (entries.filter (·.1 ∉ targets)).lookup name =
      if name ∈ targets then none else entries.lookup name := by
  induction entries with
  | nil => simp
  | cons entry entries ih =>
    obtain ⟨key, value⟩ := entry
    simp only [decide_not] at ih ⊢
    by_cases hkey : key ∈ targets
    · simp only [filter_cons, hkey, decide_true, Bool.not_true, Bool.false_eq_true, if_false,
        ih]
      split
      · rfl
      next hname =>
        have hne : name ≠ key := fun heq => hname (heq ▸ hkey)
        rw [lookup_cons, beq_false_of_ne hne]
    · by_cases hname : name = key
      · simp [hkey, hname]
      · simp [hkey, ih, lookup_cons, beq_false_of_ne hname]

namespace NetworkSemaphoreServer

variable {Client : Type*} [DecidableEq Client] {s : NetworkSemaphoreServer Client} {c : Client}

/-! ## §1 What a step can do -/

/-- The semaphore that the thread of a client waits for or has a permit of. -/
def refers (s : NetworkSemaphoreServer Client) (c : Client) : Option SemaphoreRef :=
  (s.phase c).semaphore

/-- The semaphore whose permit the thread of a client has. -/
def holds (s : NetworkSemaphoreServer Client) (c : Client) : Option SemaphoreRef :=
  (s.phase c).held

def IsConfigured (s : NetworkSemaphoreServer Client) (name : Text) : Prop :=
  (s.capacityLimits.lookup name).isSome

/-- Where a thread can go on to by itself, without a new permit: it keeps what it holds, and waits
for nothing new but a configured semaphore. -/
structure Move (s : NetworkSemaphoreServer Client) (c : Client) (phase : ClientPhase) : Prop where
  held : phase.held = s.holds c
  semaphore : ∀ ref, phase.semaphore = some ref →
    s.refers c = some ref ∨ ∃ name, ref = .defined name ∧ s.IsConfigured name
  requesting : ∀ name, phase = .requesting name → ¬ s.IsConfigured name

inductive Effect (s : NetworkSemaphoreServer Client) (event : Event Client) :
    NetworkSemaphoreServer Client → Prop
  | stays : Effect s event s
  | moves {c : Client} {phase : ClientPhase} (hmove : s.Move c phase) :
      Effect s event (s.setPhase c phase)
  | finds {c : Client} {name : Text} {k : Nat} (hphase : s.phase c = .requesting name)
      (hlookup : s.undefinedSemaphores.lookup name = some k) :
      Effect s event (s.setPhase c (.waiting (.undefined k)))
  | adds {c : Client} {name : Text} (hphase : s.phase c = .requesting name)
      (hlookup : s.undefinedSemaphores.lookup name = none) :
      Effect s event
        ((s.addUndefinedSemaphore name 1).setPhase c (.waiting (.undefined s.created)))
  | acquires {c : Client} {ref : SemaphoreRef} (hphase : s.phase c = .waiting ref)
      (hvalue : (s.semaphores ref).value ≠ 0) :
      Effect s event
        ((s.setSemaphore ref { s.semaphores ref with value := (s.semaphores ref).value - 1 }
          ).setPhase c (.acquired ref))
  | counts {c : Client} {phase : ClientPhase} {ref : SemaphoreRef} {count : Int}
      (hmove : s.Move c phase) :
      Effect s event ((s.setSemaphore ref { s.semaphores ref with count := count }).setPhase c phase)
  | releases {c : Client} {ref : SemaphoreRef} (hphase : s.phase c = .leaving ref) :
      Effect s event
        ((s.setSemaphore ref { s.semaphores ref with value := (s.semaphores ref).value + 1 }
          ).setPhase c (.released ref))
  | locks {c : Client} {phase : ClientPhase} (hmove : s.Move c phase) :
      Effect s event ((s.takeLock c).setPhase c phase)
  | deletes {c : Client} {targets : List Text} (hevent : event = .deleteTargets c)
      (hphase : s.phase c = .inspecting [] targets) :
      Effect s event ((s.deleteUndefined targets).setPhase c .disconnected)

omit [DecidableEq Client] in
theorem move_of_eq {phase : ClientPhase} (hheld : phase.held = s.holds c)
    (hsemaphore : phase.semaphore = none ∨ phase.semaphore = s.refers c)
    (hrequesting : ∀ name, phase ≠ .requesting name) : s.Move c phase where
  held := hheld
  semaphore := by
    intro ref href
    rcases hsemaphore with hnone | heq
    · exact absurd (hnone.symm.trans href) (Option.some_ne_none ref).symm
    · exact .inl (heq.symm.trans href)
  requesting := fun name h => absurd h (hrequesting name)

theorem effect_step (s : NetworkSemaphoreServer Client) (event : Event Client) :
    Effect s event (s.step event) := by
  cases event with
  | receive c command =>
    cases hphase : s.phase c with
    | connected =>
      have hheld : s.holds c = none := by rw [holds, hphase]; rfl
      simp only [step, hphase]
      split
      next => exact .moves (move_of_eq hheld.symm (.inl rfl) nofun)
      next name _ =>
        split
        next hconfigured =>
          refine .moves ⟨hheld.symm, ?_, nofun⟩
          intro ref href
          exact .inr ⟨name, (Option.some.inj href).symm, hconfigured⟩
        next hconfigured =>
          refine .moves ⟨hheld.symm, nofun, ?_⟩
          rintro _ ⟨⟩
          exact hconfigured
    | holding ref =>
      have hheld : s.holds c = some ref := by rw [holds, hphase]; rfl
      have hrefers : s.refers c = some ref := by rw [refers, hphase]; rfl
      simp only [step, hphase]
      split
      · exact .stays
      · exact .moves (move_of_eq hheld.symm (.inr hrefers.symm) nofun)
    | _ =>
      simp only [step, hphase]
      exact .stays
  | lookUp c =>
    cases hphase : s.phase c with
    | requesting name =>
      cases hlock : s.undefinedSemaphoresLock with
      | some _ =>
        simp only [step, hphase, hlock]
        exact .stays
      | none =>
        simp only [step, hphase, hlock]
        split
        next k hlookup => exact .finds hphase hlookup
        next hlookup => exact .adds hphase hlookup
    | _ =>
      simp only [step, hphase]
      exact .stays
  | acquire c =>
    cases hphase : s.phase c with
    | waiting ref =>
      simp only [step, hphase]
      split
      · exact .stays
      next hvalue => exact .acquires hphase hvalue
    | _ =>
      simp only [step, hphase]
      exact .stays
  | heartbeat c sent =>
    cases hphase : s.phase c with
    | waiting ref =>
      have hheld : s.holds c = none := by rw [holds, hphase]; rfl
      simp only [step, hphase]
      split
      · exact .stays
      · exact .moves (move_of_eq hheld.symm (.inl rfl) nofun)
    | _ =>
      simp only [step, hphase]
      exact .stays
  | increaseCount c =>
    cases hphase : s.phase c with
    | acquired ref =>
      have hheld : s.holds c = some ref := by rw [holds, hphase]; rfl
      have hrefers : s.refers c = some ref := by rw [refers, hphase]; rfl
      simp only [step, hphase]
      exact .counts (move_of_eq hheld.symm (.inr hrefers.symm) nofun)
    | _ =>
      simp only [step, hphase]
      exact .stays
  | sendLocked c sent =>
    cases hphase : s.phase c with
    | locking ref =>
      have hheld : s.holds c = some ref := by rw [holds, hphase]; rfl
      have hrefers : s.refers c = some ref := by rw [refers, hphase]; rfl
      simp only [step, hphase]
      split
      · exact .moves (move_of_eq hheld.symm (.inr hrefers.symm) nofun)
      · exact .moves (move_of_eq hheld.symm (.inr hrefers.symm) nofun)
    | _ =>
      simp only [step, hphase]
      exact .stays
  | release c =>
    cases hphase : s.phase c with
    | leaving ref =>
      simp only [step, hphase]
      exact .releases hphase
    | _ =>
      simp only [step, hphase]
      exact .stays
  | decreaseCount c =>
    cases hphase : s.phase c with
    | released ref =>
      have hheld : s.holds c = none := by rw [holds, hphase]; rfl
      simp only [step, hphase]
      exact .counts (move_of_eq hheld.symm (.inl rfl) nofun)
    | _ =>
      simp only [step, hphase]
      exact .stays
  | lockTable c =>
    cases hphase : s.phase c with
    | maintaining =>
      have hheld : s.holds c = none := by rw [holds, hphase]; rfl
      cases hlock : s.undefinedSemaphoresLock with
      | some _ =>
        simp only [step, hphase, hlock]
        exact .stays
      | none =>
        simp only [step, hphase, hlock]
        exact .locks (move_of_eq hheld.symm (.inl rfl) nofun)
    | _ =>
      simp only [step, hphase]
      exact .stays
  | inspect c =>
    cases hphase : s.phase c with
    | inspecting remaining targets =>
      have hheld : s.holds c = none := by rw [holds, hphase]; rfl
      cases remaining with
      | nil =>
        simp only [step, hphase]
        exact .stays
      | cons name remaining =>
        simp only [step, hphase]
        exact .moves (move_of_eq hheld.symm (.inl rfl) nofun)
    | _ =>
      simp only [step, hphase]
      exact .stays
  | deleteTargets c =>
    cases hphase : s.phase c with
    | inspecting remaining targets =>
      cases remaining with
      | nil =>
        simp only [step, hphase]
        exact .deletes rfl hphase
      | cons _ _ =>
        simp only [step, hphase]
        exact .stays
    | _ =>
      simp only [step, hphase]
      exact .stays

/-! ## §2 The permits balance -/

@[simp] theorem holds_setPhase (phase : ClientPhase) (c' : Client) :
    (s.setPhase c phase).holds c' = if c' = c then phase.held else s.holds c' := by
  unfold holds setPhase
  simp only [update_apply]
  split <;> rfl

@[simp] theorem refers_setPhase (phase : ClientPhase) (c' : Client) :
    (s.setPhase c phase).refers c' = if c' = c then phase.semaphore else s.refers c' := by
  unfold refers setPhase
  simp only [update_apply]
  split <;> rfl

/-- The permits that a semaphore object was made with. -/
def capacity (s : NetworkSemaphoreServer Client) : SemaphoreRef → Nat
  | .defined name => (s.capacityLimits.lookup name).getD 0
  | .undefined k => if k < s.created then 1 else 0

/-- The permits of a semaphore object are left in it or with the threads that have one. -/
def BalancedAt (s : NetworkSemaphoreServer Client) (ref : SemaphoreRef) : Prop :=
  ∃ holders : Finset Client, (∀ c, c ∈ holders ↔ s.holds c = some ref) ∧
    (s.semaphores ref).value + holders.card = s.capacity ref

omit [DecidableEq Client] in
theorem BalancedAt.congr {s' : NetworkSemaphoreServer Client} {ref : SemaphoreRef}
    (h : s.BalancedAt ref) (hholds : ∀ c, s'.holds c = some ref ↔ s.holds c = some ref)
    (hvalue : (s'.semaphores ref).value = (s.semaphores ref).value)
    (hcapacity : s'.capacity ref = s.capacity ref) : s'.BalancedAt ref := by
  obtain ⟨holders, hmem, hsum⟩ := h
  refine ⟨holders, fun c => (hmem c).trans (hholds c).symm, ?_⟩
  rw [hvalue, hcapacity]
  exact hsum

omit [DecidableEq Client] in
theorem BalancedAt.of_eq {s' : NetworkSemaphoreServer Client} {ref : SemaphoreRef}
    (h : s.BalancedAt ref) (hholds : ∀ c, s'.holds c = s.holds c)
    (hvalue : (s'.semaphores ref).value = (s.semaphores ref).value)
    (hcapacity : s'.capacity ref = s.capacity ref) : s'.BalancedAt ref :=
  h.congr (fun c => by rw [hholds]) hvalue hcapacity

theorem holds_move {changed : NetworkSemaphoreServer Client} (hchanged : changed.phase = s.phase)
    {phase : ClientPhase} (hheld : s.holds c = phase.held) (c' : Client) :
    (changed.setPhase c phase).holds c' = s.holds c' := by
  rw [holds_setPhase]
  split
  next heq => rw [← hheld, heq]
  next => rw [holds, hchanged, holds]

theorem Effect.balanced {event : Event Client} {s' : NetworkSemaphoreServer Client}
    (h : Effect s event s') (hs : ∀ ref, s.BalancedAt ref) (ref : SemaphoreRef) :
    s'.BalancedAt ref := by
  cases h with
  | stays => exact hs ref
  | moves hmove => exact (hs ref).of_eq (holds_move rfl hmove.held.symm) rfl rfl
  | @finds c _ _ hphase _ =>
    have hheld : s.holds c = none := by rw [holds, hphase]; rfl
    exact (hs ref).of_eq (holds_move rfl hheld) rfl rfl
  | locks hmove => exact (hs ref).of_eq (holds_move rfl hmove.held.symm) rfl rfl
  | @deletes c _ _ hphase =>
    have hheld : s.holds c = none := by rw [holds, hphase]; rfl
    exact (hs ref).of_eq (holds_move rfl hheld) rfl rfl
  | counts hmove =>
    refine (hs ref).of_eq (holds_move rfl hmove.held.symm) ?_ rfl
    simp only [setPhase, setSemaphore, update_apply]
    split
    next heq => rw [heq]
    next => rfl
  | @adds c name hphase _ =>
    have hheld : s.holds c = none := by rw [holds, hphase]; rfl
    have hholds (c' : Client) : ((s.addUndefinedSemaphore name 1).setPhase c
        (.waiting (.undefined s.created))).holds c' = s.holds c' := holds_move rfl hheld c'
    by_cases href : ref = .undefined s.created
    · -- nobody had a permit of an object that was not made yet
      subst href
      obtain ⟨holders, hmem, hsum⟩ := hs (.undefined s.created)
      have hempty : holders.card = 0 := by
        simp only [capacity, lt_irrefl, if_false] at hsum
        omega
      refine ⟨holders, fun c' => by rw [hholds]; exact hmem c', ?_⟩
      simp [hempty, capacity, setPhase, addUndefinedSemaphore, setSemaphore]
    · refine (hs ref).of_eq hholds ?_ ?_
      · simp [setPhase, addUndefinedSemaphore, setSemaphore, update_of_ne href]
      · cases ref with
        | defined name' => rfl
        | undefined k =>
          have hne : k ≠ s.created := fun heq => href (by rw [heq])
          show (if k < s.created + 1 then 1 else 0) = if k < s.created then 1 else 0
          exact if_congr (by omega) rfl rfl
  | @acquires c taken hphase hvalue =>
    have hheld : s.holds c = none := by rw [holds, hphase]; rfl
    by_cases href : ref = taken
    · subst href
      obtain ⟨holders, hmem, hsum⟩ := hs ref
      have hnot : c ∉ holders := by
        rw [hmem, hheld]
        exact nofun
      refine ⟨insert c holders, fun c' => ?_, ?_⟩
      · rw [Finset.mem_insert, hmem, holds_setPhase]
        by_cases hc : c' = c
        · simp [hc, ClientPhase.held]
        · simp only [hc, false_or, if_false]
          rfl
      · rw [Finset.card_insert_of_notMem hnot]
        show (Function.update s.semaphores ref _ ref).value + _ = s.capacity ref
        rw [update_self]
        simp only
        omega
    · refine (hs ref).congr (fun c' => ?_) ?_ rfl
      · rw [holds_setPhase]
        by_cases hc : c' = c
        · simp [hc, ClientPhase.held, hheld, Ne.symm href]
        · simp only [hc, if_false]
          rfl
      · simp [setPhase, setSemaphore, update_of_ne href]
  | @releases c given hphase =>
    have hheld : s.holds c = some given := by rw [holds, hphase]; rfl
    by_cases href : ref = given
    · subst href
      obtain ⟨holders, hmem, hsum⟩ := hs ref
      have hin : c ∈ holders := (hmem c).mpr hheld
      refine ⟨holders.erase c, fun c' => ?_, ?_⟩
      · rw [Finset.mem_erase, hmem, holds_setPhase]
        by_cases hc : c' = c
        · simp [hc, ClientPhase.held]
        · simp only [hc, ne_eq, not_false_eq_true, true_and, if_false]
          rfl
      · have hcard := Finset.card_erase_add_one hin
        show (Function.update s.semaphores ref _ ref).value + _ = s.capacity ref
        rw [update_self]
        simp only
        omega
    · refine (hs ref).congr (fun c' => ?_) ?_ rfl
      · rw [holds_setPhase]
        by_cases hc : c' = c
        · simp [hc, ClientPhase.held, hheld, Ne.symm href]
        · simp only [hc, if_false]
          rfl
      · simp [setPhase, setSemaphore, update_of_ne href]

/-! ## §3 What names lead to -/

def nameOf (s : NetworkSemaphoreServer Client) (ref : SemaphoreRef) : Text :=
  (s.semaphores ref).semaphoreName

section Effect

variable {event : Event Client} {s' : NetworkSemaphoreServer Client}

theorem Effect.capacityLimits_eq (h : Effect s event s') :
    s'.capacityLimits = s.capacityLimits := by
  cases h <;> rfl

omit [DecidableEq Client] in
theorem nameOf_setSemaphore {ref : SemaphoreRef} {semaphore : LoggingSemaphore}
    (hname : semaphore.semaphoreName = s.nameOf ref) (other : SemaphoreRef) :
    (s.setSemaphore ref semaphore).nameOf other = s.nameOf other := by
  simp only [nameOf, setSemaphore, update_apply]
  split
  next heq => rw [hname, heq, nameOf]
  next => rfl

theorem Effect.nameOf_eq (h : Effect s event s') {ref : SemaphoreRef}
    (href : ref ≠ .undefined s.created) : s'.nameOf ref = s.nameOf ref := by
  -- permits and counts are assigned under the name that was there
  have hkept (other : SemaphoreRef) (value : Nat) (count : Int) :
      (s.setSemaphore other ⟨s.nameOf other, value, count⟩).nameOf ref = s.nameOf ref := by
    apply nameOf_setSemaphore
    rfl
  cases h with
  | adds _ _ => simp [nameOf, setPhase, addUndefinedSemaphore, setSemaphore, href]
  | acquires _ _ | counts _ | releases _ => exact hkept _ _ _
  | _ => rfl

theorem Effect.created_le (h : Effect s event s') : s.created ≤ s'.created := by
  cases h with
  | adds _ _ => exact Nat.le_succ _
  | _ => exact le_rfl

/-- An entry of the table was there before, or leads to an object just made for its name. -/
theorem Effect.lookup (h : Effect s event s') {name : Text} {k : Nat}
    (hlookup : s'.undefinedSemaphores.lookup name = some k) :
    s.undefinedSemaphores.lookup name = some k ∨
      k = s.created ∧ s'.created = s.created + 1 ∧ s'.nameOf (.undefined k) = name ∧
        ∃ c, s.phase c = .requesting name := by
  cases h with
  | @adds c name' hphase _ =>
    have happend : (s.undefinedSemaphores ++ [(name', s.created)]).lookup name = some k := hlookup
    rw [lookup_append, Option.or_eq_some_iff] at happend
    rcases happend with hold | ⟨-, hnew⟩
    · exact .inl hold
    · by_cases hname : name = name'
      · subst hname
        obtain rfl : s.created = k := by simpa using hnew
        refine .inr ⟨rfl, rfl, ?_, c, hphase⟩
        simp [nameOf, setPhase, addUndefinedSemaphore, setSemaphore]
      · simp [lookup_cons, beq_false_of_ne hname] at hnew
  | @deletes c targets _ _ =>
    refine .inl ?_
    have hfilter : (s.undefinedSemaphores.filter (·.1 ∉ targets)).lookup name = some k := hlookup
    rw [lookup_filter_notMem] at hfilter
    split at hfilter
    · cases hfilter
    · exact hfilter
  | _ => exact .inl hlookup

/-- What a thread refers to it referred to before, or it is a configured object, or the table
leads to it. -/
theorem Effect.refers_cases (h : Effect s event s') {c : Client} {ref : SemaphoreRef}
    (href : s'.refers c = some ref) :
    s.refers c = some ref ∨ (∃ name, ref = .defined name ∧ s.IsConfigured name) ∨
      ∃ name k, ref = .undefined k ∧ s'.undefinedSemaphores.lookup name = some k := by
  -- the thread of another client stands where it stood
  have hother {changed : NetworkSemaphoreServer Client} {c' : Client} {phase : ClientPhase}
      (hchanged : changed.phase = s.phase)
      (hphase : (changed.setPhase c' phase).refers c = some ref)
      (hown : c = c' → phase.semaphore = some ref → s.refers c = some ref ∨
        (∃ name, ref = .defined name ∧ s.IsConfigured name) ∨
        ∃ name k, ref = .undefined k ∧ s'.undefinedSemaphores.lookup name = some k) :
      s.refers c = some ref ∨ (∃ name, ref = .defined name ∧ s.IsConfigured name) ∨
        ∃ name k, ref = .undefined k ∧ s'.undefinedSemaphores.lookup name = some k := by
    rw [refers_setPhase] at hphase
    split at hphase
    next heq => exact hown heq hphase
    next =>
      refine .inl ?_
      rw [refers, ← hchanged]
      exact hphase
  cases h with
  | stays => exact .inl href
  | moves hmove | counts hmove | locks hmove =>
    refine hother rfl href fun hc hphase => ?_
    rcases hmove.semaphore ref hphase with hsame | hnew
    · exact .inl (hc ▸ hsame)
    · exact .inr (.inl hnew)
  | @finds c' name k _ hlookup =>
    refine hother rfl href fun _ hphase => ?_
    exact .inr (.inr ⟨name, k, (Option.some.inj hphase).symm, hlookup⟩)
  | @adds c' name _ hlookup =>
    refine hother rfl href fun _ hphase => .inr (.inr ⟨name, s.created,
      (Option.some.inj hphase).symm, ?_⟩)
    show (s.undefinedSemaphores ++ [(name, s.created)]).lookup name = some s.created
    simp [lookup_append, hlookup]
  | acquires hphase _ =>
    refine hother rfl href fun hc hown => .inl ?_
    rw [hc, refers, hphase]
    exact hown
  | releases _ =>
    exact hother rfl href fun _ hown =>
      absurd hown (by simp [ClientPhase.semaphore, ClientPhase.held])
  | deletes _ _ =>
    exact hother rfl href fun _ hown =>
      absurd hown (by simp [ClientPhase.semaphore, ClientPhase.held])

theorem Effect.requesting (h : Effect s event s') {c : Client} {name : Text}
    (hphase : s'.phase c = .requesting name) :
    s.phase c = .requesting name ∨ ¬ s.IsConfigured name := by
  have hother {changed : NetworkSemaphoreServer Client} {c' : Client} {phase : ClientPhase}
      (hchanged : changed.phase = s.phase)
      (h : (changed.setPhase c' phase).phase c = .requesting name)
      (hown : phase = .requesting name → ¬ s.IsConfigured name) :
      s.phase c = .requesting name ∨ ¬ s.IsConfigured name := by
    simp only [setPhase, update_apply] at h
    split at h
    next => exact .inr (hown h)
    next => exact .inl (hchanged ▸ h)
  cases h with
  | stays => exact .inl hphase
  | moves hmove | counts hmove | locks hmove => exact hother rfl hphase (hmove.requesting name)
  | _ => exact hother rfl hphase nofun

end Effect

structure Named (s : NetworkSemaphoreServer Client) : Prop where
  definedName : ∀ name, s.nameOf (.defined name) = name
  configured : ∀ c name, s.refers c = some (.defined name) → s.IsConfigured name
  requesting : ∀ c name, s.phase c = .requesting name → ¬ s.IsConfigured name
  undefinedName : ∀ k < s.created, ¬ s.IsConfigured (s.nameOf (.undefined k))
  issued : ∀ c k, s.refers c = some (.undefined k) → k < s.created
  table : ∀ name k, s.undefinedSemaphores.lookup name = some k →
    k < s.created ∧ s.nameOf (.undefined k) = name

section Step

variable {event : Event Client} {s' : NetworkSemaphoreServer Client}

theorem Effect.isConfigured_iff (h : Effect s event s') (name : Text) :
    s'.IsConfigured name ↔ s.IsConfigured name := by
  rw [IsConfigured, h.capacityLimits_eq, IsConfigured]

theorem Effect.table (h : Effect s event s') (hs : s.Named) {name : Text} {k : Nat}
    (hlookup : s'.undefinedSemaphores.lookup name = some k) :
    k < s'.created ∧ s'.nameOf (.undefined k) = name := by
  rcases h.lookup hlookup with hold | ⟨rfl, hcreated, hname, -⟩
  · obtain ⟨hlt, hname⟩ := hs.table name k hold
    refine ⟨hlt.trans_le h.created_le, ?_⟩
    rw [h.nameOf_eq (by simpa using hlt.ne), hname]
  · exact ⟨by omega, hname⟩

theorem Effect.named (h : Effect s event s') (hs : s.Named) : s'.Named where
  definedName := by
    intro name
    have hne : SemaphoreRef.defined name ≠ .undefined s.created := nofun
    rw [h.nameOf_eq hne, hs.definedName]
  configured := by
    intro c name href
    rw [h.isConfigured_iff]
    rcases h.refers_cases href with hold | ⟨_, ⟨⟩, hconfigured⟩ | ⟨_, _, ⟨⟩, _⟩
    · exact hs.configured c name hold
    · exact hconfigured
  requesting := by
    intro c name hphase
    rw [h.isConfigured_iff]
    exact (h.requesting hphase).elim (hs.requesting c name) id
  undefinedName := by
    intro k hk
    rw [h.isConfigured_iff]
    by_cases hold : k < s.created
    · rw [h.nameOf_eq (by simpa using hold.ne)]
      exact hs.undefinedName k hold
    · -- the object was just made, for a name that a client asked for
      cases h with
      | @adds c name hphase _ =>
        have hk : k < s.created + 1 := hk
        obtain rfl : k = s.created := by omega
        have hname : ((s.addUndefinedSemaphore name 1).setPhase c
            (.waiting (.undefined s.created))).nameOf (.undefined s.created) = name := by
          simp [nameOf, setPhase, addUndefinedSemaphore, setSemaphore]
        rw [hname]
        exact hs.requesting c name hphase
      | _ => exact absurd hk hold
  issued := by
    intro c k href
    rcases h.refers_cases href with hold | ⟨_, ⟨⟩, _⟩ | ⟨name, _, ⟨⟩, hlookup⟩
    · exact (hs.issued c k hold).trans_le h.created_le
    · exact (h.table hs hlookup).1
  table := fun _ _ hlookup => h.table hs hlookup

/-- A client refers to an undefined semaphore only as long as the table leads to it. -/
def Tracked (s : NetworkSemaphoreServer Client) : Prop :=
  ∀ c k, s.refers c = some (.undefined k) →
    s.undefinedSemaphores.lookup (s.nameOf (.undefined k)) = some k

def DeletesUnused (s : NetworkSemaphoreServer Client) (event : Event Client) : Prop :=
  ∀ c targets, event = .deleteTargets c → s.phase c = .inspecting [] targets →
    ∀ name ∈ targets, ∀ k, s.undefinedSemaphores.lookup name = some k →
      ∀ c', s.refers c' ≠ some (.undefined k)

theorem Effect.tracked (h : Effect s event s') (hs : s.Named) (htracked : s.Tracked)
    (hunused : s.DeletesUnused event) : s'.Tracked := by
  intro c k href
  rcases h.refers_cases href with hold | ⟨_, ⟨⟩, _⟩ | ⟨name, _, ⟨⟩, hlookup⟩
  · have hlookup := htracked c k hold
    have hlt := hs.issued c k hold
    rw [h.nameOf_eq (by simpa using hlt.ne)]
    cases h with
    | adds _ _ =>
      show (s.undefinedSemaphores ++ _).lookup _ = some k
      rw [lookup_append, hlookup]
      rfl
    | @deletes c' targets hevent hphase =>
      show (s.undefinedSemaphores.filter (·.1 ∉ targets)).lookup _ = some k
      rw [lookup_filter_notMem, if_neg, hlookup]
      exact fun htarget => hunused c' targets hevent hphase _ htarget k hlookup c hold
    | _ => exact hlookup
  · rw [(h.table hs hlookup).2]
    exact hlookup

end Step

/-! ## §4 The limit -/

def limit (limits : List (Text × Nat)) (name : Text) : Nat :=
  (limits.lookup name).getD 1

/-- No more than `n` clients have a permit of a semaphore with this name. -/
def AtMost (s : NetworkSemaphoreServer Client) (name : Text) (n : Nat) : Prop :=
  ∀ holders : Finset Client, (∀ c ∈ holders, ∃ ref, s.holds c = some ref ∧ s.nameOf ref = name) →
    holders.card ≤ n

/-- What holds in every run that starts with these limits. -/
structure Inv (limits : List (Text × Nat)) (s : NetworkSemaphoreServer Client) : Prop where
  capacityLimits : s.capacityLimits = limits
  balanced : ∀ ref, s.BalancedAt ref
  named : s.Named

omit [DecidableEq Client] in
theorem inv_start (limits : List (Text × Nat)) :
    (start limits : NetworkSemaphoreServer Client).Inv limits where
  capacityLimits := rfl
  balanced := by
    intro ref
    refine ⟨∅, fun c => by simp [holds, start, ClientPhase.held], ?_⟩
    cases ref <;> simp [start, capacity]
  named :=
    { definedName := fun _ => rfl
      configured := fun _ _ => nofun
      requesting := fun _ _ => nofun
      undefinedName := fun _ => nofun
      issued := fun _ _ => nofun
      table := fun _ _ => nofun }

theorem Inv.step {limits : List (Text × Nat)} (h : s.Inv limits) (event : Event Client) :
    (s.step event).Inv limits where
  capacityLimits := (effect_step s event).capacityLimits_eq.trans h.capacityLimits
  balanced := (effect_step s event).balanced h.balanced
  named := (effect_step s event).named h.named

omit [DecidableEq Client] in
theorem refers_of_holds {ref : SemaphoreRef} (h : s.holds c = some ref) :
    s.refers c = some ref := by
  unfold holds refers at *
  cases hphase : s.phase c <;> simp_all [ClientPhase.semaphore, ClientPhase.held]

omit [DecidableEq Client] in
theorem atMost_of_unique {name : Text} {ref : SemaphoreRef} (hbalanced : s.BalancedAt ref)
    (hunique : ∀ c ref', s.holds c = some ref' → s.nameOf ref' = name → ref' = ref) :
    s.AtMost name (s.capacity ref) := by
  intro holders hholders
  obtain ⟨all, hmem, hsum⟩ := hbalanced
  have hsub : holders ⊆ all := by
    intro c hc
    obtain ⟨ref', hholds, hname⟩ := hholders c hc
    rw [hmem, hholds, hunique c ref' hholds hname]
  have hcard := Finset.card_le_card hsub
  omega

omit [DecidableEq Client] in
theorem Inv.atMost_configured {limits : List (Text × Nat)} (h : s.Inv limits) {name : Text}
    (hconfigured : (limits.lookup name).isSome) : s.AtMost name (limit limits name) := by
  obtain ⟨n, hn⟩ := Option.isSome_iff_exists.mp hconfigured
  have hcapacity : limit limits name = s.capacity (.defined name) := by
    simp [limit, capacity, h.capacityLimits, hn]
  rw [hcapacity]
  refine atMost_of_unique (h.balanced _) ?_
  intro c ref hholds hname
  cases ref with
  | defined name' => rw [← hname, h.named.definedName]
  | undefined k =>
    -- undefined semaphores have other names
    have hk := h.named.issued c k (refers_of_holds hholds)
    refine absurd ?_ (h.named.undefinedName k hk)
    rw [hname, IsConfigured, h.capacityLimits]
    exact hconfigured

omit [DecidableEq Client] in
/-- At most one client has a permit of an undefined semaphore while the objects are tracked. -/
theorem Inv.atMost_tracked {limits : List (Text × Nat)} (h : s.Inv limits) (htracked : s.Tracked)
    (name : Text) : s.AtMost name (limit limits name) := by
  by_cases hconfigured : (limits.lookup name).isSome
  · exact h.atMost_configured hconfigured
  · have hlimit : limit limits name = 1 := by
      simp [limit, Option.not_isSome_iff_eq_none.mp hconfigured]
    have hundefined {c : Client} {ref : SemaphoreRef} (hholds : s.holds c = some ref)
        (hname : s.nameOf ref = name) :
        ∃ k, ref = .undefined k ∧ s.undefinedSemaphores.lookup name = some k := by
      cases ref with
      | defined name' =>
        have hown := h.named.configured c name' (refers_of_holds hholds)
        rw [IsConfigured, h.capacityLimits, ← h.named.definedName name', hname] at hown
        exact absurd hown hconfigured
      | undefined k => exact ⟨k, rfl, hname ▸ htracked c k (refers_of_holds hholds)⟩
    rw [hlimit]
    cases hlookup : s.undefinedSemaphores.lookup name with
    | none =>
      -- nobody has a permit
      intro holders hholders
      have hempty : holders = ∅ := by
        refine Finset.eq_empty_of_forall_notMem fun c hc => ?_
        obtain ⟨ref, hholds, hname⟩ := hholders c hc
        obtain ⟨k, -, hk⟩ := hundefined hholds hname
        rw [hlookup] at hk
        cases hk
      simp [hempty]
    | some k =>
      have hcapacity : s.capacity (.undefined k) = 1 := if_pos (h.named.table name k hlookup).1
      rw [← hcapacity]
      refine atMost_of_unique (h.balanced _) ?_
      intro c ref hholds hname
      obtain ⟨k', rfl, hk'⟩ := hundefined hholds hname
      obtain rfl := Option.some.inj (hk'.symm.trans hlookup)
      rfl

/-- After every run at most as many clients as its limit have a permit of a configured semaphore.
If the semaphores deleted on the way were those no client referred to, that is so for every name,
with the limit one for the undefined ones. -/
theorem holders_within_limit (limits : List (Text × Nat)) (events : List (Event Client)) :
    (∀ name, (limits.lookup name).isSome →
        (events.foldl step (start limits)).AtMost name (limit limits name)) ∧
      (Along step DeletesUnused (start limits) events →
        ∀ name, (events.foldl step (start limits)).AtMost name (limit limits name)) := by
  constructor
  · intro name hconfigured
    have hinv : (events.foldl step (start limits)).Inv limits :=
      List.foldlRecOn events step (inv_start limits) fun _ h event _ => h.step event
    exact hinv.atMost_configured hconfigured
  · intro hunused name
    have hinv : (events.foldl step (start limits)).Inv limits ∧
        (events.foldl step (start limits)).Tracked := by
      refine hunused.invariant (fun s => s.Inv limits ∧ s.Tracked) ?_ ⟨inv_start limits, nofun⟩
      intro s event hs hdeletes
      exact ⟨hs.1.step event, (effect_step s event).tracked hs.1.named hs.2 hdeletes⟩
    exact hinv.1.atMost_tracked hinv.2 name

/-- What a client does to get the undefined semaphore `x`. -/
def acquireX (c : Client) : List (Event Client) :=
  [.receive c (some (acquireWord ++ ['x', '|'])), .lookUp c, .acquire c, .increaseCount c,
    .sendLocked c true]

/-- What a client does when it gives its semaphore back. -/
def releaseX (c : Client) : List (Event Client) :=
  [.receive c (some (releaseWord ++ ['|'])), .release c, .decreaseCount c, .lockTable c, .inspect c,
    .deleteTargets c]

/-- Client 1 asks for the semaphore that client 0 holds, and waits for it while client 0 gives it
back and cleans up; client 2 comes afterwards. -/
def cleanedUpUnderWaiter : List (Event Nat) :=
  acquireX 0 ++ (acquireX 1).take 3 ++ releaseX 0 ++ (acquireX 1).drop 2 ++ acquireX 2

/-- Clients 1 and 2 then hold the semaphore `x`, of which there is one. -/
theorem two_hold_undefined :
    ¬ (cleanedUpUnderWaiter.foldl step (start [])).AtMost ['x'] (limit [] ['x']) := by
  intro h
  have hholders := h {1, 2} (by
    intro c hc
    have hc : c = 1 ∨ c = 2 := by simpa using hc
    rcases hc with rfl | rfl
    · exact ⟨.undefined 0, by decide, by decide⟩
    · exact ⟨.undefined 1, by decide, by decide⟩)
  exact absurd hholders (by decide)

/-- A client that comes back when it has cleaned up is the only one. -/
theorem one_holds_undefined :
    ((acquireX () ++ releaseX () ++ acquireX ()).foldl step (start [])).AtMost ['x'] 1 := by
  refine (holders_within_limit [] (acquireX () ++ releaseX () ++ acquireX ())).2 ?_ ['x']
  have hquiet {s : NetworkSemaphoreServer Unit} {event : Event Unit}
      (h : ∀ c, event ≠ .deleteTargets c) : s.DeletesUnused event :=
    fun c _ hevent => absurd hevent (h c)
  refine ⟨hquiet nofun, hquiet nofun, hquiet nofun, hquiet nofun, hquiet nofun, hquiet nofun,
    hquiet nofun, hquiet nofun, hquiet nofun, hquiet nofun, ?_, hquiet nofun, hquiet nofun,
    hquiet nofun, hquiet nofun, hquiet nofun, trivial⟩
  -- it refers to nothing when it deletes
  rintro _ _ _ _ _ _ k _ ⟨⟩
  exact nofun

/-! ## §5 No permit is lost -/

/-- After every run the permits of each semaphore are left in it or with the clients that hold it,
and a client that waits for it gets it exactly while fewer clients hold it than it has permits. -/
theorem acquires_iff_permit_left (limits : List (Text × Nat)) (events : List (Event Client))
    (ref : SemaphoreRef) :
    let s := events.foldl step (start limits)
    ∃ holders : Finset Client, (∀ c, c ∈ holders ↔ s.holds c = some ref) ∧
      (s.semaphores ref).value + holders.card = s.capacity ref ∧
      ∀ c, s.phase c = .waiting ref →
        ((s.step (.acquire c)).holds c = some ref ↔ holders.card < s.capacity ref) := by
  intro s
  have hinv : s.Inv limits :=
    List.foldlRecOn events step (inv_start limits) fun _ h event _ => h.step event
  obtain ⟨holders, hmem, hsum⟩ := hinv.balanced ref
  refine ⟨holders, hmem, hsum, fun c hwaits => ?_⟩
  have hholds : s.holds c = none := by rw [holds, hwaits]; rfl
  simp only [step, hwaits]
  split
  next hvalue =>
    rw [hholds]
    simp only [reduceCtorEq, false_iff]
    omega
  next hvalue =>
    rw [holds_setPhase, if_pos rfl]
    have hleft : holders.card < s.capacity ref := by omega
    exact iff_of_true rfl hleft

end NetworkSemaphoreServer

end Ace3.NetworkSemaphore
