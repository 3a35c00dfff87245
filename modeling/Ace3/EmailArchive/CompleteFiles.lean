import Ace3.EmailArchive.LocalArchive

/-!
# Complete Files

What the operations of `archive_email_file` do to the files of one hash.
-/

namespace Ace3.EmailArchive

open Crypto

variable {Hash : Type*} {codec : Codec Hash}

/-! ## §1 Sound operations -/

/-- The target file yields an email that has the hash. -/
def Slot.Complete (codec : Codec Hash) (slot : Slot) (hash : Hash) : Prop :=
  ∃ email ∈ slot.iterDecryptEmail codec, codec.sha256 email = hash

instance [DecidableEq Hash] (slot : Slot) (hash : Hash) : Decidable (slot.Complete codec hash) :=
  inferInstanceAs (Decidable (∃ email ∈ slot.iterDecryptEmail codec, codec.sha256 email = hash))

/-- `archive_email_file` returns without having written the file only if the file is complete,
and it takes the lock only while there is no file. -/
def FilePhase.Sound (codec : Codec Hash) (slot : Slot) (hash : Hash) : FilePhase → Action → Prop
  | .checking, .proceeds => slot.target.isSome → slot.Complete codec hash
  | .locking, .proceeds => if slot.locked then slot.Complete codec hash else slot.target = none
  | .locking, .raises osError | .compressing _, .raises osError =>
    osError → slot.Complete codec hash
  | .removing (some osError), .proceeds =>
    osError ∨ slot.compressed = none → slot.Complete codec hash
  | .removing (some _), .raises osError => osError → slot.Complete codec hash
  | _, _ => True

/-! ## §2 Operations on the file -/

def FilePhase.HoldsLock : FilePhase → Prop
  | .checking | .makingDirectories | .locking => False
  | _ => True

def FilePhase.Relies (codec : Codec Hash) (email : Bytes) (slot : Slot) : FilePhase → Prop
  | .compressing _ => slot.target = none
  | .encrypting => slot.target = none ∧ slot.compressed = some (codec.gzip email)
  | .writing content written =>
    (codec.gzip email).length < 2 ^ 64 ∧ slot.target = some (content.take written) ∧
      ∃ nonce : Nonce, content = encrypt codec.primitives nonce (codec.gzip email) codec.key
  | .removing none | .unlocking => slot.Complete codec (codec.sha256 email)
  | _ => True

/-- What holds of the slot while a call is in this phase. -/
structure FilePhase.Inv (codec : Codec Hash) (email : Bytes) (slot : Slot) (phase : FilePhase) :
    Prop where
  locked : phase.HoldsLock → slot.locked = true
  relies : phase.Relies codec email slot

theorem Slot.complete_of_target {slot slot' : Slot} {hash : Hash}
    (htarget : slot'.target = slot.target) :
    slot'.Complete codec hash ↔ slot.Complete codec hash := by
  simp only [Slot.Complete, Slot.iterDecryptEmail, htarget]

variable {slot : Slot}

theorem Slot.Complete.target_ne_none {hash : Hash} (h : slot.Complete codec hash) :
    slot.target ≠ none := by
  obtain ⟨email, hemail, -⟩ := h
  intro hnone
  simp [Slot.iterDecryptEmail, hnone] at hemail

theorem Slot.complete_of_encrypt {email : Bytes} (nonce : Nonce)
    (hsize : (codec.gzip email).length < 2 ^ 64)
    (htarget : slot.target =
      some (encrypt codec.primitives nonce (codec.gzip email) codec.key)) :
    slot.Complete codec (codec.sha256 email) := by
  refine ⟨email, ?_, rfl⟩
  simp only [Slot.iterDecryptEmail, htarget, Option.bind_some,
    decrypt_encrypt nonce.property hsize, codec.gunzip_gzip, Option.mem_def]

theorem Slot.Complete.length_le {email content : Bytes} {hash : Hash} {written : Nat}
    (h : slot.Complete codec hash) (nonce : Nonce)
    (hcontent : content = encrypt codec.primitives nonce (codec.gzip email) codec.key)
    (htarget : slot.target = some (content.take written)) : content.length ≤ written := by
  by_contra hshort
  obtain ⟨read, hread, -⟩ := h
  rw [Nat.not_le, hcontent] at hshort
  simp only [Slot.iterDecryptEmail, htarget, Option.bind_some, hcontent,
    codec.decrypt_truncated nonce email written nonce.property hshort, Option.bind_none,
    Option.mem_def, reduceCtorEq] at hread

def FileOutcome.Holds (codec : Codec Hash) (email : Bytes) (slot : Slot) : FileOutcome → Prop
  | .next phase => phase.Inv codec email slot
  | .returned => slot.Complete codec (codec.sha256 email)
  | .raised => True

theorem leaveLock_holds {email : Bytes} {osError : Bool}
    (h : osError = true → slot.Complete codec (codec.sha256 email)) :
    (leaveLock osError).Holds codec email slot := by
  cases osError with
  | false => trivial
  | true => exact h rfl

/-- The slot behind an operation, with what it leads to. -/
structure FilePhase.Leads (codec : Codec Hash) (email : Bytes) (phase : FilePhase)
    (slot slot' : Slot) (outcome : FileOutcome) : Prop where
  /-- A complete file stays complete. -/
  complete : slot.Complete codec (codec.sha256 email) → slot'.Complete codec (codec.sha256 email)
  /-- Only the holder of the lock changes what is on disk, and the lock is taken when it is
  free. -/
  changes : slot' = slot ∨ phase.HoldsLock ∨ slot.locked = false
  /-- A call that holds the lock behind an operation held it before, or it was free. -/
  lock : ∀ phase', outcome = .next phase' → phase'.HoldsLock →
    phase.HoldsLock ∨ slot.locked = false
  holds : outcome.Holds codec email slot'

namespace FilePhase

variable {email : Bytes} {nonce : Nonce} {slot : Slot} {phase : FilePhase} {action : Action}

abbrev slotAfter (codec : Codec Hash) (email : Bytes) (nonce : Nonce) (slot : Slot)
    (phase : FilePhase) (action : Action) : Slot :=
  (phase.step codec email nonce slot action).1

abbrev outcome (codec : Codec Hash) (email : Bytes) (nonce : Nonce) (slot : Slot)
    (phase : FilePhase) (action : Action) : FileOutcome :=
  (phase.step codec email nonce slot action).2

theorem complete_step (hinv : phase.Inv codec email slot)
    (h : slot.Complete codec (codec.sha256 email)) :
    (phase.slotAfter codec email nonce slot action).Complete codec (codec.sha256 email) := by
  have hkeep {slot' : Slot} (htarget : slot'.target = slot.target) :
      slot'.Complete codec (codec.sha256 email) := (Slot.complete_of_target htarget).mpr h
  unfold slotAfter
  fun_cases FilePhase.step codec email nonce slot phase action
  case case8 | case9 =>
    -- `encrypting` has no target yet
    exact absurd hinv.relies.1 h.target_ne_none
  case case10 content written n =>
    obtain ⟨-, htarget, nonce', hcontent⟩ := hinv.relies
    have hlength := h.length_le nonce' hcontent htarget
    apply hkeep
    rw [htarget, List.take_of_length_le hlength, List.take_of_length_le (by omega)]
  case case11 content written =>
    obtain ⟨hsize, -, nonce', rfl⟩ := hinv.relies
    exact Slot.complete_of_encrypt nonce' hsize rfl
  all_goals exact hkeep rfl

/-- A sound operation leads to a phase that may rely on the slot, and `archive_email_file`
returns only when the file is complete. -/
theorem step_holds (hinv : phase.Inv codec email slot)
    (hsound : phase.Sound codec slot (codec.sha256 email) action) :
    (phase.outcome codec email nonce slot action).Holds codec email
      (phase.slotAfter codec email nonce slot action) := by
  have hlocked := hinv.locked
  have hrelies := hinv.relies
  cases phase with
  | checking =>
    cases action with
    | proceeds =>
      simp only [outcome, slotAfter, step]
      split
      next hexists => exact hsound hexists
      next => exact ⟨False.elim, trivial⟩
    | raises | dies => trivial
    | _ => exact hinv
  | makingDirectories =>
    cases action with
    | proceeds => exact ⟨False.elim, trivial⟩
    | raises | dies => trivial
    | _ => exact hinv
  | locking =>
    cases action with
    | proceeds =>
      simp only [Sound] at hsound
      simp only [outcome, slotAfter, step]
      split
      next hheld =>
        rw [if_pos hheld] at hsound
        show (leaveLock true).Holds codec email slot
        exact leaveLock_holds fun _ => hsound
      next hfree =>
        rw [if_neg hfree] at hsound
        exact ⟨fun _ => rfl, hsound⟩
    | raises osError => exact leaveLock_holds hsound
    | dies => trivial
    | _ => exact hinv
  | compressing written =>
    cases action with
    | proceeds => exact ⟨hlocked, hrelies, rfl⟩
    | writes n => exact ⟨hlocked, hrelies⟩
    | raises osError => exact leaveLock_holds hsound
    | dies => trivial
    | _ => exact hinv
  | encrypting =>
    cases action with
    | proceeds =>
      simp only [outcome, slotAfter, step, hrelies.2]
      split
      next hsize => exact ⟨hlocked, hsize, by simp, nonce, rfl⟩
      next => exact ⟨hlocked, trivial⟩
    | raises osError => exact ⟨hlocked, trivial⟩
    | dies => trivial
    | _ => exact hinv
  | writing content written =>
    obtain ⟨hsize, -, nonce', hcontent⟩ := hrelies
    cases action with
    | proceeds =>
      exact ⟨hlocked, Slot.complete_of_encrypt nonce' hsize (congrArg some hcontent)⟩
    | writes n => exact ⟨hlocked, hsize, rfl, nonce', hcontent⟩
    | raises osError => exact ⟨hlocked, trivial⟩
    | dies => trivial
    | _ => exact hinv
  | removing pending =>
    cases action with
    | proceeds =>
      simp only [outcome, slotAfter, step]
      split
      next hmissing =>
        show (leaveLock true).Holds codec email slot
        apply leaveLock_holds
        cases pending with
        | none => exact fun _ => hrelies
        | some osError => exact fun _ => hsound (.inr hmissing)
      next =>
        cases pending with
        | none => exact ⟨hlocked, (Slot.complete_of_target rfl).mpr hrelies⟩
        | some osError =>
          exact leaveLock_holds fun h => (Slot.complete_of_target rfl).mpr (hsound (.inl h))
    | raises osError =>
      apply leaveLock_holds
      cases pending with
      | none => exact fun _ => hrelies
      | some _ => exact hsound
    | dies => trivial
    | _ => exact hinv
  | unlocking =>
    cases action with
    | proceeds =>
      simp only [outcome, slotAfter, step, hlocked trivial, if_true]
      exact (Slot.complete_of_target rfl).mpr hrelies
    | raises osError => exact leaveLock_holds fun _ => hrelies
    | dies => trivial
    | _ => exact hinv

theorem slotAfter_eq_or :
    phase.slotAfter codec email nonce slot action = slot ∨ phase.HoldsLock ∨
      slot.locked = false := by
  unfold slotAfter
  fun_cases FilePhase.step codec email nonce slot phase action
  case case4 hfree => exact .inr (.inr (Bool.eq_false_iff.mpr hfree))
  all_goals first | exact .inl rfl | exact .inr (.inl trivial)

theorem holdsLock_of_next (phase' : FilePhase)
    (h : phase.outcome codec email nonce slot action = .next phase')
    (hholds : phase'.HoldsLock) : phase.HoldsLock ∨ slot.locked = false := by
  cases phase with
  | locking =>
    by_cases hlocked : slot.locked = true
    · cases action with
      | proceeds => simp [outcome, step, hlocked, leaveLock] at h
      | raises osError => cases osError <;> simp [outcome, step, leaveLock] at h
      | dies => cases h
      | _ => obtain rfl := FileOutcome.next.inj h; exact hholds.elim
    · exact .inr (Bool.eq_false_iff.mpr hlocked)
  | checking =>
    cases action with
    | proceeds =>
      by_cases hexists : slot.target.isSome <;> simp [outcome, step, hexists] at h
      obtain rfl := h
      exact hholds.elim
    | raises | dies => cases h
    | _ => obtain rfl := FileOutcome.next.inj h; exact hholds.elim
  | makingDirectories =>
    cases action with
    | raises | dies => cases h
    | _ => obtain rfl := FileOutcome.next.inj h; exact hholds.elim
  | _ => exact .inl trivial

theorem leads_step (nonce : Nonce) (hinv : phase.Inv codec email slot)
    (hsound : phase.Sound codec slot (codec.sha256 email) action) :
    phase.Leads codec email slot (phase.step codec email nonce slot action).1
      (phase.step codec email nonce slot action).2 where
  complete := complete_step hinv
  changes := slotAfter_eq_or
  lock := holdsLock_of_next
  holds := step_holds hinv hsound

end FilePhase

end Ace3.EmailArchive
