import Ace3.EmailArchive.CompleteFiles
import Ace3.EmailArchive.Transactions
import Ace3.Lib.Runs
import Mathlib.Data.List.MinMax

/-!
# Archived Emails Read Back

An archived email is read back if every operation is sound: the file at the target path is taken
for an archived email only when it is one, it is written only where no file is, and no deadlock
takes rows of the transaction along.
-/

namespace Ace3.EmailArchive

open List Function
open Crypto
open Lib.Runs

variable {Hash : Type*} {codec : Codec Hash}

/-! ## §1 The server between two operations -/

def Server.Sound (codec : Codec Hash) (s : Server Hash) : ArchiveEvent → Prop
  | .acts id action =>
    match s.calls id with
    | some ⟨request, .file phase⟩ =>
      phase.Sound codec (s.slots (codec.sha256 request.email)) (codec.sha256 request.email) action
    | some ⟨_, .database _⟩ => action = .deadlocks → s.tables.NothingPending id
    | none => True
  | _ => True

namespace Server

structure Inv (codec : Codec Hash) (s : Server Hash) : Prop where
  file : ∀ id request phase, s.calls id = some ⟨request, .file phase⟩ →
    phase.Inv codec request.email (s.slots (codec.sha256 request.email))
  /-- At most one call holds the lock of a hash. -/
  holder : ∀ id id' request request' phase phase', s.calls id = some ⟨request, .file phase⟩ →
    s.calls id' = some ⟨request', .file phase'⟩ → phase.HoldsLock → phase'.HoldsLock →
      codec.sha256 request.email = codec.sha256 request'.email → id = id'
  /-- A call that has its hash has its file. -/
  complete : ∀ id request phase, s.calls id = some ⟨request, .database phase⟩ →
    (s.slots (codec.sha256 request.email)).Complete codec (codec.sha256 request.email)
  database : ∀ id request phase, s.calls id = some ⟨request, .database phase⟩ →
    phase.Inv codec id request s.tables
  idle : ∀ id, (∀ request phase, s.calls id ≠ some ⟨request, .database phase⟩) →
    s.tables.NothingPending id
  numbered : s.tables.Numbered
  archive : ∀ row ∈ s.tables.archive, (s.slots row.hash).Complete codec row.hash
  archiveIndex : ∀ index ∈ s.tables.archiveIndex, ∃ row ∈ s.tables.archive,
    row.archiveId = index.archiveId ∧
      ∃ email, codec.sha256 email = row.hash ∧ (index.messageId, email) ∈ s.archived
  returned : ∀ messageId ∈ s.returned, ∃ index ∈ s.tables.archiveIndex,
    index.messageId = messageId

theorem inv_empty : Inv codec (empty Hash) := by
  constructor <;> simp [empty, Tables.NothingPending]
  exact ⟨by simp [Tables.rows], by simp [Tables.rows]⟩

variable {s : Server Hash} {id : Nat} {request : ArchiveRequest}

theorem update_eq_some {calls : Nat → Option Call} {new : Option Call} {id' : Nat} {call : Call}
    (h : Function.update calls id new id' = some call) :
    (id' = id ∧ new = some call) ∨ (id' ≠ id ∧ calls id' = some call) := by
  by_cases hid : id' = id
  · subst hid
    rw [update_self] at h
    exact .inl ⟨rfl, h⟩
  · rw [update_of_ne hid] at h
    exact .inr ⟨hid, h⟩

variable {phase : FilePhase}

theorem inv_of_not_holdsLock {email : Bytes} {slot : Slot} (h : ¬ phase.HoldsLock) :
    phase.Inv codec email slot := by
  refine ⟨fun hholds => absurd hholds h, ?_⟩
  cases phase with
  | checking | makingDirectories | locking => trivial
  | _ => exact absurd trivial h

theorem Inv.archiveEmail (hinv : Inv codec s) (hfree : s.calls id = none) :
    Inv codec (s.goto id request (.file .checking)) := by
  constructor
  · intro id' request' phase hcall
    rcases update_eq_some hcall with ⟨-, hnew⟩ | ⟨-, hold⟩
    · cases hnew
      exact inv_of_not_holdsLock False.elim
    · exact hinv.file id' request' phase hold
  · intro id₁ id₂ request₁ request₂ phase₁ phase₂ hcall₁ hcall₂ hholds₁ hholds₂ hhash
    rcases update_eq_some hcall₁ with ⟨-, hnew⟩ | ⟨-, hold₁⟩
    · cases hnew
      exact hholds₁.elim
    rcases update_eq_some hcall₂ with ⟨-, hnew⟩ | ⟨-, hold₂⟩
    · cases hnew
      exact hholds₂.elim
    exact hinv.holder id₁ id₂ request₁ request₂ phase₁ phase₂ hold₁ hold₂ hholds₁ hholds₂ hhash
  · intro id' request' phase hcall
    rcases update_eq_some hcall with ⟨-, hnew⟩ | ⟨-, hold⟩
    · cases hnew
    · exact hinv.complete id' request' phase hold
  · intro id' request' phase hcall
    rcases update_eq_some hcall with ⟨-, hnew⟩ | ⟨-, hold⟩
    · cases hnew
    · exact hinv.database id' request' phase hold
  · intro id' hidle
    apply hinv.idle id'
    intro request' phase hcall
    have hne : id' ≠ id := by
      rintro rfl
      simp [hfree] at hcall
    exact hidle request' phase ((update_of_ne hne _ _).trans hcall)
  · exact hinv.numbered
  · exact hinv.archive
  · exact hinv.archiveIndex
  · exact hinv.returned

/-- The slot and the call behind an operation of `archive_email_file`. -/
structure FileStep (codec : Codec Hash) (request : ArchiveRequest) (phase : FilePhase)
    (slot slot' : Slot) (call : Option Call) : Prop where
  complete : slot.Complete codec (codec.sha256 request.email) →
    slot'.Complete codec (codec.sha256 request.email)
  changes : slot' = slot ∨ phase.HoldsLock ∨ slot.locked = false
  file : ∀ request' phase', call = some ⟨request', .file phase'⟩ →
    request' = request ∧ phase'.Inv codec request.email slot' ∧
      (phase'.HoldsLock → phase.HoldsLock ∨ slot.locked = false)
  database : ∀ request' phase', call = some ⟨request', .database phase'⟩ →
    request' = request ∧ phase' = .inserting ∧
      slot'.Complete codec (codec.sha256 request.email)

theorem Inv.of_fileStep [DecidableEq Hash] {slot' : Slot} {call : Option Call} (hinv : Inv codec s)
    (hcall : s.calls id = some ⟨request, .file phase⟩)
    (hstep : FileStep codec request phase (s.slots (codec.sha256 request.email)) slot' call) :
    Inv codec { s with
      slots := Function.update s.slots (codec.sha256 request.email) slot'
      calls := Function.update s.calls id call } := by
  have hphase := hinv.file id request phase hcall
  -- whoever holds the lock of the hash besides this call sees no change
  have hslot {id' : Nat} {request' : ArchiveRequest} {phase' : FilePhase} (hne : id' ≠ id)
      (hother : s.calls id' = some ⟨request', .file phase'⟩) :
      phase'.Inv codec request'.email (Function.update s.slots (codec.sha256 request.email) slot'
        (codec.sha256 request'.email)) := by
    have hinv' := hinv.file id' request' phase' hother
    by_cases hhash : codec.sha256 request'.email = codec.sha256 request.email
    · rw [hhash, update_self]
      rw [hhash] at hinv'
      rcases hstep.changes with hsame | hholds | hfree
      · rwa [hsame]
      · apply inv_of_not_holdsLock
        intro hholds'
        exact hne (hinv.holder id' id _ _ _ _ hother hcall hholds' hholds hhash)
      · apply inv_of_not_holdsLock
        intro hholds'
        simp [hinv'.locked hholds'] at hfree
    · rwa [update_of_ne hhash]
  have hcomplete {hash : Hash} (h : (s.slots hash).Complete codec hash) :
      (Function.update s.slots (codec.sha256 request.email) slot' hash).Complete codec hash := by
    by_cases hhash : hash = codec.sha256 request.email
    · subst hhash
      rw [update_self]
      exact hstep.complete h
    · rwa [update_of_ne hhash]
  have hnone : s.tables.NothingPending id := by
    apply hinv.idle
    simp [hcall]
  -- a second holder would have held the lock before
  have hsecond {id' : Nat} {request' : ArchiveRequest} {phase' phase'' : FilePhase}
      (hne : id' ≠ id) (hother : s.calls id' = some ⟨request', .file phase'⟩)
      (hholds' : phase'.HoldsLock) (hnew : call = some ⟨request, .file phase''⟩)
      (hholds : phase''.HoldsLock)
      (hhash : codec.sha256 request'.email = codec.sha256 request.email) : False := by
    rcases (hstep.file _ _ hnew).2.2 hholds with hheld | hfree
    · exact hne (hinv.holder id' id _ _ _ _ hother hcall hholds' hheld hhash)
    · have hlocked := (hinv.file id' request' phase' hother).locked hholds'
      rw [hhash, hfree] at hlocked
      cases hlocked
  constructor
  · intro id' request' phase' hcall'
    rcases update_eq_some hcall' with ⟨rfl, hnew⟩ | ⟨hne, hold⟩
    · obtain ⟨rfl, hinv', -⟩ := hstep.file _ _ hnew
      show phase'.Inv codec _ (Function.update s.slots _ slot' _)
      rwa [update_self]
    · exact hslot hne hold
  · intro id₁ id₂ request₁ request₂ phase₁ phase₂ hcall₁ hcall₂ hholds₁ hholds₂ hhash
    rcases update_eq_some hcall₁ with ⟨rfl, hnew₁⟩ | ⟨hne₁, hold₁⟩ <;>
      rcases update_eq_some hcall₂ with ⟨rfl, hnew₂⟩ | ⟨hne₂, hold₂⟩
    · rfl
    · obtain ⟨rfl, -⟩ := hstep.file _ _ hnew₁
      exact (hsecond hne₂ hold₂ hholds₂ hnew₁ hholds₁ hhash.symm).elim
    · obtain ⟨rfl, -⟩ := hstep.file _ _ hnew₂
      exact (hsecond hne₁ hold₁ hholds₁ hnew₂ hholds₂ hhash).elim
    · exact hinv.holder id₁ id₂ _ _ _ _ hold₁ hold₂ hholds₁ hholds₂ hhash
  · intro id' request' phase' hcall'
    rcases update_eq_some hcall' with ⟨rfl, hnew⟩ | ⟨-, hold⟩
    · obtain ⟨rfl, -, hdone⟩ := hstep.database _ _ hnew
      show (Function.update s.slots _ slot' _).Complete codec _
      rwa [update_self]
    · exact hcomplete (hinv.complete id' request' phase' hold)
  · intro id' request' phase' hcall'
    rcases update_eq_some hcall' with ⟨rfl, hnew⟩ | ⟨-, hold⟩
    · obtain ⟨rfl, rfl, -⟩ := hstep.database _ _ hnew
      exact ⟨fun row hrow => absurd rfl (hnone.1 _ hrow),
        fun row hrow => absurd rfl (hnone.2 _ hrow), trivial⟩
    · exact hinv.database id' request' phase' hold
  · intro id' hidle
    by_cases hid : id' = id
    · rwa [hid]
    · apply hinv.idle
      intro request' phase' hcall'
      exact hidle request' phase' ((update_of_ne hid _ _).trans hcall')
  · exact hinv.numbered
  · exact fun row hrow => hcomplete (hinv.archive row hrow)
  · exact hinv.archiveIndex
  · exact hinv.returned

/-- The tables and the call behind an operation of a transaction. -/
structure DatabaseStep (codec : Codec Hash) (s s' : Server Hash) (id : Nat)
    (request : ArchiveRequest) : Prop where
  slots : s'.slots = s.slots
  calls : ∃ call, s'.calls = Function.update s.calls id call ∧
    ∀ request' phase', call = some ⟨request', phase'⟩ → request' = request ∧
      ∃ phase, phase' = .database phase ∧ phase.Inv codec id request s'.tables
  ended : s'.calls id = none → s'.tables.NothingPending id
  keeps : s.tables.Keeps s'.tables id
  numbered : s'.tables.Numbered
  archive : ∀ row ∈ s'.tables.archive,
    row ∈ s.tables.archive ∨ row.hash = codec.sha256 request.email
  archived : s.archived ⊆ s'.archived
  archiveIndex : ∀ index ∈ s'.tables.archiveIndex, index ∈ s.tables.archiveIndex ∨
    ∃ row ∈ s'.tables.archive, row.archiveId = index.archiveId ∧
      ∃ email, codec.sha256 email = row.hash ∧ (index.messageId, email) ∈ s'.archived
  returned : ∀ messageId ∈ s'.returned, messageId ∈ s.returned ∨
    ∃ index ∈ s'.tables.archiveIndex, index.messageId = messageId

theorem Inv.of_databaseStep {s' : Server Hash} {phase : DatabasePhase} (hinv : Inv codec s)
    (hcall : s.calls id = some ⟨request, .database phase⟩)
    (hstep : DatabaseStep codec s s' id request) : Inv codec s' := by
  obtain ⟨call, hcalls, hnext⟩ := hstep.calls
  have hcomplete := hinv.complete id request phase hcall
  have hsplit {id' : Nat} {call' : Call} (h : s'.calls id' = some call') :
      (id' = id ∧ call = some call') ∨ (id' ≠ id ∧ s.calls id' = some call') :=
    update_eq_some (hcalls ▸ h)
  constructor
  · intro id' request' phase' hcall'
    rcases hsplit hcall' with ⟨rfl, hnew⟩ | ⟨-, hold⟩
    · obtain ⟨-, phase'', hphase, -⟩ := hnext _ _ hnew
      cases hphase
    · exact hstep.slots ▸ hinv.file id' request' phase' hold
  · intro id₁ id₂ request₁ request₂ phase₁ phase₂ hcall₁ hcall₂ hholds₁ hholds₂ hhash
    rcases hsplit hcall₁ with ⟨rfl, hnew⟩ | ⟨-, hold₁⟩
    · obtain ⟨-, phase'', hphase, -⟩ := hnext _ _ hnew
      cases hphase
    rcases hsplit hcall₂ with ⟨rfl, hnew⟩ | ⟨-, hold₂⟩
    · obtain ⟨-, phase'', hphase, -⟩ := hnext _ _ hnew
      cases hphase
    exact hinv.holder id₁ id₂ _ _ _ _ hold₁ hold₂ hholds₁ hholds₂ hhash
  · intro id' request' phase' hcall'
    rw [hstep.slots]
    rcases hsplit hcall' with ⟨rfl, hnew⟩ | ⟨-, hold⟩
    · obtain ⟨rfl, -⟩ := hnext _ _ hnew
      exact hcomplete
    · exact hinv.complete id' request' phase' hold
  · intro id' request' phase' hcall'
    rcases hsplit hcall' with ⟨rfl, hnew⟩ | ⟨hne, hold⟩
    · obtain ⟨rfl, phase'', hphase, hinv'⟩ := hnext _ _ hnew
      cases hphase
      exact hinv'
    · -- the rows of the other transactions are untouched
      have hold' := hinv.database id' request' phase' hold
      refine ⟨?_, ?_, ?_⟩
      · exact fun row hrow => hold'.archive row ((hstep.keeps.pendingArchive _ hne).mp hrow)
      · intro row hrow
        obtain ⟨hmessageId, hhas⟩ :=
          hold'.archiveIndex row ((hstep.keeps.pendingIndex _ hne).mp hrow)
        exact ⟨hmessageId, hhas.keeps hstep.keeps hne⟩
      · have hrelies := hold'.relies
        cases phase' with
        | inserting | selecting => trivial
        | indexing archiveId => exact Tables.Has.keeps hrelies hstep.keeps hne
        | recording recipients => exact Tables.Indexed.keeps hrelies hstep.keeps hne
  · intro id' hidle
    by_cases hid : id' = id
    · subst hid
      apply hstep.ended
      cases hnew : s'.calls id' with
      | none => rfl
      | some call' =>
        obtain ⟨request', phase'⟩ := call'
        rcases hsplit hnew with ⟨-, hnew'⟩ | ⟨hne, -⟩
        · obtain ⟨-, phase'', rfl, -⟩ := hnext _ _ hnew'
          exact absurd hnew (hidle _ _)
        · exact absurd rfl hne
    · refine (hinv.idle id' ?_).keeps hstep.keeps hid
      intro request' phase' hcall'
      apply hidle request' phase'
      rw [hcalls, update_of_ne hid, hcall']
  · exact hstep.numbered
  · intro row hrow
    rw [hstep.slots]
    rcases hstep.archive row hrow with hold | hhash
    · exact hinv.archive row hold
    · exact hhash ▸ hcomplete
  · intro index hindex
    rcases hstep.archiveIndex index hindex with hold | hnew
    · obtain ⟨row, hrow, hid, email, hhash, hemail⟩ := hinv.archiveIndex index hold
      exact ⟨row, hstep.keeps.archive hrow, hid, email, hhash, hstep.archived hemail⟩
    · exact hnew
  · intro messageId hmessageId
    rcases hstep.returned messageId hmessageId with hold | hnew
    · obtain ⟨index, hindex, hsame⟩ := hinv.returned messageId hold
      exact ⟨index, hstep.keeps.archiveIndex hindex, hsame⟩
    · exact hnew

theorem exists_latest {rows : List (ArchiveRow Hash)} (h : rows ≠ []) :
    ∃ row ∈ rows, ∀ other ∈ rows, other.insertDate ≤ row.insertDate := by
  obtain ⟨row, hrow⟩ := Option.ne_none_iff_exists'.mp
    (mt (argmax_eq_none (f := ArchiveRow.insertDate)).mp h)
  exact ⟨row, argmax_mem hrow, fun other hother => le_of_mem_argmax hother hrow⟩

theorem Inv.readsBack (hinv : Inv codec s) {messageId : String} (h : s.Lists messageId) :
    s.ReadsBack codec messageId := by
  constructor
  · obtain ⟨index, hindex, hmessageId⟩ := h
    obtain ⟨row, hrow, hid, -⟩ := hinv.archiveIndex index hindex
    have hjoined : row ∈ s.indexedRows messageId := by
      refine mem_filter.mpr ⟨hrow, any_eq_true.mpr ⟨index, hindex, ?_⟩⟩
      exact decide_eq_true ⟨hmessageId, hid.symm⟩
    obtain ⟨latest, hlatest, hmax⟩ := exists_latest (ne_nil_of_mem hjoined)
    refine ne_nil_of_mem (mem_map_of_mem (a := latest) ?_)
    refine mem_filter.mpr ⟨hlatest, all_eq_true.mpr ?_⟩
    exact fun other hother => decide_eq_true (hmax other hother)
  · intro hash hhash
    obtain ⟨row, hrow, rfl⟩ := mem_map.mp hhash
    obtain ⟨harchive, hindexed⟩ := mem_filter.mp (mem_filter.mp hrow).1
    obtain ⟨index, hindex, hmatches⟩ := any_eq_true.mp hindexed
    obtain ⟨hmessageId, hid⟩ := of_decide_eq_true hmatches
    obtain ⟨row', hrow', hid', email, hemail, harchived⟩ := hinv.archiveIndex index hindex
    -- the row of the index entry is the joined one
    have hsame : row' = row := hinv.numbered.unique row' (mem_append_left _ hrow') row
      (mem_append_left _ harchive) (hid'.trans hid)
    subst hsame
    obtain ⟨read, hread, hsha⟩ := hinv.archive row' hrow'
    have hbytes : read = email := codec.sha256_injective (hsha.trans hemail.symm)
    exact ⟨email, hbytes ▸ hread, hmessageId ▸ harchived⟩

theorem not_readsBack {messageId : String} {hash : Hash}
    (hfound : hash ∈ s.queryByMessageId messageId)
    (hunreadable : s.iterArchivedEmail codec hash = none) : ¬ s.ReadsBack codec messageId := by
  intro hreads
  obtain ⟨email, hemail, -⟩ := hreads.2 hash hfound
  rw [hunreadable] at hemail
  cases hemail

variable [DecidableEq Hash]

theorem inv_fileStep {action : Action} (hinv : Inv codec s)
    (hcall : s.calls id = some ⟨request, .file phase⟩)
    (hsound : phase.Sound codec (s.slots (codec.sha256 request.email))
      (codec.sha256 request.email) action) :
    Inv codec (s.fileStep codec id request phase action) := by
  have hleads := FilePhase.leads_step request.nonce (hinv.file id request phase hcall) hsound
  simp only [fileStep]
  generalize phase.step codec request.email request.nonce
    (s.slots (codec.sha256 request.email)) action = result at hleads ⊢
  obtain ⟨slot', outcome⟩ := result
  obtain ⟨hcomplete, hchanges, hlock, hholds⟩ := hleads
  cases outcome with
  | next phase' =>
    refine hinv.of_fileStep hcall ⟨hcomplete, hchanges, ?_, ?_⟩
    · intro request' phase'' hnew
      cases hnew
      exact ⟨rfl, hholds, hlock _ rfl⟩
    · intro request' phase'' hnew
      cases hnew
  | returned =>
    refine hinv.of_fileStep hcall ⟨hcomplete, hchanges, ?_, ?_⟩
    · intro request' phase'' hnew
      cases hnew
    · intro request' phase'' hnew
      cases hnew
      exact ⟨rfl, rfl, hholds⟩
  | raised =>
    refine hinv.of_fileStep hcall ⟨hcomplete, hchanges, ?_, ?_⟩ <;>
      · intro request' phase'' hnew
        cases hnew

theorem inv_databaseStep {phase : DatabasePhase} {action : Action} (hinv : Inv codec s)
    (hcall : s.calls id = some ⟨request, .database phase⟩)
    (hsound : action = .deadlocks → s.tables.NothingPending id) :
    Inv codec (s.databaseStep codec id request phase action) := by
  have hleads := DatabasePhase.leads_step hinv.numbered
    (hinv.database id request phase hcall) hsound
  unfold databaseStep
  generalize phase.step codec id request s.tables action = result at hleads ⊢
  obtain ⟨t', outcome⟩ := result
  obtain ⟨hkeeps, hnumbered, hholds⟩ := hleads
  apply hinv.of_databaseStep hcall
  cases outcome with
  | next phase' =>
    obtain ⟨hinv', harchive, hindex⟩ := hholds
    refine ⟨rfl, ⟨_, rfl, ?_⟩, ?_, hkeeps, hnumbered, ?_, List.Subset.refl _, ?_, ?_⟩
    · intro request' phase'' hnew
      cases hnew
      exact ⟨rfl, phase', rfl, hinv'⟩
    · simp [goto]
    · exact fun row hrow => .inl (harchive ▸ hrow)
    · exact fun index hindex' => .inl (hindex ▸ hindex')
    · exact fun messageId hmessageId => .inl hmessageId
  | raised =>
    obtain ⟨hnothing, harchive, hindex⟩ := hholds
    refine ⟨rfl, ⟨none, rfl, ?_⟩, fun _ => hnothing, hkeeps, hnumbered, ?_,
      List.Subset.refl _, ?_, ?_⟩
    · intro request' phase'' hnew
      cases hnew
    · exact fun row hrow => .inl (harchive ▸ hrow)
    · exact fun index hindex' => .inl (hindex ▸ hindex')
    · exact fun messageId hmessageId => .inl hmessageId
  | committed answered =>
    obtain ⟨hnothing, harchives⟩ := hholds
    refine ⟨rfl, ⟨none, rfl, ?_⟩, fun _ => hnothing, hkeeps, hnumbered, harchives.archive,
      subset_append_left _ _, ?_, ?_⟩
    · intro request' phase'' hnew
      cases hnew
    · intro index hindex
      rcases harchives.archiveIndex index hindex with hold | ⟨hmessageId, row, hrow, hid, hhash⟩
      · exact .inl hold
      · refine .inr ⟨row, hrow, hid, request.email, hhash.symm, ?_⟩
        rw [hmessageId]
        exact mem_append_right _ (mem_singleton.mpr rfl)
    · intro messageId hreturned
      cases answered with
      | false => exact .inl hreturned
      | true =>
        rcases mem_append.mp hreturned with hold | hnew
        · exact .inl hold
        · rw [mem_singleton.mp hnew]
          exact .inr harchives.indexed

theorem inv_step (e : ArchiveEvent) (hinv : Inv codec s) (hsound : s.Sound codec e) :
    Inv codec (s.step codec e) := by
  cases e with
  | archiveEmail id request =>
    simp only [step]
    split
    next => exact hinv
    next hfree =>
      apply hinv.archiveEmail
      simpa using (not_or.mp hfree).1
  | acts id action =>
    simp only [step]
    simp only [Sound] at hsound
    split at hsound
    next request phase hcall =>
      simp only [hcall]
      exact inv_fileStep hinv hcall hsound
    next request phase hcall =>
      simp only [hcall]
      exact inv_databaseStep hinv hcall hsound
    next hcall =>
      simp only [hcall]
      exact hinv
  | ticks =>
    refine ⟨hinv.file, hinv.holder, hinv.complete, ?_, hinv.idle, ?_, hinv.archive,
      hinv.archiveIndex, hinv.returned⟩
    · intro id request phase hcall
      have hold := hinv.database id request phase hcall
      refine ⟨hold.archive, hold.archiveIndex, ?_⟩
      cases phase with
      | inserting | selecting => trivial
      | indexing | recording => exact hold.relies
    · exact hinv.numbered.of_subset (List.Subset.refl _) rfl

/-! ## §2 Runs -/

/-- In every run of sound operations, an email is read back under every message id for which
`archive_email` returned or that the archive index lists. -/
theorem archived_email_reads_back {events : List ArchiveEvent}
    (h : Along (step codec) (Sound codec) (empty Hash) events) (messageId : String)
    (hmessageId : normalizeMessageId messageId ∈ (events.foldl (step codec) (empty Hash)).returned ∨
      (events.foldl (step codec) (empty Hash)).Lists messageId) :
    (events.foldl (step codec) (empty Hash)).ReadsBack codec messageId := by
  have hinv : Inv codec (events.foldl (step codec) (empty Hash)) :=
    Along.invariant (Inv codec) (fun _ e => inv_step e) inv_empty h
  apply hinv.readsBack
  rcases hmessageId with hreturned | hlists
  · exact hinv.returned _ hreturned
  · exact hlists

end Server

/-! ## §3 An email that is lost -/

section Example

/-- The ciphertext of the example: the plaintext behind its length in unary. -/
def sealBytes (plaintext : Bytes) : Bytes :=
  List.replicate plaintext.length 1 ++ 0 :: plaintext

def unsealBytes (ciphertext : Bytes) : Option Bytes :=
  let length := (ciphertext.takeWhile (· = 1)).length
  match ciphertext.drop length with
  | 0 :: plaintext => if plaintext.length = length then some plaintext else none
  | _ => none

theorem unsealBytes_append (length : Nat) (plaintext : Bytes) :
    unsealBytes (List.replicate length 1 ++ 0 :: plaintext) =
      if plaintext.length = length then some plaintext else none := by
  have hlength : ((List.replicate length 1 ++ 0 :: plaintext).takeWhile
      (· = (1 : UInt8))).length = length := by
    rw [takeWhile_append_of_pos (by simp)]
    simp
  have hdrop : (List.replicate length (1 : UInt8) ++ 0 :: plaintext).drop length =
      0 :: plaintext := drop_left' length_replicate
  simp only [unsealBytes, hlength, hdrop]

theorem unsealBytes_take {plaintext : Bytes} {n : Nat} (h : n < (sealBytes plaintext).length) :
    unsealBytes ((sealBytes plaintext).take n) = none := by
  simp only [sealBytes, length_append, length_replicate, length_cons] at h
  by_cases hn : n ≤ plaintext.length
  · have hones : (sealBytes plaintext).take n = List.replicate n 1 := by
      rw [sealBytes, take_append_of_le_length (by simpa using hn), take_replicate,
        min_eq_left hn]
    simp [hones, unsealBytes]
  · have hcut : (sealBytes plaintext).take n =
        List.replicate plaintext.length 1 ++ 0 :: plaintext.take (n - plaintext.length - 1) := by
      obtain ⟨k, rfl⟩ : ∃ k, n = plaintext.length + (k + 1) := ⟨n - plaintext.length - 1, by omega⟩
      simp [sealBytes, take_append, take_replicate]
    have hshort : (plaintext.take (n - plaintext.length - 1)).length ≠ plaintext.length := by
      simp only [length_take]
      omega
    rw [hcut, unsealBytes_append, if_neg hshort]

/-- A cryptography library with self-delimiting ciphertexts. -/
def unaryPrimitives : Primitives where
  derive _ _ _ := List.replicate 64 0
  gcmEncrypt _ _ plaintext := (sealBytes plaintext, List.replicate 16 0)
  gcmDecrypt _ _ sealed := unsealBytes sealed.1
  derive_length := by simp
  tag_length := by simp
  decrypt_encrypt key nonce plaintext := by simp [sealBytes, unsealBytes_append]

theorem decrypt_take_encrypt {nonce source key : Bytes} {n : Nat} (hnonce : nonce.length = 12)
    (h : n < (encrypt unaryPrimitives nonce source key).length) :
    decrypt unaryPrimitives ((encrypt unaryPrimitives nonce source key).take n) key = none := by
  have hlength : (encrypt unaryPrimitives nonce source key).length =
      (sealBytes source).length + 36 := by
    simp only [encrypt, unaryPrimitives, length_append, length_packQ, hnonce,
      length_replicate]
    omega
  have hdrop : (encrypt unaryPrimitives nonce source key).drop 20 =
      sealBytes source ++ List.replicate 16 0 := by
    rw [show 20 = 8 + 12 from rfl, ← drop_drop, encrypt,
      drop_left' (length_packQ _), drop_left' hnonce]
    rfl
  have hciphertext : (((encrypt unaryPrimitives nonce source key).take n).drop 20).take
      (n - 36) = (sealBytes source).take (n - 36) := by
    rw [drop_take, hdrop, List.take_take, min_eq_left (by omega),
      take_append_of_le_length (by omega)]
  have hrefused : unsealBytes ((sealBytes source).take (n - 36)) = none := unsealBytes_take (by
    have hpositive : 0 < (sealBytes source).length :=
      length_pos_iff.mpr (by simp [sealBytes])
    omega)
  have htaken : ((encrypt unaryPrimitives nonce source key).take n).length = n := by
    rw [length_take, min_eq_left h.le]
  simp only [decrypt, htaken, hciphertext]
  split
  next => rfl
  next => simp only [unaryPrimitives, hrefused, Option.map_none]

/-- Libraries for the example: a hash is the email itself, and nothing is compressed. -/
def plainCodec : Codec Bytes where
  sha256 := id
  gzip := id
  gunzip := some
  primitives := unaryPrimitives
  key := []
  sha256_injective := injective_id
  gunzip_gzip _ := rfl
  decrypt_truncated _ _ _ hnonce h := decrypt_take_encrypt hnonce h

def sampleRequest : ArchiveRequest where
  email := [72, 105]
  messageId := "<1@example>"
  recipients := []
  insertDate := 0
  nonce := ⟨List.replicate 12 0, rfl⟩

def lostEmail : List ArchiveEvent :=
  .archiveEmail 0 sampleRequest ::
    [.proceeds, .proceeds, .proceeds, .raises true, .proceeds, .proceeds, .proceeds].map
      (.acts 0 ·)

/-- A failure to write is reported as success: `archive_email` returns, the index lists the
message id, and there is no file. -/
theorem lost_email_is_indexed :
    let s := lostEmail.foldl (Server.step plainCodec) (.empty Bytes)
    normalizeMessageId "<1@example>" ∈ s.returned ∧ s.Lists "<1@example>" ∧
      ¬ s.ReadsBack plainCodec "<1@example>" := by
  intro s
  have hreturned : normalizeMessageId "<1@example>" ∈ s.returned := by decide +kernel
  have hlists : ∃ index ∈ s.tables.archiveIndex,
      index.messageId = normalizeMessageId "<1@example>" := by decide +kernel
  have hfound : [72, 105] ∈ s.queryByMessageId "<1@example>" := by decide +kernel
  have hunreadable : s.iterArchivedEmail plainCodec [72, 105] = none := by decide
  exact ⟨hreturned, hlists, Server.not_readsBack hfound hunreadable⟩

/-- The email is archived while a second call for it is under way, which finds the file; a third
call dies. -/
def keptEmail : List ArchiveEvent :=
  .archiveEmail 0 sampleRequest ::
    (List.replicate 5 (ArchiveEvent.acts 0 .proceeds) ++ [ArchiveEvent.acts 0 (.writes 30)] ++
      List.replicate 3 (ArchiveEvent.acts 0 .proceeds) ++
      ([.archiveEmail 1 sampleRequest, .acts 1 .proceeds, .acts 0 .proceeds, .acts 1 .proceeds,
        .acts 0 .proceeds, .acts 0 .proceeds, .ticks, .acts 1 .proceeds, .acts 1 .proceeds,
        .acts 1 .proceeds, .archiveEmail 2 sampleRequest, .acts 2 .dies] : List ArchiveEvent))

instance (slot : Slot) (hash : Bytes) (phase : FilePhase) (action : Action) :
    Decidable (phase.Sound plainCodec slot hash action) := by
  unfold FilePhase.Sound
  split <;> infer_instance

instance (t : Tables Bytes) (id : Nat) : Decidable (t.NothingPending id) :=
  inferInstanceAs (Decidable (_ ∧ _))

instance (s : Server Bytes) (e : ArchiveEvent) : Decidable (s.Sound plainCodec e) := by
  unfold Server.Sound
  split
  · split <;> infer_instance
  · infer_instance

/-- The run is sound, and the email is read back. -/
theorem kept_email_reads_back :
    (keptEmail.foldl (Server.step plainCodec) (.empty Bytes)).ReadsBack plainCodec
      "<1@example>" :=
  Server.archived_email_reads_back (by decide +kernel) "<1@example>" (.inl (by decide +kernel))

end Example

end Ace3.EmailArchive
