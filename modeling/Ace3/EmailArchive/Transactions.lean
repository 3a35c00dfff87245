import Ace3.EmailArchive.LocalArchive

/-!
# Transactions on the Archive Tables

What the operations of one transaction do to the tables, and what they leave to the others.
-/

namespace Ace3.EmailArchive

open List

variable {Hash : Type*} {codec : Codec Hash}

/-! ## §1 Rows -/

def Tables.NothingPending (t : Tables Hash) (id : Nat) : Prop :=
  (∀ pending ∈ t.pendingArchive, pending.1 ≠ id) ∧ ∀ pending ∈ t.pendingIndex, pending.1 ≠ id

namespace Tables

variable {t t' : Tables Hash} {id id' archiveId : Nat} {hash : Hash}

/-- The rows of `archive`, also those that are not committed. -/
def rows (t : Tables Hash) : List (ArchiveRow Hash) := t.archive ++ t.pendingArchive.map (·.2)

/-- `archive_id` is an `AUTO_INCREMENT` column. -/
structure Numbered (t : Tables Hash) : Prop where
  fresh : ∀ row ∈ t.rows, row.archiveId < t.nextArchiveId
  unique : ∀ row ∈ t.rows, ∀ row' ∈ t.rows, row.archiveId = row'.archiveId → row = row'

/-- A transaction sees the hash under the archive id. -/
def Has (t : Tables Hash) (id archiveId : Nat) (hash : Hash) : Prop :=
  ∃ row, (row ∈ t.archive ∨ (id, row) ∈ t.pendingArchive) ∧ row.archiveId = archiveId ∧
    row.hash = hash

def Indexed (t : Tables Hash) (id : Nat) (messageId : String) : Prop :=
  ∃ row, (row ∈ t.archiveIndex ∨ (id, row) ∈ t.pendingIndex) ∧ row.messageId = messageId

/-- What an operation of transaction `id` leaves to the others. -/
structure Keeps (t t' : Tables Hash) (id : Nat) : Prop where
  archive : t.archive ⊆ t'.archive
  archiveIndex : t.archiveIndex ⊆ t'.archiveIndex
  pendingArchive : ∀ pending, pending.1 ≠ id →
    (pending ∈ t'.pendingArchive ↔ pending ∈ t.pendingArchive)
  pendingIndex : ∀ pending, pending.1 ≠ id →
    (pending ∈ t'.pendingIndex ↔ pending ∈ t.pendingIndex)

theorem Numbered.of_subset (h : t.Numbered) (hrows : t'.rows ⊆ t.rows)
    (hnext : t'.nextArchiveId = t.nextArchiveId) : t'.Numbered where
  fresh row hrow := hnext ▸ h.fresh row (hrows hrow)
  unique row hrow row' hrow' := h.unique row (hrows hrow) row' (hrows hrow')

theorem Keeps.refl (t : Tables Hash) (id : Nat) : t.Keeps t id :=
  ⟨List.Subset.refl _, List.Subset.refl _, fun _ _ => Iff.rfl, fun _ _ => Iff.rfl⟩

theorem Has.keeps (h : t.Has id' archiveId hash) (hkeeps : t.Keeps t' id) (hne : id' ≠ id) :
    t'.Has id' archiveId hash := by
  obtain ⟨row, hrow, hid, hhash⟩ := h
  refine ⟨row, ?_, hid, hhash⟩
  exact hrow.imp (hkeeps.archive ·) (hkeeps.pendingArchive _ hne).mpr

theorem Indexed.keeps {messageId : String} (h : t.Indexed id' messageId)
    (hkeeps : t.Keeps t' id) (hne : id' ≠ id) : t'.Indexed id' messageId := by
  obtain ⟨row, hrow, hmessageId⟩ := h
  refine ⟨row, ?_, hmessageId⟩
  exact hrow.imp (hkeeps.archiveIndex ·) (hkeeps.pendingIndex _ hne).mpr

theorem NothingPending.keeps (h : t.NothingPending id') (hkeeps : t.Keeps t' id)
    (hne : id' ≠ id) : t'.NothingPending id' := by
  constructor
  · rintro ⟨owner, row⟩ hrow rfl
    exact h.1 _ ((hkeeps.pendingArchive _ hne).mp hrow) rfl
  · rintro ⟨owner, row⟩ hrow rfl
    exact h.2 _ ((hkeeps.pendingIndex _ hne).mp hrow) rfl

theorem nothingPending_rollback (t : Tables Hash) (id : Nat) :
    (t.rollback id).NothingPending id := by
  simp [NothingPending, rollback]

theorem NothingPending.rollback_eq (h : t.NothingPending id) : t.rollback id = t := by
  have harchive : t.pendingArchive.filter (·.1 ≠ id) = t.pendingArchive :=
    filter_eq_self.mpr fun pending hpending => decide_eq_true (h.1 pending hpending)
  have hindex : t.pendingIndex.filter (·.1 ≠ id) = t.pendingIndex :=
    filter_eq_self.mpr fun pending hpending => decide_eq_true (h.2 pending hpending)
  simp only [rollback, harchive, hindex]

theorem keeps_rollback (t : Tables Hash) (id : Nat) : t.Keeps (t.rollback id) id where
  archive := List.Subset.refl _
  archiveIndex := List.Subset.refl _
  pendingArchive pending hne := by simp [rollback, hne]
  pendingIndex pending hne := by simp [rollback, hne]

theorem keeps_commit (t : Tables Hash) (id : Nat) : t.Keeps (t.commit id) id where
  archive := subset_append_left _ _
  archiveIndex := subset_append_left _ _
  pendingArchive := (keeps_rollback t id).pendingArchive
  pendingIndex := (keeps_rollback t id).pendingIndex

theorem Numbered.rollback (h : t.Numbered) (id : Nat) : (t.rollback id).Numbered := by
  refine h.of_subset ?_ rfl
  intro row hrow
  simp only [rows, Tables.rollback, mem_append, mem_map, mem_filter] at hrow ⊢
  rcases hrow with hrow | ⟨pending, ⟨hpending, -⟩, rfl⟩
  · exact .inl hrow
  · exact .inr ⟨pending, hpending, rfl⟩

theorem Numbered.commit (h : t.Numbered) (id : Nat) : (t.commit id).Numbered := by
  refine h.of_subset ?_ rfl
  intro row hrow
  simp only [rows, Tables.commit, Tables.rollback, mem_append, mem_map,
    mem_filter] at hrow ⊢
  rcases hrow with (hrow | ⟨pending, ⟨hpending, -⟩, rfl⟩) | ⟨pending, ⟨hpending, -⟩, rfl⟩
  · exact .inl hrow
  · exact .inr ⟨pending, hpending, rfl⟩
  · exact .inr ⟨pending, hpending, rfl⟩

theorem Numbered.insert {row : ArchiveRow Hash} (h : t.Numbered)
    (hrow : row.archiveId = t.nextArchiveId) :
    Numbered { t with
      pendingArchive := t.pendingArchive ++ [(id, row)]
      nextArchiveId := t.nextArchiveId + 1 } := by
  have hrows (other : ArchiveRow Hash) :
      other ∈ rows { t with
        pendingArchive := t.pendingArchive ++ [(id, row)]
        nextArchiveId := t.nextArchiveId + 1 } ↔ other ∈ t.rows ∨ other = row := by
    simp [rows, or_assoc]
  constructor
  · intro other hother
    rcases (hrows other).mp hother with hold | rfl
    · exact Nat.lt_succ_of_lt (h.fresh other hold)
    · exact hrow ▸ Nat.lt_succ_self _
  · intro other hother other' hother' hsame
    rcases (hrows other).mp hother with hold | rfl <;>
      rcases (hrows other').mp hother' with hold' | rfl
    · exact h.unique other hold other' hold' hsame
    · exact absurd (hsame.trans hrow) (Nat.ne_of_lt (h.fresh other hold))
    · exact absurd (hsame.symm.trans hrow) (Nat.ne_of_lt (h.fresh other' hold'))
    · rfl

end Tables

/-! ## §2 Operations of a transaction -/

section Transaction

variable {t : Tables Hash} {id : Nat} {request : ArchiveRequest}
  {phase : DatabasePhase} {action : Action}

def DatabasePhase.Relies (codec : Codec Hash) (id : Nat) (request : ArchiveRequest)
    (t : Tables Hash) : DatabasePhase → Prop
  | .indexing archiveId => t.Has id archiveId (codec.sha256 request.email)
  | .recording _ => t.Indexed id (normalizeMessageId request.messageId)
  | _ => True

/-- What holds of the rows of a transaction in this phase. -/
structure DatabasePhase.Inv (codec : Codec Hash) (id : Nat) (request : ArchiveRequest)
    (t : Tables Hash) (phase : DatabasePhase) : Prop where
  archive : ∀ row, (id, row) ∈ t.pendingArchive → row.hash = codec.sha256 request.email
  archiveIndex : ∀ row, (id, row) ∈ t.pendingIndex →
    row.messageId = normalizeMessageId request.messageId ∧
      t.Has id row.archiveId (codec.sha256 request.email)
  relies : phase.Relies codec id request t

structure Tables.Archives (codec : Codec Hash) (request : ArchiveRequest) (t t' : Tables Hash) :
    Prop where
  archive : ∀ row ∈ t'.archive, row ∈ t.archive ∨ row.hash = codec.sha256 request.email
  archiveIndex : ∀ index ∈ t'.archiveIndex, index ∈ t.archiveIndex ∨
    index.messageId = normalizeMessageId request.messageId ∧
      ∃ row ∈ t'.archive, row.archiveId = index.archiveId ∧
        row.hash = codec.sha256 request.email
  indexed : ∃ index ∈ t'.archiveIndex, index.messageId = normalizeMessageId request.messageId

def DatabaseOutcome.Holds (codec : Codec Hash) (id : Nat) (request : ArchiveRequest)
    (t t' : Tables Hash) : DatabaseOutcome → Prop
  | .next phase =>
    phase.Inv codec id request t' ∧ t'.archive = t.archive ∧ t'.archiveIndex = t.archiveIndex
  | .committed _ => t'.NothingPending id ∧ t.Archives codec request t'
  | .raised =>
    t'.NothingPending id ∧ t'.archive = t.archive ∧ t'.archiveIndex = t.archiveIndex

/-- The tables behind an operation, with what it leads to. -/
structure DatabasePhase.Leads (codec : Codec Hash) (id : Nat) (request : ArchiveRequest)
    (t t' : Tables Hash) (outcome : DatabaseOutcome) : Prop where
  keeps : t.Keeps t' id
  numbered : t'.Numbered
  holds : outcome.Holds codec id request t t'

namespace DatabasePhase

theorem leads_refl (hnumbered : t.Numbered) (hinv : phase.Inv codec id request t) :
    Leads codec id request t t (.next phase) :=
  ⟨.refl t id, hnumbered, hinv, rfl, rfl⟩

theorem leads_raised (hnumbered : t.Numbered) :
    Leads codec id request t (t.rollback id) .raised :=
  ⟨t.keeps_rollback id, hnumbered.rollback id, t.nothingPending_rollback id, rfl, rfl⟩

theorem leads_deadlock (hnumbered : t.Numbered) (hinv : phase.Inv codec id request t)
    (hpending : t.NothingPending id) :
    Leads codec id request t (t.rollback id) (.next phase) := by
  rw [hpending.rollback_eq]
  exact leads_refl hnumbered hinv

theorem inv_of_has {archiveId : Nat} (hinv : phase.Inv codec id request t)
    (hhas : t.Has id archiveId (codec.sha256 request.email)) :
    (DatabasePhase.indexing archiveId).Inv codec id request t :=
  ⟨hinv.archive, hinv.archiveIndex, hhas⟩

theorem leads_insertEmailArchive [DecidableEq Hash] (hnumbered : t.Numbered)
    (hinv : DatabasePhase.inserting.Inv codec id request t) :
    Leads codec id request t (t.insertEmailArchive id (codec.sha256 request.email)).1
      (.next (t.insertEmailArchive id (codec.sha256 request.email)).2) := by
  fun_cases Tables.insertEmailArchive t id (codec.sha256 request.email) with
  | case1 => exact leads_refl hnumbered ⟨hinv.archive, hinv.archiveIndex, trivial⟩
  | case2 => exact leads_refl hnumbered hinv
  | case3 =>
    refine ⟨⟨List.Subset.refl _, List.Subset.refl _, ?_, fun _ _ => Iff.rfl⟩,
      hnumbered.insert rfl, ⟨?_, ?_, ?_⟩, rfl, rfl⟩
    · intro pending hne
      have hother : pending ≠ (id, ⟨t.nextArchiveId, codec.sha256 request.email, t.now⟩) :=
        fun h => hne (congrArg Prod.fst h)
      simp [hother]
    · intro row hrow
      rcases mem_append.mp hrow with hold | hnew
      · exact hinv.archive row hold
      · obtain ⟨-, rfl⟩ := Prod.mk.inj (mem_singleton.mp hnew)
        rfl
    · intro row hrow
      obtain ⟨hmessageId, found, hfound, hid, hhash⟩ := hinv.archiveIndex row hrow
      exact ⟨hmessageId, found, hfound.imp_right (mem_append_left _), hid, hhash⟩
    · exact ⟨_, .inr (mem_append_right _ (mem_singleton.mpr rfl)), rfl, rfl⟩

theorem leads_indexEmailArchive [DecidableEq Hash] {archiveId : Nat} (hnumbered : t.Numbered)
    (hinv : (DatabasePhase.indexing archiveId).Inv codec id request t) :
    Leads codec id request t (t.indexEmailArchive id archiveId request).1
      (.next (t.indexEmailArchive id archiveId request).2) := by
  have hhas : t.Has id archiveId (codec.sha256 request.email) := hinv.relies
  unfold Tables.indexEmailArchive
  generalize hrow : (⟨normalizeMessageId request.messageId, archiveId, request.insertDate⟩ :
    IndexRow) = row
  have hmessageId : row.messageId = normalizeMessageId request.messageId := by rw [← hrow]
  have harchiveId : row.archiveId = archiveId := by rw [← hrow]
  simp only
  split
  next hindexed =>
    exact leads_refl hnumbered
      ⟨hinv.archive, hinv.archiveIndex, row, .inl hindexed, hmessageId⟩
  split
  next => exact leads_refl hnumbered hinv
  next =>
    refine ⟨⟨List.Subset.refl _, List.Subset.refl _, fun _ _ => Iff.rfl, ?_⟩,
      hnumbered.of_subset (List.Subset.refl _) rfl, ⟨hinv.archive, ?_, ?_⟩, rfl, rfl⟩
    · intro pending hne
      have hother : pending ≠ (id, row) := fun h => hne (congrArg Prod.fst h)
      simp [hother]
    · intro inserted hinserted
      rcases mem_append.mp hinserted with hold | hnew
      · exact hinv.archiveIndex inserted hold
      · obtain ⟨-, rfl⟩ := Prod.mk.inj (mem_singleton.mp hnew)
        exact ⟨hmessageId, harchiveId ▸ hhas⟩
    · exact ⟨row, .inr (mem_append_right _ (mem_singleton.mpr rfl)), hmessageId⟩

theorem leads_commit (hnumbered : t.Numbered) (answered : Bool)
    (hinv : (DatabasePhase.recording []).Inv codec id request t) :
    Leads codec id request t (t.commit id) (.committed answered) := by
  refine ⟨t.keeps_commit id, hnumbered.commit id, t.nothingPending_rollback id, ⟨?_, ?_, ?_⟩⟩
  · intro row hrow
    simp only [Tables.commit, mem_append, mem_map, mem_filter,
      decide_eq_true_eq] at hrow
    rcases hrow with hrow | ⟨⟨owner, row⟩, ⟨hpending, rfl⟩, rfl⟩
    · exact .inl hrow
    · exact .inr (hinv.archive row hpending)
  · intro index hindex
    simp only [Tables.commit, mem_append, mem_map, mem_filter,
      decide_eq_true_eq] at hindex
    rcases hindex with hindex | ⟨⟨owner, index⟩, ⟨hpending, rfl⟩, rfl⟩
    · exact .inl hindex
    · obtain ⟨hmessageId, row, hrow, hid, hhash⟩ := hinv.archiveIndex index hpending
      refine .inr ⟨hmessageId, row, ?_, hid, hhash⟩
      simp only [Tables.commit, mem_append, mem_map, mem_filter,
        decide_eq_true_eq]
      exact hrow.imp_right fun hrow => ⟨_, ⟨hrow, rfl⟩, rfl⟩
  · obtain ⟨index, hindex, hmessageId⟩ := hinv.relies
    refine ⟨index, ?_, hmessageId⟩
    simp only [Tables.commit, mem_append, mem_map, mem_filter, decide_eq_true_eq]
    exact hindex.imp_right fun hindex => ⟨_, ⟨hindex, rfl⟩, rfl⟩

theorem leads_step [DecidableEq Hash] (hnumbered : t.Numbered) (hinv : phase.Inv codec id request t)
    (hsound : action = .deadlocks → t.NothingPending id) :
    Leads codec id request t (phase.step codec id request t action).1
      (phase.step codec id request t action).2 := by
  have hstay := leads_refl hnumbered hinv
  have hraised : Leads codec id request t (t.rollback id) .raised := leads_raised hnumbered
  have hdeadlock (h : action = .deadlocks) := leads_deadlock hnumbered hinv (hsound h)
  cases phase with
  | inserting =>
    cases action with
    | proceeds => exact leads_insertEmailArchive hnumbered hinv
    | deadlocks => exact hdeadlock rfl
    | raises | dies => exact hraised
    | _ => exact hstay
  | selecting =>
    cases action with
    | selects archiveId =>
      simp only [step]
      split
      next hfound =>
        obtain ⟨row, hrow, hmatches⟩ := any_eq_true.mp hfound
        obtain ⟨hid, hhash⟩ := of_decide_eq_true hmatches
        exact leads_refl hnumbered (inv_of_has hinv ⟨row, .inl hrow, hid, hhash⟩)
      next => exact hstay
    | raises | dies => exact hraised
    | _ => exact hstay
  | indexing archiveId =>
    cases action with
    | proceeds => exact leads_indexEmailArchive hnumbered hinv
    | deadlocks => exact hdeadlock rfl
    | raises | dies => exact hraised
    | _ => exact hstay
  | recording recipients =>
    cases recipients with
    | nil =>
      cases action with
      | proceeds => exact leads_commit hnumbered true hinv
      | losesAnswer => exact leads_commit hnumbered false hinv
      | raises | dies => exact hraised
      | _ => exact hstay
    | cons recipient recipients =>
      cases action with
      | proceeds => exact leads_refl hnumbered ⟨hinv.archive, hinv.archiveIndex, hinv.relies⟩
      | deadlocks => exact hdeadlock rfl
      | raises | dies => exact hraised
      | _ => exact hstay

end DatabasePhase

end Transaction

end Ace3.EmailArchive
