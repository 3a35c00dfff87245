import Ace3.Collectors.SubmissionScheduler
import Ace3.Lib.Runs

/-!
# What a Crash Does to a Staged Submission

"Once it completes the submission is recoverable even if this process dies immediately afterwards."
A submission that is still staged is collected again after a restart. But its key is marked as
processed before its directory is moved and its workload row is inserted and assigned: dying in
between, the process leaves a key that makes the next run discard the submission, or a directory
that no row leads to.
-/

namespace Ace3.Collectors

open List
open Lib Lib.Runs

/-! ## §1 What becomes of a submission -/

/-- The submission whose scheduling has begun: its key, if it has one, is marked. -/
def SchedulingPoint.scheduling? : SchedulingPoint → Option Submission
  | .moving submission | .inserting submission | .assigning submission _ _ => some submission
  | _ => none

/-- From the marking of the key, or without a key from the move on, until the last group is
assigned. -/
def SchedulingPoint.isOpen : SchedulingPoint → Bool
  | .moving submission => submission.dedupKey.isSome
  | .inserting _ => true
  | .assigning _ _ remaining => remaining ≠ []
  | _ => false

namespace CollectorState

variable {Digest : Type} {settings : CollectorSettings Digest}
  {s : CollectorState Digest} {submission : Submission}

def rowOf (submission : Submission) : IncomingWorkload :=
  ⟨submission.analysisMode, submission.uuid⟩

def HasRow (settings : CollectorSettings Digest) (tables : CollectionTables)
    (submission : Submission) : Prop :=
  ∃ workId, (workId, rowOf submission) ∈ tables.incomingWorkload.rows ∧
    ∀ group ∈ settings.remoteNodeGroups.determineTargetGroups submission,
      tables.isAssigned workId group.groupId

/-- The submission has such a row, or is in the error directory, or was discarded while another
submission with its key has such a row. -/
def Settled (settings : CollectorSettings Digest) (s : CollectorState Digest)
    (submission : Submission) : Prop :=
  HasRow settings s.tables submission ∨ submission ∈ s.error ∨
    submission ∈ s.discarded ∧ ∃ other, other.uuid ≠ submission.uuid ∧
      other.dedupKey = submission.dedupKey ∧ HasRow settings s.tables other

structure AtRest (s : CollectorState Digest) : Prop where
  point : s.point = .idle
  pending : s.pending = []
  staging : s.staging = []

/-- The digests of the keys of two submissions differ where the keys do. -/
def TellsApart (settings : CollectorSettings Digest) (a b : Submission) : Prop :=
  a.dedupKey.map settings.sha256Str = b.dedupKey.map settings.sha256Str → a.dedupKey = b.dedupKey

/-- Nothing interrupts the scheduling of a submission: the process neither dies nor meets an
exception while it is open; what is quarantined can be moved to the error directory; and the
digests of the staged keys do not collide. -/
def Uninterrupted (settings : CollectorSettings Digest) (s : CollectorState Digest) :
    CollectorEvent Digest → Prop
  | .stage submission => ∀ other ∈ s.staged, TellsApart settings submission other
  | .crash => ¬ s.point.isOpen
  | .proceed (.raised movable) => movable ∧ ¬ s.point.isOpen
  | .load readable movable => readable ∨ movable
  | _ => True

/-! ## §2 The invariant -/

/-- What holds where the collection thread is at a point. -/
def AtPoint (settings : CollectorSettings Digest) (s : CollectorState Digest) :
    SchedulingPoint → Prop
  | .idle => True
  | .checking submission | .moving submission => submission ∈ s.staging
  | .marking submission key => submission ∈ s.staging ∧ submission.dedupKey = some key
  | .inserting submission => submission ∈ s.staged ∧ submission ∉ s.staging
  | .assigning submission workId remaining =>
    (submission ∈ s.staged ∧ submission ∉ s.staging) ∧
      (workId, rowOf submission) ∈ s.tables.incomingWorkload.rows ∧
      ∃ assigned, settings.remoteNodeGroups.determineTargetGroups submission =
          assigned ++ remaining ∧
        (∀ group ∈ assigned, s.tables.isAssigned workId group.groupId) ∧
        ∀ group ∈ remaining, ¬ s.tables.isAssigned workId group.groupId

structure Filed (s : CollectorState Digest) : Prop where
  distinct : ∀ a ∈ s.staged, ∀ b ∈ s.staged, a.uuid = b.uuid → a = b
  staging : ∀ submission ∈ s.staging, submission ∈ s.staged
  incoming : ∀ submission ∈ s.incoming, submission ∈ s.staged ∧ submission ∉ s.staging
  assigned : ∀ entry ∈ s.tables.workDistribution, entry.workId < s.tables.incomingWorkload.nextId

/-- What each submission and each marked key stand for. -/
structure Accounted (settings : CollectorSettings Digest) (s : CollectorState Digest) : Prop where
  submissions : ∀ submission ∈ s.staged, submission ∈ s.staging ∨ Settled settings s submission ∨
    s.point.scheduling? = some submission
  keys : ∀ digest ∈ s.persistentKeys, ∃ other ∈ s.staged, ∃ key, other.dedupKey = some key ∧
    settings.sha256Str key = digest ∧
    (s.point.scheduling? = some other ∨ other ∉ s.staging ∧ HasRow settings s.tables other)

/-- The invariant of the runs in which nothing interrupts the scheduling of a submission. -/
structure Inv (settings : CollectorSettings Digest) (s : CollectorState Digest) : Prop where
  filed : s.Filed
  digests : ∀ a ∈ s.staged, ∀ b ∈ s.staged, TellsApart settings a b
  point : s.AtPoint settings s.point
  accounted : s.Accounted settings

theorem inv_start : (start : CollectorState Digest).Inv settings where
  filed := ⟨nofun, nofun, nofun, nofun⟩
  digests := nofun
  point := trivial
  accounted := ⟨nofun, nofun⟩

theorem Inv.settled (h : s.Inv settings) (hrest : s.AtRest) (hstaged : submission ∈ s.staged) :
    Settled settings s submission := by
  rcases h.accounted.submissions submission hstaged with hin | hsettled | hopen
  · rw [hrest.staging] at hin
    cases hin
  · exact hsettled
  · rw [hrest.point] at hopen
    cases hopen

structure GrowsTo (tables tables' : CollectionTables) : Prop where
  rows : ∀ row ∈ tables.incomingWorkload.rows, row ∈ tables'.incomingWorkload.rows
  assigned : ∀ workId groupId, tables.isAssigned workId groupId →
    tables'.isAssigned workId groupId

theorem growsTo_insertWorkload (tables : CollectionTables) (row : IncomingWorkload) :
    GrowsTo tables (tables.insertWorkload row).1 where
  rows := fun _ hrow => Table.mem_rows_insert.mpr (.inl hrow)
  assigned := fun _ _ h => h

theorem growsTo_append (tables : CollectionTables) (entry : WorkDistribution) :
    GrowsTo tables { tables with workDistribution := tables.workDistribution ++ [entry] } where
  rows := fun _ hrow => hrow
  assigned := by
    intro workId groupId h
    obtain ⟨row, hrow, hids⟩ := CollectionTables.isAssigned_iff.mp h
    exact CollectionTables.isAssigned_iff.mpr ⟨row, mem_append_left _ hrow, hids⟩

theorem HasRow.mono {tables tables' : CollectionTables} (h : HasRow settings tables submission)
    (hgrows : GrowsTo tables tables') : HasRow settings tables' submission := by
  obtain ⟨workId, hrow, hgroups⟩ := h
  exact ⟨workId, hgrows.rows _ hrow, fun group hgroup => hgrows.assigned _ _ (hgroups group hgroup)⟩

theorem Settled.mono {s' : CollectorState Digest} (h : Settled settings s submission)
    (htables : GrowsTo s.tables s'.tables) (herror : s.error ⊆ s'.error)
    (hdiscarded : s.discarded ⊆ s'.discarded) : Settled settings s' submission := by
  rcases h with hrow | hfiled | ⟨hgone, other, hne, hkey, hrow⟩
  · exact .inl (hrow.mono htables)
  · exact .inr (.inl (herror hfiled))
  · exact .inr (.inr ⟨hdiscarded hgone, other, hne, hkey, hrow.mono htables⟩)

theorem growsTo_refl (tables : CollectionTables) : GrowsTo tables tables :=
  ⟨fun _ h => h, fun _ _ h => h⟩

/-! ## §3 Steps -/

theorem mem_unstage {other : Submission} (h : s.Filed) (hstaged : submission ∈ s.staged)
    (hother : other ∈ s.staged) :
    other ∈ (s.unstage submission).staging ↔ other ∈ s.staging ∧ other ≠ submission := by
  simp only [unstage, mem_filter, decide_eq_true_eq]
  refine and_congr_right fun _ => not_congr ⟨fun huuid => ?_, fun heq => by rw [heq]⟩
  exact h.distinct other hother submission hstaged huuid

theorem notMem_of_notMem_staging {other : Submission} (h : other ∉ s.staging) :
    other ∉ (s.unstage submission).staging :=
  fun hmem => h (mem_of_mem_filter hmem)

theorem Filed.unstage (h : s.Filed) : (s.unstage submission).Filed where
  distinct := h.distinct
  staging := fun other hother => h.staging other (mem_of_mem_filter hother)
  incoming := fun other hother =>
    ⟨(h.incoming other hother).1, notMem_of_notMem_staging (h.incoming other hother).2⟩
  assigned := h.assigned

theorem Inv.toIdle (h : s.Inv settings) (hclosed : ∀ other,
      s.point.scheduling? = some other → other ∈ s.staging ∨ Settled settings s other)
    (hkeys : ∀ other, s.point.scheduling? = some other → ∀ key, other.dedupKey = some key →
      other ∉ s.staging ∧ HasRow settings s.tables other) (pending : List String) :
    ({ s with point := .idle, pending := pending } : CollectorState Digest).Inv settings where
  filed := ⟨h.filed.distinct, h.filed.staging, h.filed.incoming, h.filed.assigned⟩
  digests := h.digests
  point := trivial
  accounted :=
    { submissions := by
        intro other hother
        rcases h.accounted.submissions other hother with hstaging | hsettled | hopen
        · exact .inl hstaging
        · exact .inr (.inl hsettled)
        · exact (hclosed other hopen).imp id .inl
      keys := by
        intro digest hdigest
        obtain ⟨other, hother, key, hkey, hsha, hheld⟩ := h.accounted.keys digest hdigest
        refine ⟨other, hother, key, hkey, hsha, .inr ?_⟩
        rcases hheld with hopen | hrow
        · exact hkeys other hopen key hkey
        · exact hrow }

theorem Inv.giveUp (h : s.Inv settings) (hclosed : ¬ s.point.isOpen) (pending : List String) :
    ({ s with point := .idle, pending := pending } : CollectorState Digest).Inv settings := by
  have hpoint := h.point
  refine h.toIdle ?_ ?_ pending
  · intro other hopen
    cases hp : s.point with
    | moving submission =>
      rw [hp] at hopen hpoint
      cases hopen
      exact .inl hpoint
    | assigning submission workId remaining =>
      rw [hp] at hopen hpoint hclosed
      cases hopen
      obtain rfl : remaining = [] := by simpa [SchedulingPoint.isOpen] using hclosed
      obtain ⟨-, hrow, assigned, htargets, hassigned, -⟩ := hpoint
      refine .inr (.inl ⟨workId, hrow, ?_⟩)
      simpa [htargets] using hassigned
    | inserting submission => exact absurd rfl (hp ▸ hclosed)
    | _ => rw [hp] at hopen; cases hopen
  · intro other hopen key hkey
    cases hp : s.point with
    | moving submission =>
      rw [hp] at hopen hclosed
      cases hopen
      exact absurd (by rw [SchedulingPoint.isOpen, hkey]; rfl) hclosed
    | assigning submission workId remaining =>
      rw [hp] at hopen hpoint hclosed
      cases hopen
      obtain rfl : remaining = [] := by simpa [SchedulingPoint.isOpen] using hclosed
      obtain ⟨⟨-, hgone⟩, hrow, assigned, htargets, hassigned, -⟩ := hpoint
      refine ⟨hgone, workId, hrow, ?_⟩
      simpa [htargets] using hassigned
    | inserting submission => exact absurd rfl (hp ▸ hclosed)
    | _ => rw [hp] at hopen; cases hopen

theorem Inv.quarantine (h : s.Inv settings) (hidle : s.point = .idle)
    (hstaging : submission ∈ s.staging ∨ s.staging.any (·.uuid = submission.uuid) = false) :
    (s.quarantine submission true).Inv settings := by
  unfold CollectorState.quarantine
  split
  next hthere =>
    have hstaging := hstaging.resolve_right (by simp [hthere])
    have hstaged := h.filed.staging submission hstaging
    have hunstaged : (s.unstage submission).Filed := h.filed.unstage
    refine ⟨⟨hunstaged.distinct, hunstaged.staging, hunstaged.incoming, hunstaged.assigned⟩,
      h.digests, ?_, ?_⟩
    · show AtPoint settings _ s.point
      rw [hidle]
      trivial
    · constructor
      · intro other hother
        by_cases heq : other = submission
        · subst heq
          exact .inr (.inl (.inr (.inl (mem_append_right _ (mem_singleton_self _)))))
        · rcases h.accounted.submissions other hother with hin | hsettled | hopen
          · exact .inl ((mem_unstage h.filed hstaged hother).mpr ⟨hin, heq⟩)
          · exact .inr (.inl (hsettled.mono (growsTo_refl _) (subset_append_left _ _)
              (List.Subset.refl _)))
          · exact .inr (.inr hopen)
      · intro digest hdigest
        obtain ⟨other, hother, key, hkey, hsha, hheld⟩ := h.accounted.keys digest hdigest
        refine ⟨other, hother, key, hkey, hsha, hheld.imp id fun hrow => ?_⟩
        exact ⟨notMem_of_notMem_staging hrow.1, hrow.2⟩
  next => exact h

theorem Inv.goTo (h : s.Inv settings) {p : SchedulingPoint} (hpoint : s.AtPoint settings p)
    (hidle : s.point.scheduling? = none) :
    ({ s with point := p } : CollectorState Digest).Inv settings where
  filed := ⟨h.filed.distinct, h.filed.staging, h.filed.incoming, h.filed.assigned⟩
  digests := h.digests
  point := by cases p <;> exact hpoint
  accounted :=
    { submissions := by
        intro other hother
        rcases h.accounted.submissions other hother with hstaging | hsettled | hopen
        · exact .inl hstaging
        · exact .inr (.inl hsettled)
        · rw [hidle] at hopen
          cases hopen
      keys := by
        intro digest hdigest
        obtain ⟨other, hother, key, hkey, hsha, hheld⟩ := h.accounted.keys digest hdigest
        refine ⟨other, hother, key, hkey, hsha, .inr (hheld.resolve_left ?_)⟩
        rw [hidle]
        exact nofun }

theorem Inv.stage (h : s.Inv settings) (hnew : ∀ other ∈ s.staged, other.uuid ≠ submission.uuid)
    (hdigests : ∀ other ∈ s.staged, TellsApart settings submission other) :
    ({ s with
      staging := s.staging ++ [submission]
      staged := s.staged ++ [submission] } : CollectorState Digest).Inv settings := by
  -- what was staged before has another uuid
  have hold {other : Submission} (hstaged : other ∈ s.staged) :
      other ∈ s.staging ++ [submission] ↔ other ∈ s.staging := by
    simp only [mem_append, mem_singleton, or_iff_left_iff_imp]
    rintro rfl
    exact absurd rfl (hnew _ hstaged)
  refine ⟨⟨?_, ?_, ?_, h.filed.assigned⟩, ?_, ?_, ?_, ?_⟩
  · intro a ha b hb huuid
    rcases mem_append.mp ha with ha | ha <;> rcases mem_append.mp hb with hb | hb
    · exact h.filed.distinct a ha b hb huuid
    · rw [mem_singleton.mp hb] at huuid
      exact absurd huuid (hnew a ha)
    · rw [mem_singleton.mp ha] at huuid
      exact absurd huuid.symm (hnew b hb)
    · rw [mem_singleton.mp ha, mem_singleton.mp hb]
  · intro other hother
    rcases mem_append.mp hother with hin | hin
    · exact mem_append_left _ (h.filed.staging other hin)
    · exact mem_append_right _ hin
  · intro other hother
    obtain ⟨hstaged, hgone⟩ := h.filed.incoming other hother
    exact ⟨mem_append_left _ hstaged, fun hin => hgone ((hold hstaged).mp hin)⟩
  · intro a ha b hb
    rcases mem_append.mp ha with ha | ha <;> rcases mem_append.mp hb with hb | hb
    · exact h.digests a ha b hb
    · rw [mem_singleton.mp hb]
      exact fun hsame => (hdigests a ha hsame.symm).symm
    · rw [mem_singleton.mp ha]
      exact hdigests b hb
    · rw [mem_singleton.mp ha, mem_singleton.mp hb]
      exact fun _ => rfl
  · have hat := h.point
    show AtPoint settings _ s.point
    cases hpoint : s.point with
    | idle => trivial
    | checking _ | moving _ =>
      rw [hpoint] at hat
      exact mem_append_left _ hat
    | marking _ _ =>
      rw [hpoint] at hat
      exact ⟨mem_append_left _ hat.1, hat.2⟩
    | inserting _ =>
      rw [hpoint] at hat
      exact ⟨mem_append_left _ hat.1, fun hin => hat.2 ((hold hat.1).mp hin)⟩
    | assigning _ _ _ =>
      rw [hpoint] at hat
      obtain ⟨⟨hstaged, hgone⟩, hrest⟩ := hat
      exact ⟨⟨mem_append_left _ hstaged, fun hin => hgone ((hold hstaged).mp hin)⟩, hrest⟩
  · intro other hother
    rcases mem_append.mp hother with hstaged | hlast
    · rcases h.accounted.submissions other hstaged with hin | hsettled | hopen
      · exact .inl (mem_append_left _ hin)
      · exact .inr (.inl hsettled)
      · exact .inr (.inr hopen)
    · exact .inl (mem_append_right _ hlast)
  · intro digest hdigest
    obtain ⟨other, hother, key, hkey, hsha, hheld⟩ := h.accounted.keys digest hdigest
    refine ⟨other, mem_append_left _ hother, key, hkey, hsha, hheld.imp id fun hrow => ?_⟩
    exact ⟨fun hin => hrow.1 ((hold hother).mp hin), hrow.2⟩

theorem Inv.discard (h : s.Inv settings) (hpoint : s.point = .checking submission)
    {key : String} (hkey : submission.dedupKey = some key)
    (hmarked : settings.sha256Str key ∈ s.persistentKeys) :
    ({ s.unstage submission with
      discarded := s.discarded ++ [submission]
      point := .idle } : CollectorState Digest).Inv settings := by
  have hstaging : submission ∈ s.staging := by
    have hat := h.point
    rw [hpoint] at hat
    exact hat
  have hstaged := h.filed.staging submission hstaging
  have hunstaged : (s.unstage submission).Filed := h.filed.unstage
  have hnone : s.point.scheduling? = none := by rw [hpoint]; rfl
  -- the marked key belongs to another submission, whose row is complete
  have hother : ∃ other, other.uuid ≠ submission.uuid ∧ other.dedupKey = submission.dedupKey ∧
      HasRow settings s.tables other := by
    obtain ⟨other, hother, key', hkey', hsha, hheld⟩ := h.accounted.keys _ hmarked
    rw [hnone] at hheld
    obtain ⟨hgone, hrow⟩ := hheld.resolve_left nofun
    refine ⟨other, fun huuid => ?_, ?_, hrow⟩
    · exact hgone (h.filed.distinct other hother submission hstaged huuid ▸ hstaging)
    · apply h.digests other hother submission hstaged
      rw [hkey', hkey, Option.map_some, Option.map_some, hsha]
  refine ⟨⟨hunstaged.distinct, hunstaged.staging, hunstaged.incoming, hunstaged.assigned⟩,
    h.digests, trivial, ?_, ?_⟩
  · intro other' hother'
    by_cases heq : other' = submission
    · subst heq
      obtain ⟨other, hne, hsame, hrow⟩ := hother
      refine .inr (.inl (.inr (.inr ⟨?_, other, hne, hsame, hrow⟩)))
      exact mem_append_right _ (mem_singleton_self _)
    · rcases h.accounted.submissions other' hother' with hin | hsettled | hopen
      · exact .inl ((mem_unstage h.filed hstaged hother').mpr ⟨hin, heq⟩)
      · exact .inr (.inl (hsettled.mono (growsTo_refl _) (List.Subset.refl _)
          (subset_append_left _ _)))
      · rw [hnone] at hopen
        cases hopen
  · intro digest hdigest
    obtain ⟨other', hother', key', hkey', hsha, hheld⟩ := h.accounted.keys digest hdigest
    rw [hnone] at hheld
    obtain ⟨hgone, hrow⟩ := hheld.resolve_left nofun
    exact ⟨other', hother', key', hkey', hsha, .inr ⟨notMem_of_notMem_staging hgone, hrow⟩⟩

theorem Inv.mark (h : s.Inv settings) {key : String} (hpoint : s.point = .marking submission key) :
    ({ s with
      persistentKeys := s.persistentKeys ++ [settings.sha256Str key]
      point := .moving submission } : CollectorState Digest).Inv settings := by
  have hat := h.point
  rw [hpoint] at hat
  obtain ⟨hstaging, hkey⟩ := hat
  have hnone : s.point.scheduling? = none := by rw [hpoint]; rfl
  have hmoved : ({ s with point := .moving submission } : CollectorState Digest).Inv settings :=
    h.goTo hstaging hnone
  refine ⟨⟨h.filed.distinct, h.filed.staging, h.filed.incoming, h.filed.assigned⟩, h.digests,
    hstaging, hmoved.accounted.submissions, ?_⟩
  intro digest hdigest
  rcases mem_append.mp hdigest with hold | hnew
  · exact hmoved.accounted.keys digest hold
  · rw [mem_singleton.mp hnew]
    exact ⟨submission, h.filed.staging _ hstaging, key, hkey, rfl, .inl rfl⟩

theorem Inv.move (h : s.Inv settings) (hpoint : s.point = .moving submission) :
    ({ s.unstage submission with
      incoming := s.incoming ++ [submission]
      point := .inserting submission } : CollectorState Digest).Inv settings := by
  have hstaging : submission ∈ s.staging := by
    have hat := h.point
    rw [hpoint] at hat
    exact hat
  have hstaged := h.filed.staging submission hstaging
  have hunstaged : (s.unstage submission).Filed := h.filed.unstage
  have hgone : submission ∉ (s.unstage submission).staging :=
    fun hmem => ((mem_unstage h.filed hstaged hstaged).mp hmem).2 rfl
  have hscheduling : s.point.scheduling? = some submission := by rw [hpoint]; rfl
  refine ⟨⟨hunstaged.distinct, hunstaged.staging, ?_, hunstaged.assigned⟩, h.digests,
    ⟨hstaged, hgone⟩, ?_, ?_⟩
  · intro other hother
    rcases mem_append.mp hother with hold | hnew
    · exact hunstaged.incoming other hold
    · rw [mem_singleton.mp hnew]
      exact ⟨hstaged, hgone⟩
  · intro other hother
    by_cases heq : other = submission
    · exact .inr (.inr (by rw [heq]; rfl))
    · rcases h.accounted.submissions other hother with hin | hsettled | hopen
      · exact .inl ((mem_unstage h.filed hstaged hother).mpr ⟨hin, heq⟩)
      · exact .inr (.inl (hsettled.mono (growsTo_refl _) (List.Subset.refl _)
          (List.Subset.refl _)))
      · rw [hscheduling] at hopen
        exact absurd (Option.some.inj hopen).symm heq
  · intro digest hdigest
    obtain ⟨other, hother, key, hkey, hsha, hheld⟩ := h.accounted.keys digest hdigest
    refine ⟨other, hother, key, hkey, hsha, ?_⟩
    rcases hheld with hopen | hrow
    · rw [hscheduling] at hopen
      exact .inl hopen
    · exact .inr ⟨notMem_of_notMem_staging hrow.1, hrow.2⟩

theorem Inv.grow (h : s.Inv settings) {tables : CollectionTables} (hgrows : GrowsTo s.tables tables)
    (hassigned : ∀ entry ∈ tables.workDistribution, entry.workId < tables.incomingWorkload.nextId)
    {p : SchedulingPoint}
    (hpoint : ({ s with tables := tables } : CollectorState Digest).AtPoint settings p)
    (hsame : p.scheduling? = s.point.scheduling?) :
    ({ s with tables := tables, point := p } : CollectorState Digest).Inv settings where
  filed := ⟨h.filed.distinct, h.filed.staging, h.filed.incoming, hassigned⟩
  digests := h.digests
  point := by cases p <;> exact hpoint
  accounted :=
    { submissions := by
        intro other hother
        rcases h.accounted.submissions other hother with hin | hsettled | hopen
        · exact .inl hin
        · exact .inr (.inl (hsettled.mono hgrows (List.Subset.refl _) (List.Subset.refl _)))
        · exact .inr (.inr (hsame.trans hopen))
      keys := by
        intro digest hdigest
        obtain ⟨other, hother, key, hkey, hsha, hheld⟩ := h.accounted.keys digest hdigest
        refine ⟨other, hother, key, hkey, hsha, ?_⟩
        exact hheld.imp hsame.trans fun hrow => ⟨hrow.1, hrow.2.mono hgrows⟩ }

theorem Inv.insert (h : s.Inv settings) (hpoint : s.point = .inserting submission) :
    ({ s with
      tables := (s.tables.insertWorkload (rowOf submission)).1
      point := .assigning submission s.tables.incomingWorkload.nextId
        (settings.remoteNodeGroups.determineTargetGroups submission) } :
          CollectorState Digest).Inv settings := by
  have hat := h.point
  rw [hpoint] at hat
  refine h.grow (growsTo_insertWorkload _ _) ?_ ⟨hat, ?_, [], rfl, nofun, ?_⟩ (by rw [hpoint]; rfl)
  · intro entry hentry
    exact Nat.lt_succ_of_lt (h.filed.assigned entry hentry)
  · exact Table.mem_rows_insert.mpr (.inr rfl)
  · intro group _ hassigned
    obtain ⟨entry, hentry, hid, -⟩ := CollectionTables.isAssigned_iff.mp hassigned
    exact Nat.lt_irrefl _ (hid ▸ h.filed.assigned entry hentry)

theorem Inv.assign (h : s.Inv settings) {workId : Nat} {group : NodeGroup}
    {remaining : List NodeGroup}
    (hpoint : s.point = .assigning submission workId (group :: remaining)) :
    ∃ tables, s.tables.assignWorkToGroup workId group.groupId = some tables ∧
      ({ s with tables := tables, point := .assigning submission workId remaining } :
        CollectorState Digest).Inv settings := by
  have hat := h.point
  rw [hpoint] at hat
  obtain ⟨hgone, hrow, assigned, htargets, hassigned, hfree⟩ := hat
  have hthere : s.tables.incomingWorkload.hasId workId := Table.hasId_iff.mpr ⟨_, hrow⟩
  have hnodup := settings.remoteNodeGroups.nodup_targets submission
  rw [htargets, map_append, map_cons, nodup_append] at hnodup
  have hhead : group.groupId ∉ remaining.map (·.groupId) := (nodup_cons.mp hnodup.2.1).1
  refine ⟨_, CollectionTables.exists_assignWorkToGroup hthere (hfree group mem_cons_self), ?_⟩
  refine h.grow (growsTo_append _ _) ?_ ⟨hgone, hrow, assigned ++ [group], ?_, ?_, ?_⟩
    (by rw [hpoint]; rfl)
  · intro entry hentry
    rcases mem_append.mp hentry with hold | hnew
    · exact h.filed.assigned entry hold
    · rw [mem_singleton.mp hnew]
      exact s.tables.incomingWorkload.id_lt _ hrow
  · rw [htargets, append_assoc, singleton_append]
  · intro target htarget
    apply CollectionTables.isAssigned_iff.mpr
    rcases mem_append.mp htarget with hold | hnew
    · obtain ⟨entry, hentry, hids⟩ := CollectionTables.isAssigned_iff.mp (hassigned target hold)
      exact ⟨entry, mem_append_left _ hentry, hids⟩
    · rw [mem_singleton.mp hnew]
      exact ⟨_, mem_append_right _ (mem_singleton_self _), rfl, rfl⟩
  · intro target htarget hnow
    obtain ⟨entry, hentry, hid, hgroup⟩ := CollectionTables.isAssigned_iff.mp hnow
    rcases mem_append.mp hentry with hold | hnew
    · apply hfree target (mem_cons_of_mem _ htarget)
      exact CollectionTables.isAssigned_iff.mpr ⟨entry, hold, hid, hgroup⟩
    · rw [mem_singleton.mp hnew] at hgroup
      have hgroup : group.groupId = target.groupId := hgroup
      rw [hgroup] at hhead
      exact hhead (mem_map_of_mem htarget)

theorem Inv.fail (h : s.Inv settings) (hclosed : ¬ s.point.isOpen)
    (hsubmission : s.point.submission? = some submission) :
    (s.fail submission true).Inv settings := by
  -- the submission is staged, or its row is complete and its directory is gone
  have hstaging : submission ∈ s.staging ∨ s.staging.any (·.uuid = submission.uuid) = false := by
    have hat := h.point
    cases hpoint : s.point with
    | idle => rw [hpoint] at hsubmission; cases hsubmission
    | checking _ | moving _ =>
      rw [hpoint] at hsubmission hat
      cases hsubmission
      exact .inl hat
    | marking _ _ =>
      rw [hpoint] at hsubmission hat
      cases hsubmission
      exact .inl hat.1
    | inserting _ => exact absurd rfl (hpoint ▸ hclosed)
    | assigning _ _ _ =>
      rw [hpoint] at hsubmission hat
      cases hsubmission
      obtain ⟨hstaged, hgone⟩ := hat.1
      refine .inr (any_eq_false.mpr fun other hother huuid => hgone ?_)
      rw [← h.filed.distinct other (h.filed.staging other hother) submission hstaged
        (by simpa using huuid)]
      exact hother
  have hidle := h.giveUp hclosed s.pending
  have hquarantined := hidle.quarantine rfl hstaging
  have heq : s.fail submission true =
      ({ s with point := .idle } : CollectorState Digest).quarantine submission true := by
    unfold CollectorState.fail CollectorState.quarantine
    split <;> rfl
  rw [heq]
  exact hquarantined

variable [DecidableEq Digest]

theorem Inv.proceed (h : s.Inv settings) : (s.proceed settings).Inv settings := by
  have hat := h.point
  unfold CollectorState.proceed
  cases hpoint : s.point with
  | idle => exact h
  | checking submission =>
    rw [hpoint] at hat
    have hnone : s.point.scheduling? = none := by rw [hpoint]; rfl
    cases hkey : submission.dedupKey with
    | none =>
      simp only [hkey]
      exact h.goTo hat hnone
    | some key =>
      simp only [hkey]
      split
      next hmarked => exact h.discard hpoint hkey hmarked
      next => exact h.goTo ⟨hat, hkey⟩ hnone
  | marking submission key => exact h.mark hpoint
  | moving submission =>
    rw [hpoint] at hat
    have hfree : s.incoming.any (·.uuid = submission.uuid) = false := by
      refine any_eq_false.mpr fun other hother huuid => ?_
      obtain ⟨hstaged, hgone⟩ := h.filed.incoming other hother
      have heq := h.filed.distinct other hstaged submission (h.filed.staging _ hat)
        (by simpa using huuid)
      exact hgone (heq ▸ hat)
    simp only [hfree, Bool.false_eq_true, if_false]
    exact h.move hpoint
  | inserting submission => exact h.insert hpoint
  | assigning submission workId remaining =>
    cases remaining with
    | nil =>
      have hclosed : ¬ s.point.isOpen := by rw [hpoint]; simp [SchedulingPoint.isOpen]
      exact h.giveUp hclosed s.pending
    | cons group remaining =>
      obtain ⟨tables, hassign, hinv⟩ := h.assign hpoint
      simp only [hassign]
      exact hinv

theorem Inv.step (h : s.Inv settings) (event : CollectorEvent Digest)
    (hevent : s.Uninterrupted settings event) :
    (s.step settings event).Inv settings := by
  cases event with
  | stage submission =>
    simp only [CollectorState.step]
    split
    · exact h
    next hnew =>
      have hnew : ∀ other ∈ s.staged, other.uuid ≠ submission.uuid := by simpa using hnew
      exact h.stage hnew hevent
  | list uuids =>
    simp only [CollectorState.step]
    split
    next hpoint hpending =>
      refine ⟨⟨h.filed.distinct, h.filed.staging, h.filed.incoming, h.filed.assigned⟩, h.digests,
        ?_, h.accounted.submissions, h.accounted.keys⟩
      show AtPoint settings _ s.point
      rw [hpoint]
      trivial
    · exact h
  | load readable movable =>
    simp only [CollectorState.step]
    split
    next uuid pending hpoint hpending =>
      have hclosed : ¬ s.point.isOpen := by rw [hpoint]; simp [SchedulingPoint.isOpen]
      have hinv := h.giveUp hclosed pending
      have heq : ({ s with point := .idle, pending := pending } : CollectorState Digest) =
          { s with pending := pending } := by rw [← hpoint]
      rw [heq] at hinv
      cases hfind : s.staging.find? (·.uuid = uuid) with
      | none => exact hinv
      | some submission =>
        have hstaging := List.mem_of_find?_eq_some hfind
        simp only
        split
        · exact hinv.goTo hstaging (by show s.point.scheduling? = none; rw [hpoint]; rfl)
        next hunreadable =>
          obtain rfl : movable = true := hevent.resolve_left hunreadable
          exact hinv.quarantine hpoint (.inl hstaging)
    · exact h
  | proceed result =>
    cases result with
    | done => exact h.proceed
    | raised movable =>
      obtain ⟨rfl, hclosed⟩ := hevent
      simp only [CollectorState.step]
      split
      · exact h
      next submission hsubmission => exact h.fail hclosed hsubmission
  | stop =>
    simp only [CollectorState.step]
    split
    next hpoint =>
      have hclosed : ¬ s.point.isOpen := by rw [hpoint]; simp [SchedulingPoint.isOpen]
      have hinv := h.giveUp hclosed []
      rw [← hpoint] at hinv
      exact hinv
    · exact h
  | crash => exact h.giveUp hevent []
  | clearExpired expired =>
    refine ⟨⟨h.filed.distinct, h.filed.staging, h.filed.incoming, h.filed.assigned⟩, h.digests, ?_,
      h.accounted.submissions, ?_⟩
    · have hat := h.point
      simp only [CollectorState.step]
      cases hpoint : s.point <;> rw [hpoint] at hat <;> exact hat
    · intro digest hdigest
      exact h.accounted.keys digest (mem_of_mem_filter hdigest)

end CollectorState

end Ace3.Collectors
