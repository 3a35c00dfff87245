import Ace3.Collectors.CrashRecovery

/-!
# Every Staged Submission Is Settled

Left alone, a collector comes to rest, and then every submission ever staged has its row, or is in
the error directory, or was discarded for another one. This holds from every state that is reached
without interrupting the scheduling of a submission, and it fails in each of the two windows in
which a crash interrupts one.
-/

namespace Ace3.Collectors

open List
open Lib Lib.Runs

/-- What a collector does by itself: it lists, loads, and goes on. -/
def CollectorEvent.IsUndisturbed {Digest : Type} : CollectorEvent Digest → Prop
  | .list _ | .load true _ | .proceed .done => True
  | _ => False

/-- The number of effects up to the end of a submission. -/
def SchedulingPoint.cost (remoteNodeGroups : RemoteNodeGroups) : SchedulingPoint → Nat
  | .idle => 0
  | .checking submission => (remoteNodeGroups.determineTargetGroups submission).length + 5
  | .marking submission _ => (remoteNodeGroups.determineTargetGroups submission).length + 4
  | .moving submission => (remoteNodeGroups.determineTargetGroups submission).length + 3
  | .inserting submission => (remoteNodeGroups.determineTargetGroups submission).length + 2
  | .assigning _ _ remaining => remaining.length + 1

namespace CollectorState

variable {Digest : Type} {settings : CollectorSettings Digest}
  {s t u : CollectorState Digest} {submission : Submission}

/-! ## §1 Undisturbed steps -/

theorem uninterrupted_of_isUndisturbed {event : CollectorEvent Digest}
    (h : event.IsUndisturbed) : s.Uninterrupted settings event := by
  cases event with
  | load readable movable =>
    cases readable with
    | true => exact .inl rfl
    | false => exact h.elim
  | proceed result =>
    cases result with
    | done => trivial
    | raised movable => exact h.elim
  | crash => exact h.elim
  | _ => trivial

theorem notMem_unstage : submission ∉ (s.unstage submission).staging := by
  simp [unstage]

/-- What one effect leaves of the submission that is processed. -/
structure Advances (settings : CollectorSettings Digest) (submission : Submission)
    (s t : CollectorState Digest) : Prop where
  cost : t.point.cost settings.remoteNodeGroups < s.point.cost settings.remoteNodeGroups
  pending : t.pending = s.pending
  staged : t.staged = s.staged
  staging : ∀ other ∈ t.staging, other ∈ s.staging
  point : t.point.submission? = some submission ∨ t.point = .idle ∧ submission ∉ t.staging

theorem advances_fail (movable : Bool)
    (hcost : 0 < s.point.cost settings.remoteNodeGroups) :
    Advances settings submission s (s.fail submission movable) := by
  cases hthere : s.staging.any (·.uuid = submission.uuid) with
  | false =>
    have hgone : submission ∉ s.staging := fun hmem =>
      any_eq_false.mp hthere submission hmem (by simp)
    have heq : s.fail submission movable = { s with point := .idle } := by
      simp only [fail, quarantine, hthere, Bool.false_eq_true, if_false]
    rw [heq]
    exact ⟨hcost, rfl, rfl, fun _ hmem => hmem, .inr ⟨rfl, hgone⟩⟩
  | true =>
    cases movable <;>
    · simp only [fail, quarantine, hthere, if_true, Bool.false_eq_true, if_false]
      exact ⟨hcost, rfl, rfl, fun _ hmem => mem_of_mem_filter hmem,
        .inr ⟨rfl, notMem_unstage⟩⟩

variable [DecidableEq Digest]

/-- The collector gets from one state to the other by itself, nothing being staged. -/
structure Proceeds (settings : CollectorSettings Digest) (s t : CollectorState Digest) : Prop where
  run : ∃ more : List (CollectorEvent Digest), (∀ event ∈ more, event.IsUndisturbed) ∧
    more.foldl (step settings) s = t
  inv : t.Inv settings
  staged : t.staged = s.staged
  staging : ∀ submission ∈ t.staging, submission ∈ s.staging

theorem Proceeds.refl (h : s.Inv settings) : Proceeds settings s s :=
  ⟨⟨[], nofun, rfl⟩, h, rfl, fun _ hmem => hmem⟩

theorem Proceeds.trans (hst : Proceeds settings s t) (htu : Proceeds settings t u) :
    Proceeds settings s u := by
  obtain ⟨first, hfirst, rfl⟩ := hst.run
  obtain ⟨second, hsecond, rfl⟩ := htu.run
  refine ⟨⟨first ++ second, ?_, foldl_append⟩, htu.inv, htu.staged.trans hst.staged, ?_⟩
  · intro event hevent
    exact (mem_append.mp hevent).elim (hfirst event) (hsecond event)
  · exact fun submission hmem => hst.staging submission (htu.staging submission hmem)

theorem Proceeds.single (h : s.Inv settings)
    (event : CollectorEvent Digest) (hevent : event.IsUndisturbed)
    (hstaged : (s.step settings event).staged = s.staged)
    (hstaging : ∀ submission ∈ (s.step settings event).staging, submission ∈ s.staging) :
    Proceeds settings s (s.step settings event) where
  run := ⟨[event], by simpa using hevent, rfl⟩
  inv := h.step event (uninterrupted_of_isUndisturbed hevent)
  staged := hstaged
  staging := hstaging

/-! ## §2 Coming to rest -/

/-- Each effect brings the submission nearer to its end, and at the end it is not staged. -/
theorem advances_proceed (h : s.Inv settings) (hsubmission : s.point.submission? = some submission) :
    Advances settings submission s (s.proceed settings) := by
  have hat := h.point
  unfold CollectorState.proceed
  cases hpoint : s.point with
  | idle => rw [hpoint] at hsubmission; cases hsubmission
  | checking submission' =>
    rw [hpoint] at hsubmission
    cases hsubmission
    cases hkey : submission.dedupKey with
    | none =>
      simp only [hkey]
      exact ⟨by rw [hpoint]; simp [SchedulingPoint.cost], rfl, rfl, fun _ hmem => hmem, .inl rfl⟩
    | some key =>
      simp only [hkey]
      split
      · exact ⟨by rw [hpoint]; simp [SchedulingPoint.cost], rfl, rfl,
          fun _ hmem => mem_of_mem_filter hmem, .inr ⟨rfl, notMem_unstage⟩⟩
      · exact ⟨by rw [hpoint]; simp [SchedulingPoint.cost], rfl, rfl, fun _ hmem => hmem, .inl rfl⟩
  | marking submission' key =>
    rw [hpoint] at hsubmission
    cases hsubmission
    exact ⟨by rw [hpoint]; simp [SchedulingPoint.cost], rfl, rfl, fun _ hmem => hmem, .inl rfl⟩
  | moving submission' =>
    rw [hpoint] at hsubmission
    cases hsubmission
    simp only
    split
    · exact advances_fail true (by rw [hpoint]; simp [SchedulingPoint.cost])
    · exact ⟨by rw [hpoint]; simp [SchedulingPoint.cost], rfl, rfl,
        fun _ hmem => mem_of_mem_filter hmem, .inl rfl⟩
  | inserting submission' =>
    rw [hpoint] at hsubmission
    cases hsubmission
    exact ⟨by rw [hpoint]; simp [SchedulingPoint.cost], rfl, rfl, fun _ hmem => hmem, .inl rfl⟩
  | assigning submission' workId remaining =>
    rw [hpoint] at hsubmission hat
    cases hsubmission
    cases remaining with
    | nil =>
      exact ⟨by rw [hpoint]; simp [SchedulingPoint.cost], rfl, rfl, fun _ hmem => hmem,
        .inr ⟨rfl, hat.1.2⟩⟩
    | cons group remaining =>
      simp only
      split
      · exact advances_fail true (by rw [hpoint]; simp [SchedulingPoint.cost])
      · exact ⟨by rw [hpoint]; simp [SchedulingPoint.cost], rfl, rfl, fun _ hmem => hmem, .inl rfl⟩

theorem exists_finished (h : s.Inv settings)
    (hsubmission : s.point.submission? = some submission) :
    ∃ t, Proceeds settings s t ∧ t.point = .idle ∧ t.pending = s.pending ∧
      submission ∉ t.staging := by
  -- by induction on the number of effects that are left
  induction hcost : s.point.cost settings.remoteNodeGroups using Nat.strongRecOn
    generalizing s with
  | _ n ih =>
    have hadvances := advances_proceed h hsubmission
    have hfirst : Proceeds settings s (s.proceed settings) :=
      Proceeds.single h (.proceed .done) trivial hadvances.staged
        hadvances.staging
    rcases hadvances.point with hsame | ⟨hidle, hgone⟩
    · obtain ⟨t, hrest, hidle, hpending, hgone⟩ :=
        ih _ (hcost ▸ hadvances.cost) hfirst.inv hsame rfl
      exact ⟨t, hfirst.trans hrest, hidle, hpending.trans hadvances.pending, hgone⟩
    · exact ⟨_, hfirst, hidle, hadvances.pending, hgone⟩

theorem exists_idle (h : s.Inv settings) :
    ∃ t, Proceeds settings s t ∧ t.point = .idle ∧ t.pending = s.pending := by
  cases hsubmission : s.point.submission? with
  | some submission =>
    obtain ⟨t, hproceeds, hidle, hpending, -⟩ := exists_finished h hsubmission
    exact ⟨t, hproceeds, hidle, hpending⟩
  | none =>
    have hidle : s.point = .idle := by
      cases hpoint : s.point with
      | idle => rfl
      | _ => rw [hpoint] at hsubmission; cases hsubmission
    exact ⟨s, .refl h, hidle, rfl⟩

theorem exists_passed (h : s.Inv settings)
    (hidle : s.point = .idle) :
    ∃ t, Proceeds settings s t ∧ t.point = .idle ∧ t.pending = [] ∧
      ∀ submission ∈ t.staging, submission.uuid ∉ s.pending := by
  induction hlisted : s.pending generalizing s with
  | nil => exact ⟨s, .refl h, hidle, hlisted, fun _ _ => not_mem_nil⟩
  | cons uuid pending ih =>
    -- after the first uuid the thread is idle, and no staged submission has that uuid
    have hfirst : ∃ t, Proceeds settings s t ∧ t.point = .idle ∧ t.pending = pending ∧
        ∀ submission ∈ t.staging, submission.uuid ≠ uuid := by
      cases hfind : s.staging.find? (·.uuid = uuid) with
      | none =>
        have hloaded : s.step settings (.load true true) = { s with pending := pending } := by
          simp only [CollectorState.step, hidle, hlisted, hfind]
        have hload := Proceeds.single h (.load true true) trivial
          (by rw [hloaded]) (by rw [hloaded]; exact fun _ hmem => hmem)
        rw [hloaded] at hload
        refine ⟨_, hload, hidle, rfl, fun submission hmem huuid => ?_⟩
        exact List.find?_eq_none.mp hfind submission hmem (by simpa using huuid)
      | some submission =>
        have hloaded : s.step settings (.load true true) =
            { s with pending := pending, point := .checking submission } := by
          simp only [CollectorState.step, hidle, hlisted, hfind]
          rfl
        have hload := Proceeds.single h (.load true true) trivial
          (by rw [hloaded]) (by rw [hloaded]; exact fun _ hmem => hmem)
        rw [hloaded] at hload
        obtain ⟨t, hproceeds, hidle', hpending, hgone⟩ :=
          exists_finished hload.inv rfl
        refine ⟨t, hload.trans hproceeds, hidle', hpending, fun other hother huuid => ?_⟩
        have hstaged (x : Submission) (hx : x ∈ s.staging) := h.filed.staging x hx
        have hfound : submission.uuid = uuid := by simpa using List.find?_some hfind
        have hsame : other = submission := by
          apply h.filed.distinct
          · exact hstaged _ ((hload.trans hproceeds).staging other hother)
          · exact hstaged _ (List.mem_of_find?_eq_some hfind)
          · exact huuid.trans hfound.symm
        exact hgone (hsame ▸ hother)
    obtain ⟨t, hst, hidle', hpending, hfree⟩ := hfirst
    obtain ⟨u, htu, hidle'', hdone, hrest⟩ := ih hst.inv hidle' hpending
    refine ⟨u, hst.trans htu, hidle'', hdone, fun submission hmem hin => ?_⟩
    rcases mem_cons.mp hin with huuid | hin
    · exact hfree submission (htu.staging submission hmem) huuid
    · exact hrest submission hmem hin

theorem exists_atRest (h : s.Inv settings) :
    ∃ t, Proceeds settings s t ∧ t.AtRest := by
  obtain ⟨a, hsa, hidle, -⟩ := exists_idle h
  obtain ⟨b, hab, hidle, hempty, -⟩ := exists_passed hsa.inv hidle
  -- a pass over everything that is staged
  have hlisted : b.step settings (.list (b.staging.map (·.uuid))) =
      { b with pending := (b.staging.map (·.uuid)).filter fun uuid =>
          b.staging.any (·.uuid = uuid) } := by
    simp only [CollectorState.step, hidle, hempty]
  have hbc := Proceeds.single hab.inv (.list (b.staging.map (·.uuid))) trivial
    (by rw [hlisted]) (by rw [hlisted]; exact fun _ hmem => hmem)
  rw [hlisted] at hbc
  obtain ⟨d, hcd, hidle, hempty, hgone⟩ := exists_passed hbc.inv hidle
  refine ⟨d, hsa.trans (hab.trans (hbc.trans hcd)), hidle, hempty, ?_⟩
  apply eq_nil_iff_forall_not_mem.mpr
  intro submission hmem
  have hstaging : submission ∈ b.staging := hcd.staging submission hmem
  apply hgone submission hmem
  refine mem_filter.mpr ⟨mem_map_of_mem hstaging, ?_⟩
  exact any_eq_true.mpr ⟨submission, hstaging, by simp⟩

/-! ## §3 Every staged submission is settled -/

/-- In every run that interrupts the scheduling of no submission, each staged submission is settled
whenever the collector is at rest; and from wherever the run stops the collector can come to rest
by itself. -/
theorem staged_submissions_settle (settings : CollectorSettings Digest)
    (events : List (CollectorEvent Digest))
    (h : Along (step settings) (Uninterrupted settings) start events) :
    let s := events.foldl (step settings) start
    (s.AtRest → ∀ submission ∈ s.staged, Settled settings s submission) ∧
      ∃ more : List (CollectorEvent Digest), (∀ event ∈ more, event.IsUndisturbed) ∧
        let t := more.foldl (step settings) s
        t.AtRest ∧ t.staged = s.staged ∧ ∀ submission ∈ s.staged, Settled settings t submission := by
  have hinv : (events.foldl (step settings) start).Inv settings :=
    Along.invariant (Inv settings) (fun s event hs hevent => hs.step event hevent) inv_start h
  refine ⟨fun hrest submission hstaged => hinv.settled hrest hstaged, ?_⟩
  obtain ⟨t, hproceeds, hrest⟩ := exists_atRest hinv
  obtain ⟨more, hmore, rfl⟩ := hproceeds.run
  refine ⟨more, hmore, hrest, hproceeds.staged, fun submission hstaged => ?_⟩
  exact hproceeds.inv.settled hrest (hproceeds.staged ▸ hstaged)

/-! Two crashes. The keys are their own digests here, and there is one group. -/

def localSettings : CollectorSettings String :=
  ⟨id, ⟨[⟨"local", 1⟩], by simp⟩⟩

def keyed : Submission := ⟨"7d2e", "analysis", some "host-9", []⟩

def keyless : Submission := ⟨"81ac", "analysis", none, []⟩

/-- A pass over one submission, up to its first effect. -/
def pass (submission : Submission) : List (CollectorEvent String) :=
  [.list [submission.uuid], .load true true, .proceed .done]

/-- The process dies once the key is marked; the next pass finds a duplicate. -/
def crashAfterMark : List (CollectorEvent String) :=
  .stage keyed :: pass keyed ++ [.proceed .done, .crash] ++ pass keyed

def crashAfterMove : List (CollectorEvent String) :=
  .stage keyless :: pass keyless ++ [.proceed .done, .crash]

/-- The process dies before the key is marked, and the next pass schedules the submission. -/
def crashBeforeMark : List (CollectorEvent String) :=
  .stage keyed :: pass keyed ++ [.crash] ++ pass keyed ++ List.replicate 5 (.proceed .done)

theorem crashBeforeMark_settles :
    Settled localSettings (crashBeforeMark.foldl (step localSettings) start) keyed := by
  have huninterrupted : Along (step localSettings) (Uninterrupted localSettings) start
      crashBeforeMark := by
    simp only [crashBeforeMark, pass, cons_append, nil_append, List.replicate, along_cons,
      along_nil, Uninterrupted, and_true, true_and]
    exact ⟨fun _ h => absurd h not_mem_nil, .inl trivial, by decide, .inl trivial⟩
  have hrest : (crashBeforeMark.foldl (step localSettings) start).AtRest := ⟨rfl, rfl, rfl⟩
  exact (staged_submissions_settle localSettings crashBeforeMark huninterrupted).1 hrest keyed
    (mem_singleton_self _)

theorem not_settled_of_no_rows {s : CollectorState String}
    (hrows : s.tables.incomingWorkload.rows = []) (herror : s.error = []) :
    ¬ Settled localSettings s submission := by
  have hnone (other : Submission) : ¬ HasRow localSettings s.tables other := by
    rintro ⟨workId, hrow, -⟩
    rw [hrows] at hrow
    cases hrow
  rintro (hrow | hfiled | ⟨-, other, -, -, hrow⟩)
  · exact hnone _ hrow
  · rw [herror] at hfiled
    cases hfiled
  · exact hnone other hrow

def after (events : List (CollectorEvent String)) : CollectorState String :=
  events.foldl (step localSettings) start

/-- After either crash the collector is at rest, and the submission is lost. -/
theorem crash_loses_submission :
    ((after crashAfterMark).AtRest ∧ keyed ∈ (after crashAfterMark).staged ∧
      ¬ Settled localSettings (after crashAfterMark) keyed) ∧
    (after crashAfterMove).AtRest ∧ keyless ∈ (after crashAfterMove).staged ∧
      ¬ Settled localSettings (after crashAfterMove) keyless := by
  refine ⟨⟨⟨rfl, rfl, rfl⟩, mem_singleton_self _, ?_⟩,
    ⟨rfl, rfl, rfl⟩, mem_singleton_self _, ?_⟩
  · exact not_settled_of_no_rows rfl rfl
  · exact not_settled_of_no_rows rfl rfl

end CollectorState

end Ace3.Collectors
