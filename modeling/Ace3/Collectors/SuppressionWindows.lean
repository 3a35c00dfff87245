import Ace3.Collectors.HuntSuppression
import Mathlib.Tactic.SplitIfs

/-!
# The Suppression Windows of a Hunt

As long as no run of a hunt starts before the last one is over, and what a run has recorded is also
staged, a group has at most one alert in a suppression window, and nothing is suppressed without an
alert.
-/

namespace Ace3.Collectors

open List Function

namespace Hunting

open Lib.Runs

variable {γ : Type*} {c : Suppression} {s s' : Hunting γ} {n : Nat}

/-! ## §1 Alert times -/

def Owed (s : Hunting γ) (group : Option γ) : Prop :=
  ∃ n, (s.runs n).phase.hasRecorded ∧ group ∈ (s.runs n).submissions

/-- The times remember every alert until its window has passed, they come from alerts that are
staged or about to be, and they are not in the future. -/
structure Trusted (c : Suppression) (s : Hunting γ) (time : Option γ → Option Nat) : Prop where
  remembers : ∀ a ∈ s.staged, c.tracks a.group →
    a.alertTime + c.window ≤ s.clock ∨ ∃ t, time a.group = some t ∧ a.alertTime ≤ t
  justified : ∀ group t, c.tracks group → time group = some t →
    (∃ a ∈ s.staged, a.group = group ∧ t ≤ a.stagedTime) ∨ s.Owed group
  past : ∀ group t, time group = some t → t ≤ s.clock

variable {time : Option γ → Option Nat}

theorem Trusted.mono (h : Trusted c s time) (hstaged : s'.staged = s.staged)
    (hclock : s.clock ≤ s'.clock) (howed : ∀ group, c.tracks group → s.Owed group → s'.Owed group) :
    Trusted c s' time where
  remembers a ha htracks := by
    rw [hstaged] at ha
    exact (h.remembers a ha htracks).imp_left fun hpassed => Nat.le_trans hpassed hclock
  justified group t htracks ht := by
    rw [hstaged]
    exact (h.justified group t htracks ht).imp_right (howed group htracks)
  past group t ht := Nat.le_trans (h.past group t ht) hclock

variable {run : HuntRun γ} {group : Option γ}

theorem Owed.of_update (hruns : s'.runs = Function.update s.runs n run)
    (hkeep : (s.runs n).phase.hasRecorded →
      run.phase.hasRecorded ∧ run.submissions = (s.runs n).submissions)
    (h : s.Owed group) : s'.Owed group := by
  obtain ⟨k, hrecorded, hmem⟩ := h
  refine ⟨k, ?_⟩
  rw [hruns]
  by_cases hk : k = n
  · subst hk
    rw [update_self, (hkeep hrecorded).2]
    exact ⟨(hkeep hrecorded).1, hmem⟩
  · rw [update_of_ne hk]
    exact ⟨hrecorded, hmem⟩

def Elapsed (c : Suppression) (s : Hunting γ) (group : Option γ) : Prop :=
  ∀ a ∈ s.staged, a.group = group → a.alertTime + c.window ≤ s.clock

theorem Trusted.elapsed (h : Trusted c s time) (htracks : c.tracks group)
    (hfree : Hunt.isSuppressed c.window s.clock (time group) = false) : Elapsed c s group := by
  intro a ha hgroup
  rcases h.remembers a ha (hgroup ▸ htracks) with hpassed | ⟨t, ht, hle⟩
  · exact hpassed
  · rw [hgroup] at ht
    simp only [Hunt.isSuppressed, ht, decide_eq_false_iff_not, Nat.not_lt] at hfree
    omega

theorem Trusted.staged_of_suppressed (h : Trusted c s time) (htracks : c.tracks group)
    (hsuppressed : Hunt.isSuppressed c.window s.clock (time group)) :
    (∃ a ∈ s.staged, a.group = group ∧ s.clock < a.stagedTime + c.window) ∨ s.Owed group := by
  cases ht : time group with
  | none => simp [ht, Hunt.isSuppressed] at hsuppressed
  | some t =>
    simp only [ht, Hunt.isSuppressed, decide_eq_true_eq] at hsuppressed
    rcases h.justified group t htracks ht with ⟨a, ha, hgroup, hle⟩ | howed
    · exact .inl ⟨a, ha, hgroup, by omega⟩
    · exact .inr howed

theorem isActive_of_hasRecorded {phase : RunPhase γ} (h : phase.hasRecorded) : phase.isActive := by
  cases phase with
  | ended => cases h
  | _ => rfl

theorem setHunt_self (s : Hunting γ) (i : Nat) : s.setHunt i (s.hunts i) = s := by
  rw [setHunt, update_eq_self]

theorem isActive_of_phase {phase : RunPhase γ} (hphase : (s.runs n).phase = phase)
    (hactive : phase.isActive = true) : (s.runs n).phase.isActive := by
  rw [hphase]
  exact hactive

/-- What the suppression let pass has no alert in a window. -/
structure Checked (c : Suppression) (s : Hunting γ) (run : HuntRun γ) : Prop where
  ungrouped : c.grouped = false → ∀ group ∈ run.submissions, group = none
  elapsed : ∀ group ∈ run.submissions, c.tracks group → Elapsed c s group

def Distinct (c : Suppression) (groups : List (Option γ)) : Prop :=
  groups.Pairwise fun group group' => group = group' → c.tracks group → c.grouped = false

theorem checked_of_nil (h : run.submissions = []) : Checked c s run := by
  refine ⟨fun _ group hgroup => ?_, fun group hgroup => ?_⟩
  · rw [h] at hgroup
    cases hgroup
  · rw [h] at hgroup
    cases hgroup

theorem Checked.congr {run run' : HuntRun γ} (h : Checked c s run) (hstaged : s'.staged = s.staged)
    (hclock : s'.clock = s.clock) (hsubmissions : run'.submissions = run.submissions) :
    Checked c s' run' := by
  refine ⟨?_, ?_⟩
  · rw [hsubmissions]
    exact h.ungrouped
  · rw [hsubmissions]
    intro group hgroup htracks a ha
    rw [hstaged] at ha
    rw [hclock]
    exact h.elapsed group hgroup htracks a ha

theorem Distinct.append {groups : List (Option γ)} (h : Distinct c groups)
    (hnew : c.tracks group → group ∉ groups) : Distinct c (groups ++ [group]) := by
  apply pairwise_append.mpr ⟨h, pairwise_singleton _ _, ?_⟩
  intro group' hgroup' last hlast heq htracks
  rw [mem_singleton.mp hlast] at heq
  rw [heq] at htracks hgroup'
  exact absurd hgroup' (hnew htracks)

theorem tracks_ungrouped (hgrouped : c.grouped = false) :
    c.tracks group ↔ group = none := by
  cases group with
  | none => simp [Suppression.tracks, hgrouped]
  | some group => simp [Suppression.tracks, hgrouped]

theorem owed_of_recorded (hruns : s'.runs = Function.update s.runs n run)
    (hrecorded : run.phase.hasRecorded ∧ run.submissions = (s.runs n).submissions)
    (h : s.Owed group ∨ group ∈ (s.runs n).submissions) : s'.Owed group := by
  rcases h with hold | hnew
  · exact Owed.of_update hruns (fun _ => hrecorded) hold
  · refine ⟨n, ?_⟩
    rw [hruns, update_self]
    exact ⟨hrecorded.1, hrecorded.2 ▸ hnew⟩

variable [DecidableEq γ]

def timesOf (lastAlertTime : Option Nat) (lastAlertTimes : AList fun _ : γ => Nat) :
    Option γ → Option Nat
  | none => lastAlertTime
  | some group => lastAlertTimes.lookup group

def timeOnDisk (s : Hunting γ) : Option γ → Option Nat :=
  timesOf s.disk.lastAlertTime s.disk.lastAlertTimes

/-- The times as the object that the manager dispatches has them, or would load them. -/
def timeInMemory (s : Hunting γ) : Option γ → Option Nat :=
  timesOf ((s.hunts s.current).getLastAlertTime s.disk)
    ((s.hunts s.current).getLastAlertTimes s.disk)

theorem Trusted.combine {last last' : Option Nat} {times times' : AList fun _ : γ => Nat}
    (h : Trusted c s (timesOf last times)) (h' : Trusted c s (timesOf last' times')) :
    Trusted c s (timesOf last times') where
  remembers a ha htracks := by
    have hremembers := h.remembers a ha htracks
    have hremembers' := h'.remembers a ha htracks
    cases hgroup : a.group with
    | none => simpa only [hgroup, timesOf] using hremembers
    | some group => simpa only [hgroup, timesOf] using hremembers'
  justified group t htracks ht := by
    cases group with
    | none => exact h.justified none t htracks ht
    | some group => exact h'.justified (some group) t htracks ht
  past group t ht := by
    cases group with
    | none => exact h.past none t ht
    | some group => exact h'.past (some group) t ht

/-! ## §2 Phases -/

/-- The times have what the run is going to stage, until its window has passed. -/
def Carried (c : Suppression) (s : Hunting γ) (run : HuntRun γ) (time : Option γ → Option Nat) :
    Prop :=
  ∀ group ∈ run.submissions, c.tracks group →
    run.alertTime + c.window ≤ s.clock ∨ ∃ t, time group = some t ∧ run.alertTime ≤ t

/-- What the run is going to stage is apart from what is staged. -/
structure Recorded (c : Suppression) (s : Hunting γ) (n : Nat) (run : HuntRun γ) : Prop where
  past : run.submissions ≠ [] → run.alertTime ≤ s.clock
  distinct : Distinct c run.submissions
  apart : ∀ group ∈ run.submissions, c.tracks group → ∀ a ∈ s.staged, a.group = group →
    c.grouped = false ∧ a.run = n ∨ a.alertTime + c.window ≤ run.alertTime
  memory : Carried c s run s.timeInMemory

/-- The object of a grouped hunt knows that it has times to write. -/
structure Dirty (c : Suppression) (s : Hunting γ) (run : HuntRun γ) : Prop where
  grouped : c.grouped = true
  dirty : ∀ group ∈ run.submissions, c.tracks group → (s.hunts s.current).lastAlertTimesDirty

def RunLaw (c : Suppression) (s : Hunting γ) (n : Nat) (run : HuntRun γ) : Prop :=
  match run.phase with
  | .executing => run.submissions = [] ∧ (c.grouped = false → Elapsed c s none)
  | .filtering pending =>
    (c.grouped = false → pending = []) ∧ Distinct c (run.submissions ++ pending) ∧ Checked c s run
  | .postProcessing => Distinct c run.submissions ∧ Checked c s run
  | .recorded | .saving => Recorded c s n run ∧ Dirty c s run
  | .pruning keys =>
    Recorded c s n run ∧ Dirty c s run ∧
      ∀ key ∈ keys, ∀ t, s.timeInMemory (some key) = some t → t + c.window ≤ s.clock
  | .writing snapshot =>
    Recorded c s n run ∧ Carried c s run (timesOf s.disk.lastAlertTime snapshot) ∧
      Trusted c s (timesOf s.disk.lastAlertTime snapshot)
  | .cleaning | .staging => Recorded c s n run ∧ Carried c s run s.timeOnDisk
  | .ended => True

/-! ## §3 Invariant -/

/-- One run goes on at a time, on the object that the manager dispatches, and the times in memory
and on disk can be trusted. -/
structure Inv (c : Suppression) (s : Hunting γ) : Prop where
  fresh : ∀ n, s.nextRun ≤ n → (s.runs n).phase.isActive = false
  single : ∀ n k, (s.runs n).phase.isActive → (s.runs k).phase.isActive → n = k
  onCurrent : ∀ n, (s.runs n).phase.isActive → (s.runs n).hunt = s.current
  late : ∀ a ∈ s.staged, a.alertTime ≤ a.stagedTime ∧ a.stagedTime ≤ s.clock
  spaced : s.staged.Pairwise (Spaced c)
  memory : Trusted c s s.timeInMemory
  disk : Trusted c s s.timeOnDisk
  run : ∀ n, RunLaw c s n (s.runs n)

theorem runLaw_of_inactive (h : run.phase.isActive = false) :
    RunLaw c s n run := by
  cases hphase : run.phase with
  | ended => simp [RunLaw, hphase]
  | _ => simp [hphase, RunPhase.isActive] at h

theorem Inv.not_owed_of_idle (h : Inv c s) (hidle : s.Idle) (group : Option γ) :
    ¬ s.Owed group := by
  rintro ⟨n, hrecorded, -⟩
  have hactive := isActive_of_hasRecorded hrecorded
  rcases Nat.lt_or_ge n s.nextRun with hn | hn
  · rw [hidle n hn] at hactive
    cases hactive
  · rw [h.fresh n hn] at hactive
    cases hactive

theorem Inv.advance (h : Inv c s) (hn : (s.runs n).phase.isActive)
    (hruns : s'.runs = Function.update s.runs n run) (hhunt : run.hunt = (s.runs n).hunt)
    (hnext : s'.nextRun = s.nextRun) (hcurrent : s'.current = s.current)
    (hclock : s'.clock = s.clock) (hlate : ∀ a ∈ s'.staged, a.alertTime ≤ a.stagedTime ∧
      a.stagedTime ≤ s.clock) (hspaced : s'.staged.Pairwise (Spaced c))
    (hmemory : Trusted c s' s'.timeInMemory) (hdisk : Trusted c s' s'.timeOnDisk)
    (hlaw : RunLaw c s' n run) : Inv c s' := by
  have hother : ∀ k, k ≠ n → (s'.runs k).phase.isActive = false := by
    intro k hk
    rw [hruns, update_of_ne hk]
    by_contra hactive
    exact hk (h.single k n (Bool.of_not_eq_false hactive) hn)
  have hself : s'.runs n = run := by rw [hruns, update_self]
  refine ⟨?_, ?_, ?_, ?_, hspaced, hmemory, hdisk, ?_⟩
  · intro k hk
    apply hother k
    rintro rfl
    rw [hnext] at hk
    rw [h.fresh k hk] at hn
    cases hn
  · intro j k hj hk
    have hjn : j = n := by
      by_contra hne
      rw [hother j hne] at hj
      cases hj
    have hkn : k = n := by
      by_contra hne
      rw [hother k hne] at hk
      cases hk
    rw [hjn, hkn]
  · intro k hk
    by_cases hkn : k = n
    · rw [hkn, hself, hcurrent, hhunt]
      exact h.onCurrent n hn
    · rw [hother k hkn] at hk
      cases hk
  · rw [hclock]
    exact hlate
  · intro k
    by_cases hkn : k = n
    · rw [hkn, hself]
      exact hlaw
    · exact runLaw_of_inactive (hother k hkn)

theorem Inv.advance_of_same (h : Inv c s) (hn : (s.runs n).phase.isActive) {hunt : Hunt γ}
    (hhunt : run.hunt = (s.runs n).hunt)
    (htime : hunt.getLastAlertTime s.disk = (s.hunts s.current).getLastAlertTime s.disk)
    (htimes : hunt.getLastAlertTimes s.disk = (s.hunts s.current).getLastAlertTimes s.disk)
    (hkeep : (s.runs n).phase.hasRecorded →
      run.phase.hasRecorded ∧ run.submissions = (s.runs n).submissions)
    (hlaw : RunLaw c ((s.setHunt (s.runs n).hunt hunt).setRun n run) n run) :
    Inv c ((s.setHunt (s.runs n).hunt hunt).setRun n run) := by
  have hmemory : ((s.setHunt (s.runs n).hunt hunt).setRun n run).timeInMemory = s.timeInMemory := by
    show timesOf ((Function.update s.hunts (s.runs n).hunt hunt s.current).getLastAlertTime s.disk)
      ((Function.update s.hunts (s.runs n).hunt hunt s.current).getLastAlertTimes s.disk) = _
    rw [h.onCurrent n hn, update_self, htime, htimes]
    rfl
  have howed : ∀ group, c.tracks group → s.Owed group →
      ((s.setHunt (s.runs n).hunt hunt).setRun n run).Owed group :=
    fun _ _ => Owed.of_update rfl hkeep
  refine h.advance hn rfl hhunt rfl rfl rfl h.late h.spaced ?_ ?_ hlaw
  · rw [hmemory]
    exact h.memory.mono rfl le_rfl howed
  · exact h.disk.mono rfl le_rfl howed

theorem Inv.advance_run (h : Inv c s) (hn : (s.runs n).phase.isActive)
    (hhunt : run.hunt = (s.runs n).hunt)
    (hkeep : (s.runs n).phase.hasRecorded →
      run.phase.hasRecorded ∧ run.submissions = (s.runs n).submissions)
    (hlaw : RunLaw c (s.setRun n run) n run) : Inv c (s.setRun n run) := by
  have hsame : (s.setHunt (s.runs n).hunt (s.hunts (s.runs n).hunt)).setRun n run = s.setRun n run := by
    rw [setHunt_self]
  rw [← hsame] at hlaw ⊢
  apply h.advance_of_same hn hhunt _ _ hkeep hlaw
  · rw [h.onCurrent n hn]
  · rw [h.onCurrent n hn]

theorem processQueryResults_distinct (c : Suppression) (rows : List (Option (List γ))) :
    Distinct c (processQueryResults c.grouped rows) := by
  cases hgrouped : c.grouped with
  | false => exact pairwise_of_forall fun _ _ _ _ => hgrouped
  | true =>
    apply List.foldlRecOn rows _ List.Pairwise.nil
    intro submissions h row _
    cases row with
    | some targets =>
      apply List.foldlRecOn targets _ h
      intro submissions h target _
      show Distinct c (if some target ∈ submissions then _ else _)
      split_ifs with hmem
      · exact h
      · exact Distinct.append h fun _ => hmem
    | none =>
      apply Distinct.append h
      simp [Suppression.tracks, hgrouped]

theorem processQueryResults_ungrouped (rows : List (Option (List γ))) :
    ∀ group ∈ processQueryResults false rows, group = none := by
  apply List.foldlRecOn (motive := fun submissions => ∀ group ∈ submissions, group = none) rows
  · simp
  · intro submissions h row _ group hgroup
    rcases mem_append.mp hgroup with hold | hlast
    · exact h group hold
    · exact mem_singleton.mp hlast

theorem inv_queried (h : Inv c s) (rows : List (Option (List γ))) :
    Inv c (s.stepRun c (.queried n rows)) := by
  have hlaw := h.run n
  have hdistinct := processQueryResults_distinct c rows
  cases hphase : (s.runs n).phase with
  | executing =>
    have hn := isActive_of_phase hphase rfl
    simp only [RunLaw, hphase] at hlaw
    simp only [stepRun, hphase]
    by_cases hgrouped : c.grouped = true
    · rw [if_pos hgrouped]
      refine h.advance_run hn rfl (by simp [hphase, RunPhase.hasRecorded]) ⟨fun hfalse => ?_, ?_, ?_⟩
      · rw [hgrouped] at hfalse
        cases hfalse
      · rw [hlaw.1]
        exact hdistinct
      · exact checked_of_nil hlaw.1
    · rw [if_neg hgrouped]
      refine h.advance_run hn rfl (by simp [hphase, RunPhase.hasRecorded]) ⟨fun _ => rfl, ?_, ?_⟩
      · rw [append_nil]
        exact hdistinct
      · -- the hunt was not suppressed when it was dispatched
        have hfalse := eq_false_of_ne_true hgrouped
        have hnone := processQueryResults_ungrouped rows
        rw [← hfalse] at hnone
        refine ⟨fun _ => hnone, fun group hgroup _ => ?_⟩
        rw [hnone group hgroup]
        exact hlaw.2 hfalse
  | _ => simpa only [stepRun, hphase] using h

theorem inv_failed (h : Inv c s) : Inv c (s.stepRun c (.failed n)) := by
  have hlaw := h.run n
  cases hphase : (s.runs n).phase with
  | executing =>
    have hn := isActive_of_phase hphase rfl
    simp only [RunLaw, hphase] at hlaw
    simp only [stepRun, hphase]
    refine h.advance_run hn rfl (by simp [hphase, RunPhase.hasRecorded]) ⟨fun _ => rfl, ?_, ?_⟩
    · rw [hlaw.1]
      exact List.Pairwise.nil
    · exact checked_of_nil hlaw.1
  | _ => simpa only [stepRun, hphase] using h

theorem Inv.huntOf_eq (h : Inv c s) (hn : (s.runs n).phase.isActive) :
    s.huntOf n = s.hunts s.current := by
  rw [huntOf, h.onCurrent n hn]

theorem Inv.elapsed_of_not_drops (h : Inv c s) (hn : (s.runs n).phase.isActive)
    (hgrouped : c.grouped = true) {submission : Option γ}
    (hkept : s.drops c n submission = false) (htracks : c.tracks submission) :
    Elapsed c s submission := by
  cases submission with
  | none => simp [Suppression.tracks, hgrouped] at htracks
  | some group =>
    apply h.memory.elapsed htracks
    simp only [drops, hgrouped, Bool.true_and, isGroupSuppressed, h.huntOf_eq hn] at hkept
    exact hkept

theorem Inv.advance_loaded (h : Inv c s) (hn : (s.runs n).phase.isActive)
    (hhunt : run.hunt = (s.runs n).hunt)
    (hkeep : (s.runs n).phase.hasRecorded →
      run.phase.hasRecorded ∧ run.submissions = (s.runs n).submissions)
    (hlaw : RunLaw c ((s.loadTimes n).setRun n run) n run) :
    Inv c ((s.loadTimes n).setRun n run) :=
  h.advance_of_same hn hhunt (by rw [h.huntOf_eq hn]; rfl) (by rw [h.huntOf_eq hn]; rfl) hkeep hlaw

theorem inv_filter (h : Inv c s) : Inv c (s.stepRun c (.filter n)) := by
  have hlaw := h.run n
  cases hphase : (s.runs n).phase with
  | filtering pending =>
    have hn := isActive_of_phase hphase rfl
    have hvacuous : (s.runs n).phase.hasRecorded = false := by rw [hphase]; rfl
    simp only [RunLaw, hphase] at hlaw
    obtain ⟨hungrouped, hdistinct, hchecked⟩ := hlaw
    cases pending with
    | nil =>
      simp only [stepRun, hphase]
      rw [append_nil] at hdistinct
      exact h.advance_of_same hn rfl (by rw [h.huntOf_eq hn]; rfl) (by rw [h.huntOf_eq hn]; rfl)
        (by simp [hvacuous]) ⟨hdistinct, hchecked.congr rfl rfl rfl⟩
    | cons submission pending =>
      have hgrouped : c.grouped = true := by
        by_contra hfalse
        cases hungrouped (eq_false_of_ne_true hfalse)
      have hempty : c.grouped = false → pending = [] := by simp [hgrouped]
      have hdropped : Distinct c ((s.runs n).submissions ++ pending) :=
        hdistinct.sublist ((sublist_cons_self submission pending).append_left _)
      have hkept : s.drops c n submission = false →
          (∀ group ∈ (s.runs n).submissions ++ [submission], c.tracks group →
            Elapsed c s group) := by
        intro hdrops group hgroup htracks
        rcases mem_append.mp hgroup with hold | hlast
        · exact hchecked.elapsed group hold htracks
        · rw [mem_singleton.mp hlast] at htracks ⊢
          exact h.elapsed_of_not_drops hn hgrouped hdrops htracks
      have hdistinct' : Distinct c ((s.runs n).submissions ++ [submission] ++ pending) := by
        rw [append_assoc]
        exact hdistinct
      simp only [stepRun, hphase]
      by_cases hsome : submission.isSome
      · rw [if_pos hsome]
        by_cases hdrops : s.drops c n submission = true
        · rw [if_pos hdrops]
          exact h.advance_loaded hn rfl (by simp [hvacuous])
            ⟨hempty, hdropped, hchecked.congr rfl rfl rfl⟩
        · rw [if_neg hdrops]
          exact h.advance_loaded hn rfl (by simp [hvacuous])
            ⟨hempty, hdistinct', by simp [hgrouped], hkept (eq_false_of_ne_true hdrops)⟩
      · rw [if_neg hsome]
        by_cases hdrops : s.drops c n submission = true
        · rw [if_pos hdrops]
          exact h.advance_run hn rfl (by simp [hvacuous])
            ⟨hempty, hdropped, hchecked.congr rfl rfl rfl⟩
        · rw [if_neg hdrops]
          exact h.advance_run hn rfl (by simp [hvacuous])
            ⟨hempty, hdistinct', by simp [hgrouped], hkept (eq_false_of_ne_true hdrops)⟩
  | _ => simpa only [stepRun, hphase] using h

/-! ### Recording -/

theorem lastAlertTime_setLastAlertTimes (hunt : Hunt γ) (disk : AlertTimesOnDisk γ) (now : Nat)
    (submissions : List (Option γ)) :
    (hunt.setLastAlertTimes disk now submissions).lastAlertTime = hunt.lastAlertTime := by
  induction submissions generalizing hunt with
  | nil => rfl
  | cons submission submissions ih =>
    cases submission with
    | none => exact ih hunt
    | some first => exact ih _

theorem lookup_setLastAlertTimes (hunt : Hunt γ) (disk : AlertTimesOnDisk γ) (now : Nat)
    (submissions : List (Option γ)) (group : γ) :
    ((hunt.setLastAlertTimes disk now submissions).getLastAlertTimes disk).lookup group =
      if some group ∈ submissions then some now
      else (hunt.getLastAlertTimes disk).lookup group := by
  induction submissions generalizing hunt with
  | nil => simp [Hunt.setLastAlertTimes]
  | cons submission submissions ih =>
    cases submission with
    | none =>
      have hrest := ih hunt
      simpa [Hunt.setLastAlertTimes] using hrest
    | some first =>
      have hrest := ih { hunt with
        lastAlertTimes := some ((hunt.getLastAlertTimes disk).insert first now)
        lastAlertTimesDirty := true }
      rw [Hunt.setLastAlertTimes, foldl_cons]
      show AList.lookup group (Hunt.getLastAlertTimes
        (Hunt.setLastAlertTimes _ disk now submissions) disk) = _
      rw [hrest]
      by_cases hfirst : group = first
      · subst hfirst
        simp [Hunt.getLastAlertTimes]
      · simp [Hunt.getLastAlertTimes, AList.lookup_insert_ne hfirst, hfirst]

theorem dirty_setLastAlertTimes (hunt : Hunt γ) (disk : AlertTimesOnDisk γ) (now : Nat)
    (submissions : List (Option γ))
    (h : hunt.lastAlertTimesDirty = true ∨ ∃ group : γ, some group ∈ submissions) :
    (hunt.setLastAlertTimes disk now submissions).lastAlertTimesDirty = true := by
  induction submissions generalizing hunt with
  | nil =>
    rcases h with hdirty | ⟨group, hgroup⟩
    · exact hdirty
    · cases hgroup
  | cons submission submissions ih =>
    cases submission with
    | none =>
      apply ih hunt
      simpa using h
    | some first => exact ih _ (.inl rfl)

theorem timeInMemory_setHunt (h : Inv c s) (hn : (s.runs n).phase.isActive) (hunt : Hunt γ)
    (run : HuntRun γ) : ((s.setHunt (s.runs n).hunt hunt).setRun n run).timeInMemory =
      timesOf (hunt.getLastAlertTime s.disk) (hunt.getLastAlertTimes s.disk) := by
  show timesOf ((Function.update s.hunts (s.runs n).hunt hunt s.current).getLastAlertTime s.disk)
    ((Function.update s.hunts (s.runs n).hunt hunt s.current).getLastAlertTimes s.disk) = _
  rw [h.onCurrent n hn, update_self]

theorem Trusted.set {time time' : Option γ → Option Nat} (h : Trusted c s time)
    (hlate : ∀ a ∈ s.staged, a.alertTime ≤ s.clock) {submissions : List (Option γ)}
    (hset : ∀ group, c.tracks group →
      time' group = if group ∈ submissions then some s.clock else time group)
    (hpast : ∀ group t, time' group = some t → t ≤ s.clock)
    (hstaged : s'.staged = s.staged) (hclock : s'.clock = s.clock)
    (howed : ∀ group, c.tracks group → s.Owed group ∨ group ∈ submissions → s'.Owed group) :
    Trusted c s' time' where
  remembers a ha htracks := by
    rw [hstaged] at ha
    rw [hclock, hset a.group htracks]
    by_cases hgroup : a.group ∈ submissions
    · rw [if_pos hgroup]
      exact .inr ⟨s.clock, rfl, hlate a ha⟩
    · rw [if_neg hgroup]
      exact h.remembers a ha htracks
  justified group t htracks ht := by
    rw [hset group htracks] at ht
    rw [hstaged]
    by_cases hgroup : group ∈ submissions
    · exact .inr (howed group htracks (.inr hgroup))
    · rw [if_neg hgroup] at ht
      exact (h.justified group t htracks ht).imp_right fun hold =>
        howed group htracks (.inl hold)
  past group t ht := by
    rw [hclock]
    exact hpast group t ht

theorem Inv.late_clock (h : Inv c s) : ∀ a ∈ s.staged, a.alertTime ≤ s.clock :=
  fun a ha => Nat.le_trans (h.late a ha).1 (h.late a ha).2

theorem Checked.recorded (hclock : s'.clock = s.clock) (hstaged : s'.staged = s.staged)
    (hdistinct : Distinct c run.submissions) (hchecked : Checked c s run)
    (halert : run.alertTime = s.clock) (hmemory : Carried c s' run s'.timeInMemory) :
    Recorded c s' n run where
  past _ := by rw [halert, hclock]
  distinct := hdistinct
  apart group hgroup htracks a ha hmem := by
    rw [hstaged] at ha
    rw [halert]
    exact .inr (hchecked.elapsed group hgroup htracks a ha hmem)
  memory := hmemory

theorem inv_record_grouped (h : Inv c s) (hgrouped : c.grouped = true)
    (hphase : (s.runs n).phase = .postProcessing)
    (hrun : run = { s.runs n with alertTime := s.clock, phase := .recorded }) :
    Inv c ((s.setHunt (s.runs n).hunt
      ((s.huntOf n).setLastAlertTimes s.disk s.clock (s.runs n).submissions)).setRun n run) := by
  have hlaw := h.run n
  simp only [RunLaw, hphase] at hlaw
  have hn := isActive_of_phase hphase rfl
  have hmem := timeInMemory_setHunt h hn
    ((s.huntOf n).setLastAlertTimes s.disk s.clock (s.runs n).submissions) run
  generalize hs' : (s.setHunt (s.runs n).hunt
    ((s.huntOf n).setLastAlertTimes s.disk s.clock (s.runs n).submissions)).setRun n run = s' at hmem ⊢
  have hset : ∀ group, c.tracks group → s'.timeInMemory group =
      if group ∈ (s.runs n).submissions then some s.clock else s.timeInMemory group := by
    intro group htracks
    cases group with
    | none => simp [Suppression.tracks, hgrouped] at htracks
    | some group =>
      rw [hmem]
      simp only [timesOf, lookup_setLastAlertTimes, h.huntOf_eq hn, timeInMemory]
  have hpast : ∀ group t, s'.timeInMemory group = some t → t ≤ s.clock := by
    intro group t ht
    cases group with
    | none =>
      apply h.memory.past none t
      rw [hmem] at ht
      simpa only [timesOf, Hunt.getLastAlertTime, lastAlertTime_setLastAlertTimes, h.huntOf_eq hn,
        timeInMemory] using ht
    | some group =>
      rw [hset (some group) (by simp [Suppression.tracks, hgrouped])] at ht
      by_cases hgroup : some group ∈ (s.runs n).submissions
      · rw [if_pos hgroup] at ht
        cases ht
        exact le_rfl
      · rw [if_neg hgroup] at ht
        exact h.memory.past (some group) t ht
  have hruns : s'.runs = Function.update s.runs n run := by rw [← hs']; rfl
  have hrecorded : run.phase.hasRecorded ∧ run.submissions = (s.runs n).submissions := by
    rw [hrun]
    exact ⟨rfl, rfl⟩
  have howed : ∀ group, c.tracks group → s.Owed group ∨ group ∈ (s.runs n).submissions →
      s'.Owed group := fun _ _ => owed_of_recorded hruns hrecorded
  have hstaged : s'.staged = s.staged := by rw [← hs']; rfl
  have hclock : s'.clock = s.clock := by rw [← hs']; rfl
  have hcurrent : s'.current = s.current := by rw [← hs']; rfl
  have hdisk : s'.timeOnDisk = s.timeOnDisk := by rw [← hs']; rfl
  refine h.advance hn hruns (by rw [hrun]) (by rw [← hs']; rfl) hcurrent hclock ?_ ?_
    (h.memory.set h.late_clock hset hpast hstaged hclock howed) ?_ ?_
  · rw [hstaged]
    exact h.late
  · rw [hstaged]
    exact h.spaced
  · rw [hdisk]
    exact h.disk.mono hstaged (Nat.le_of_eq hclock.symm) fun group htracks hold =>
      howed group htracks (.inl hold)
  · have hrecordedPhase : run.phase = .recorded := by rw [hrun]
    simp only [RunLaw, hrecordedPhase]
    refine ⟨Checked.recorded hclock hstaged ?_ ?_ (by rw [hrun]) ?_, ?_⟩
    · rw [hrecorded.2]
      exact hlaw.1
    · rw [hrun]
      exact ⟨hlaw.2.ungrouped, hlaw.2.elapsed⟩
    · intro group hgroup htracks
      rw [hrecorded.2] at hgroup
      rw [hset group htracks, if_pos hgroup]
      exact .inr ⟨s.clock, rfl, by rw [hrun]⟩
    · refine ⟨hgrouped, fun group hgroup htracks => ?_⟩
      rw [hrecorded.2] at hgroup
      cases group with
      | none => simp [Suppression.tracks, hgrouped] at htracks
      | some group =>
        rw [hcurrent, ← hs']
        show (Function.update s.hunts (s.runs n).hunt _ s.current).lastAlertTimesDirty = true
        rw [h.onCurrent n hn, update_self]
        exact dirty_setLastAlertTimes _ _ _ _ (.inr ⟨group, hgroup⟩)

theorem inv_record_ungrouped (h : Inv c s) (hgrouped : c.grouped = false)
    (hphase : (s.runs n).phase = .postProcessing) (hsome : (s.runs n).submissions ≠ [])
    (hrun : run = { s.runs n with alertTime := s.clock, phase := .staging }) :
    Inv c { (s.setHunt (s.runs n).hunt
      { s.huntOf n with lastAlertTime := some (some s.clock) }).setRun n run with
        disk := { s.disk with lastAlertTime := some s.clock } } := by
  have hlaw := h.run n
  simp only [RunLaw, hphase] at hlaw
  have hn := isActive_of_phase hphase rfl
  generalize hs' : ({ (s.setHunt (s.runs n).hunt
    { s.huntOf n with lastAlertTime := some (some s.clock) }).setRun n run with
      disk := { s.disk with lastAlertTime := some s.clock } } : Hunting γ) = s'
  have hmem : s'.timeInMemory =
      timesOf (some s.clock) ((s.hunts s.current).getLastAlertTimes s.disk) := by
    rw [← hs']
    show timesOf ((Function.update s.hunts (s.runs n).hunt _ s.current).getLastAlertTime _)
      ((Function.update s.hunts (s.runs n).hunt _ s.current).getLastAlertTimes _) = _
    rw [h.onCurrent n hn, update_self, h.huntOf_eq hn]
    rfl
  have hdisk : s'.timeOnDisk = timesOf (some s.clock) s.disk.lastAlertTimes := by rw [← hs']; rfl
  have hnone : none ∈ (s.runs n).submissions := by
    obtain ⟨group, hgroup⟩ := exists_mem_of_ne_nil _ hsome
    exact hlaw.2.ungrouped hgrouped group hgroup ▸ hgroup
  have hset : ∀ last (times : AList fun _ : γ => Nat) group, c.tracks group →
      timesOf (some s.clock) times group =
        if group ∈ (s.runs n).submissions then some s.clock else timesOf last times group := by
    intro last times group htracks
    rw [(tracks_ungrouped hgrouped).mp htracks, if_pos hnone]
    rfl
  have hpast : ∀ last (times : AList fun _ : γ => Nat), Trusted c s (timesOf last times) →
      ∀ group t, timesOf (some s.clock) times group = some t → t ≤ s.clock := by
    intro last times htrusted group t ht
    cases group with
    | none =>
      cases ht
      exact le_rfl
    | some group => exact htrusted.past (some group) t ht
  have hruns : s'.runs = Function.update s.runs n run := by rw [← hs']; rfl
  have hrecorded : run.phase.hasRecorded ∧ run.submissions = (s.runs n).submissions := by
    rw [hrun]
    exact ⟨rfl, rfl⟩
  have howed : ∀ group, c.tracks group → s.Owed group ∨ group ∈ (s.runs n).submissions →
      s'.Owed group := fun _ _ => owed_of_recorded hruns hrecorded
  have hstaged : s'.staged = s.staged := by rw [← hs']; rfl
  have hclock : s'.clock = s.clock := by rw [← hs']; rfl
  have hcarried : ∀ times : AList fun _ : γ => Nat,
      Carried c s' run (timesOf (some s.clock) times) := by
    intro times group hgroup htracks
    rw [(tracks_ungrouped hgrouped).mp htracks]
    exact .inr ⟨s.clock, rfl, by rw [hrun]⟩
  refine h.advance hn hruns (by rw [hrun]) (by rw [← hs']; rfl) (by rw [← hs']; rfl) hclock
    ?_ ?_ ?_ ?_ ?_
  · rw [hstaged]
    exact h.late
  · rw [hstaged]
    exact h.spaced
  · rw [hmem]
    exact h.memory.set h.late_clock (hset _ _) (hpast _ _ h.memory) hstaged hclock howed
  · rw [hdisk]
    exact h.disk.set h.late_clock (hset _ _) (hpast _ _ h.disk) hstaged hclock howed
  · have hstagingPhase : run.phase = .staging := by rw [hrun]
    simp only [RunLaw, hstagingPhase]
    refine ⟨Checked.recorded hclock hstaged ?_ ?_ (by rw [hrun]) ?_, ?_⟩
    · rw [hrecorded.2]
      exact hlaw.1
    · exact hlaw.2.congr rfl rfl hrecorded.2
    · rw [hmem]
      exact hcarried _
    · rw [hdisk]
      exact hcarried _

omit [DecidableEq γ] in
theorem carried_of_nil {run : HuntRun γ} (h : run.submissions = [])
    {time : Option γ → Option Nat} : Carried c s run time := by
  intro group hgroup
  rw [h] at hgroup
  cases hgroup

theorem recorded_of_nil (h : run.submissions = []) : Recorded c s n run where
  past hne := absurd h hne
  distinct := by
    rw [h]
    exact List.Pairwise.nil
  apart group hgroup := by
    rw [h] at hgroup
    cases hgroup
  memory := carried_of_nil h

theorem inv_record (h : Inv c s) : Inv c (s.stepRun c (.record n true)) := by
  have hlaw := h.run n
  cases hphase : (s.runs n).phase with
  | postProcessing =>
    have hn := isActive_of_phase hphase rfl
    simp only [RunLaw, hphase] at hlaw
    simp only [stepRun, hphase]
    by_cases hgrouped : c.grouped = true
    · rw [if_pos hgrouped]
      exact inv_record_grouped h hgrouped hphase rfl
    · rw [if_neg hgrouped]
      by_cases hnil : (s.runs n).submissions = []
      · rw [if_pos hnil]
        exact h.advance_run hn rfl (by simp [hphase, RunPhase.hasRecorded])
          ⟨recorded_of_nil hnil, carried_of_nil hnil⟩
      · rw [if_neg hnil]
        exact inv_record_ungrouped h (eq_false_of_ne_true hgrouped) hphase hnil rfl
  | _ => simpa only [stepRun, hphase] using h

/-! ### Pruning and saving -/

theorem Recorded.congr {run run' : HuntRun γ} (h : Recorded c s n run)
    (hsubmissions : run'.submissions = run.submissions) (halert : run'.alertTime = run.alertTime)
    (hclock : s'.clock = s.clock) (hstaged : s'.staged = s.staged)
    (hmemory : Carried c s run s'.timeInMemory) : Recorded c s' n run' where
  past hne := by
    rw [halert, hclock]
    exact h.past (hsubmissions ▸ hne)
  distinct := by
    rw [hsubmissions]
    exact h.distinct
  apart group hgroup htracks a ha hmem := by
    rw [hsubmissions] at hgroup
    rw [hstaged] at ha
    rw [halert]
    exact h.apart group hgroup htracks a ha hmem
  memory group hgroup htracks := by
    rw [hsubmissions] at hgroup
    rw [halert, hclock]
    exact hmemory group hgroup htracks

theorem hunts_setHunt (h : Inv c s) (hn : (s.runs n).phase.isActive) (hunt : Hunt γ)
    (run : HuntRun γ) :
    ((s.setHunt (s.runs n).hunt hunt).setRun n run).hunts s.current = hunt := by
  show Function.update s.hunts (s.runs n).hunt hunt s.current = hunt
  rw [h.onCurrent n hn, update_self]

theorem timeInMemory_loadTimes (h : Inv c s) (hn : (s.runs n).phase.isActive) (run : HuntRun γ) :
    ((s.loadTimes n).setRun n run).timeInMemory = s.timeInMemory := by
  rw [loadTimes, timeInMemory_setHunt h hn, h.huntOf_eq hn]
  rfl

omit [DecidableEq γ] in
theorem Dirty.congr {run run' : HuntRun γ} (h : Dirty c s run)
    (hsubmissions : run'.submissions = run.submissions)
    (hdirty : (s.hunts s.current).lastAlertTimesDirty →
      (s'.hunts s'.current).lastAlertTimesDirty) : Dirty c s' run' := by
  refine ⟨h.grouped, fun group hgroup htracks => ?_⟩
  rw [hsubmissions] at hgroup
  exact hdirty (h.dirty group hgroup htracks)

variable {times : AList fun _ : γ => Nat}

theorem le_of_mem_expired {window now t : Nat} {key : γ}
    (hkey : key ∈ Hunt.expired window now times) (ht : times.lookup key = some t) :
    t + window ≤ now := by
  simp only [Hunt.expired, mem_map, mem_filter, decide_eq_true_eq] at hkey
  obtain ⟨⟨key', t'⟩, ⟨hentry, hexpired⟩, rfl⟩ := hkey
  have ht' : times.lookup key' = some t' := AList.mem_lookup_iff.mpr hentry
  rw [ht] at ht'
  cases ht'
  exact hexpired

theorem inv_prune (h : Inv c s) : Inv c (s.stepRun c (.prune n)) := by
  have hlaw := h.run n
  cases hphase : (s.runs n).phase with
  | recorded =>
    have hn := isActive_of_phase hphase rfl
    simp only [RunLaw, hphase] at hlaw
    obtain ⟨hrecorded, hdirty⟩ := hlaw
    have hloaded : ∀ phase, Recorded c ((s.loadTimes n).setPhase n phase) n
        { s.runs n with phase } ∧ Dirty c ((s.loadTimes n).setPhase n phase)
        { s.runs n with phase } := by
      intro phase
      refine ⟨hrecorded.congr rfl rfl rfl rfl ?_, hdirty.congr rfl ?_⟩
      · rw [setPhase, timeInMemory_loadTimes h hn]
        exact hrecorded.memory
      · intro hold
        show (((s.loadTimes n).setPhase n phase).hunts s.current).lastAlertTimesDirty = true
        rw [loadTimes, setPhase, hunts_setHunt h hn, h.huntOf_eq hn]
        exact hold
    simp only [stepRun, hphase]
    cases hexpired : Hunt.expired c.window s.clock ((s.huntOf n).getLastAlertTimes s.disk) with
    | nil => exact h.advance_loaded hn rfl (fun _ => ⟨rfl, rfl⟩) (hloaded .saving)
    | cons key keys =>
      refine h.advance_loaded hn rfl (fun _ => ⟨rfl, rfl⟩)
        ⟨(hloaded (.pruning (key :: keys))).1, (hloaded (.pruning (key :: keys))).2, ?_⟩
      intro key' hkey' t ht
      rw [timeInMemory_loadTimes h hn] at ht
      rw [← hexpired, h.huntOf_eq hn] at hkey'
      exact le_of_mem_expired hkey' ht
  | _ => simpa only [stepRun, hphase] using h

variable {last : Option Nat}

theorem timesOf_erase {key : γ} {bound : Nat}
    (hexpired : ∀ t, times.lookup key = some t → t + c.window ≤ s.clock)
    (h : bound + c.window ≤ s.clock ∨ ∃ t, timesOf last times group = some t ∧ bound ≤ t) :
    bound + c.window ≤ s.clock ∨
      ∃ t, timesOf last (times.erase key) group = some t ∧ bound ≤ t := by
  rcases h with hpassed | ⟨t, ht, hle⟩
  · exact .inl hpassed
  · cases group with
    | none => exact .inr ⟨t, ht, hle⟩
    | some group =>
      by_cases hkey : group = key
      · subst hkey
        have hwindow := hexpired t ht
        exact .inl (by omega)
      · refine .inr ⟨t, ?_, hle⟩
        show AList.lookup group (times.erase key) = some t
        rw [AList.lookup_erase_ne hkey]
        exact ht

theorem timesOf_of_erase {key : γ} {t : Nat} (h : timesOf last (times.erase key) group = some t) :
    timesOf last times group = some t := by
  cases group with
  | none => exact h
  | some group =>
    have hlookup : AList.lookup group (times.erase key) = some t := h
    by_cases hkey : group = key
    · subst hkey
      rw [AList.lookup_erase] at hlookup
      cases hlookup
    · rw [AList.lookup_erase_ne hkey] at hlookup
      exact hlookup

theorem inv_pop (h : Inv c s) : Inv c (s.stepRun c (.pop n)) := by
  have hlaw := h.run n
  cases hphase : (s.runs n).phase with
  | pruning keys =>
    have hn := isActive_of_phase hphase rfl
    simp only [RunLaw, hphase] at hlaw
    obtain ⟨hrecorded, hdirty, hkeys⟩ := hlaw
    cases keys with
    | nil =>
      simp only [stepRun, hphase]
      refine h.advance_of_same hn rfl (by rw [h.huntOf_eq hn]; rfl) (by rw [h.huntOf_eq hn]; rfl)
        (fun _ => ⟨rfl, rfl⟩) ⟨hrecorded.congr rfl rfl rfl rfl ?_, hdirty.congr rfl ?_⟩
      · rw [timeInMemory_setHunt h hn, h.huntOf_eq hn]
        exact hrecorded.memory
      · intro _
        show (((s.setHunt (s.runs n).hunt _).setRun n _).hunts s.current).lastAlertTimesDirty = true
        rw [hunts_setHunt h hn]
    | cons key keys =>
      simp only [stepRun, hphase]
      generalize hs' : (s.setHunt (s.runs n).hunt { s.huntOf n with
        lastAlertTimes := some (((s.huntOf n).getLastAlertTimes s.disk).erase key) }).setPhase n
          (.pruning keys) = s'
      have hmem : s'.timeInMemory = timesOf ((s.hunts s.current).getLastAlertTime s.disk)
          (((s.hunts s.current).getLastAlertTimes s.disk).erase key) := by
        rw [← hs', setPhase, timeInMemory_setHunt h hn, h.huntOf_eq hn]
        rfl
      have hexpired : ∀ t, ((s.hunts s.current).getLastAlertTimes s.disk).lookup key = some t →
          t + c.window ≤ s.clock := hkeys key mem_cons_self
      have hruns : s'.runs = Function.update s.runs n
          { s.runs n with phase := .pruning keys } := by rw [← hs']; rfl
      have hstaged : s'.staged = s.staged := by rw [← hs']; rfl
      have hclock : s'.clock = s.clock := by rw [← hs']; rfl
      have hdisk : s'.timeOnDisk = s.timeOnDisk := by rw [← hs']; rfl
      have howed : ∀ group, c.tracks group → s.Owed group → s'.Owed group :=
        fun _ _ => Owed.of_update hruns fun _ => ⟨rfl, rfl⟩
      refine h.advance hn hruns rfl (by rw [← hs']; rfl) (by rw [← hs']; rfl) hclock
        (hstaged ▸ h.late) (hstaged ▸ h.spaced) ⟨?_, ?_, ?_⟩ ?_ ⟨?_, ?_, ?_⟩
      · intro a ha htracks
        rw [hstaged] at ha
        rw [hmem, hclock]
        exact timesOf_erase hexpired (h.memory.remembers a ha htracks)
      · intro group t htracks ht
        rw [hmem] at ht
        rw [hstaged]
        exact (h.memory.justified group t htracks (timesOf_of_erase ht)).imp_right
          (howed group htracks)
      · intro group t ht
        rw [hmem] at ht
        rw [hclock]
        exact h.memory.past group t (timesOf_of_erase ht)
      · rw [hdisk]
        exact h.disk.mono hstaged (Nat.le_of_eq hclock.symm) howed
      · refine hrecorded.congr rfl rfl hclock hstaged ?_
        intro group hgroup htracks
        rw [hmem]
        exact timesOf_erase hexpired (hrecorded.memory group hgroup htracks)
      · refine hdirty.congr rfl ?_
        intro hold
        rw [← hs']
        show (((s.setHunt (s.runs n).hunt _).setRun n _).hunts s.current).lastAlertTimesDirty = true
        rw [hunts_setHunt h hn, h.huntOf_eq hn]
        exact hold
      · intro key' hkey' t ht
        rw [hmem] at ht
        rw [hclock]
        exact hkeys key' (mem_cons_of_mem key hkey') t (timesOf_of_erase ht)
  | _ => simpa only [stepRun, hphase] using h

theorem Carried.combine {last last' : Option Nat} {times times' : AList fun _ : γ => Nat}
    (h : Carried c s run (timesOf last times)) (h' : Carried c s run (timesOf last' times')) :
    Carried c s run (timesOf last times') := by
  intro group hgroup htracks
  cases group with
  | none => exact h none hgroup htracks
  | some group => exact h' (some group) hgroup htracks

theorem inv_save (h : Inv c s) : Inv c (s.stepRun c (.save n)) := by
  have hlaw := h.run n
  cases hphase : (s.runs n).phase with
  | saving =>
    have hn := isActive_of_phase hphase rfl
    simp only [RunLaw, hphase] at hlaw
    obtain ⟨hrecorded, hdirty⟩ := hlaw
    simp only [stepRun, hphase]
    by_cases hflag : (s.huntOf n).lastAlertTimesDirty = true
    · rw [if_pos hflag, h.huntOf_eq hn]
      have hcarried : Carried c s (s.runs n) (timesOf s.disk.lastAlertTime
          ((s.hunts s.current).getLastAlertTimes s.disk)) := by
        -- only the groups of a grouped hunt count
        intro group hgroup htracks
        cases group with
        | none => simp [Suppression.tracks, hdirty.grouped] at htracks
        | some group => exact hrecorded.memory (some group) hgroup htracks
      have hruns : ((s.loadTimes n).setPhase n
          (.writing ((s.hunts s.current).getLastAlertTimes s.disk))).runs =
            Function.update s.runs n { s.runs n with
              phase := .writing ((s.hunts s.current).getLastAlertTimes s.disk) } := rfl
      have howed : ∀ group, c.tracks group → s.Owed group → ((s.loadTimes n).setPhase n
          (.writing ((s.hunts s.current).getLastAlertTimes s.disk))).Owed group :=
        fun _ _ => Owed.of_update hruns fun _ => ⟨rfl, rfl⟩
      refine h.advance_loaded hn rfl (fun _ => ⟨rfl, rfl⟩)
        ⟨hrecorded.congr rfl rfl rfl rfl ?_, hcarried, ?_⟩
      · rw [timeInMemory_loadTimes h hn]
        exact hrecorded.memory
      · exact (h.disk.combine h.memory).mono rfl le_rfl howed
    · rw [if_neg hflag]
      refine h.advance_run hn rfl (fun _ => ⟨rfl, rfl⟩)
        ⟨hrecorded.congr rfl rfl rfl rfl hrecorded.memory, ?_⟩
      intro group hgroup htracks
      rw [h.huntOf_eq hn] at hflag
      exact absurd (hdirty.dirty group hgroup htracks) hflag
  | _ => simpa only [stepRun, hphase] using h

theorem inv_write (h : Inv c s) : Inv c (s.stepRun c (.write n true)) := by
  have hlaw := h.run n
  cases hphase : (s.runs n).phase with
  | writing snapshot =>
    have hn := isActive_of_phase hphase rfl
    simp only [RunLaw, hphase] at hlaw
    obtain ⟨hrecorded, hcarried, htrusted⟩ := hlaw
    simp only [stepRun, hphase]
    rw [if_pos trivial]
    generalize hs' : ({ s.setPhase n .cleaning with
      disk := { s.disk with lastAlertTimes := snapshot } } : Hunting γ) = s'
    have hruns : s'.runs = Function.update s.runs n { s.runs n with phase := .cleaning } := by
      rw [← hs']; rfl
    have hstaged : s'.staged = s.staged := by rw [← hs']; rfl
    have hclock : s'.clock = s.clock := by rw [← hs']; rfl
    have hdisk : s'.timeOnDisk = timesOf s.disk.lastAlertTime snapshot := by rw [← hs']; rfl
    have howed : ∀ group, c.tracks group → s.Owed group → s'.Owed group :=
      fun _ _ => Owed.of_update hruns fun _ => ⟨rfl, rfl⟩
    -- an object that has not loaded its times would load the snapshot
    have hmem : Trusted c s s'.timeInMemory ∧ Carried c s (s.runs n) s'.timeInMemory := by
      have heq : s'.timeInMemory = timesOf ((s.hunts s.current).getLastAlertTime s.disk)
          ((s.hunts s.current).lastAlertTimes.getD snapshot) := by rw [← hs']; rfl
      rw [heq]
      cases hloaded : (s.hunts s.current).lastAlertTimes with
      | none => exact ⟨h.memory.combine htrusted, hrecorded.memory.combine hcarried⟩
      | some times =>
        have hsame : timesOf ((s.hunts s.current).getLastAlertTime s.disk)
            ((some times).getD snapshot) = s.timeInMemory := by
          rw [timeInMemory, Hunt.getLastAlertTimes, hloaded]
          rfl
        rw [hsame]
        exact ⟨h.memory, hrecorded.memory⟩
    refine h.advance hn hruns rfl (by rw [← hs']; rfl) (by rw [← hs']; rfl) hclock
      (hstaged ▸ h.late) (hstaged ▸ h.spaced)
      (hmem.1.mono hstaged (Nat.le_of_eq hclock.symm) howed) ?_
      ⟨hrecorded.congr rfl rfl hclock hstaged hmem.2, ?_⟩
    · rw [hdisk]
      exact htrusted.mono hstaged (Nat.le_of_eq hclock.symm) howed
    · intro group hgroup htracks
      rw [hdisk, hclock]
      exact hcarried group hgroup htracks
  | _ => simpa only [stepRun, hphase] using h

theorem inv_clean (h : Inv c s) : Inv c (s.stepRun c (.clean n)) := by
  have hlaw := h.run n
  cases hphase : (s.runs n).phase with
  | cleaning =>
    have hn := isActive_of_phase hphase rfl
    simp only [RunLaw, hphase] at hlaw
    simp only [stepRun, hphase]
    refine h.advance_of_same hn rfl (by rw [h.huntOf_eq hn]; rfl) (by rw [h.huntOf_eq hn]; rfl)
      (fun _ => ⟨rfl, rfl⟩) ⟨hlaw.1.congr rfl rfl rfl rfl ?_, hlaw.2⟩
    rw [timeInMemory_setHunt h hn, h.huntOf_eq hn]
    exact hlaw.1.memory
  | _ => simpa only [stepRun, hphase] using h

/-! ### Staging -/

omit [DecidableEq γ] in
theorem Trusted.stage (h : Trusted c s time) {a : StagedSubmission γ} (hcarried : c.tracks a.group →
      a.alertTime + c.window ≤ s.clock ∨ ∃ t, time a.group = some t ∧ a.alertTime ≤ t)
    (hnow : a.stagedTime = s.clock) (hstaged : s'.staged = s.staged ++ [a])
    (hclock : s'.clock = s.clock)
    (howed : ∀ group, s.Owed group → group = a.group ∨ s'.Owed group) : Trusted c s' time where
  remembers b hb htracks := by
    rw [hstaged] at hb
    rw [hclock]
    rcases mem_append.mp hb with hold | hnew
    · exact h.remembers b hold htracks
    · rw [mem_singleton.mp hnew] at htracks ⊢
      exact hcarried htracks
  justified group t htracks ht := by
    rw [hstaged]
    rcases h.justified group t htracks ht with ⟨b, hb, hrest⟩ | hold
    · exact .inl ⟨b, mem_append_left _ hb, hrest⟩
    · rcases howed group hold with hgroup | hstill
      · refine .inl ⟨a, mem_append_right _ mem_cons_self, hgroup.symm, ?_⟩
        rw [hnow]
        exact h.past group t ht
      · exact .inr hstill
  past group t ht := by
    rw [hclock]
    exact h.past group t ht

theorem inv_stage (h : Inv c s) : Inv c (s.stepRun c (.stage n true)) := by
  have hlaw := h.run n
  cases hphase : (s.runs n).phase with
  | staging =>
    have hn := isActive_of_phase hphase rfl
    simp only [RunLaw, hphase] at hlaw
    obtain ⟨hrecorded, hcarried⟩ := hlaw
    cases hsubmissions : (s.runs n).submissions with
    | nil =>
      simp only [stepRun, hphase, hsubmissions]
      have howed : ∀ group, c.tracks group → s.Owed group → (s.setPhase n .ended).Owed group := by
        rintro group - ⟨k, hk, hgroup⟩
        rw [h.single k n (isActive_of_hasRecorded hk) hn, hsubmissions] at hgroup
        cases hgroup
      exact h.advance hn rfl rfl rfl rfl rfl h.late h.spaced (h.memory.mono rfl le_rfl howed)
        (h.disk.mono rfl le_rfl howed) trivial
    | cons submission submissions =>
      simp only [stepRun, hphase, hsubmissions]
      rw [if_pos trivial]
      generalize ha : (⟨n, submission, (s.runs n).alertTime, s.clock⟩ : StagedSubmission γ) = a
      have hfirst : submission ∈ (s.runs n).submissions := hsubmissions ▸ mem_cons_self
      have hrest : ∀ group ∈ submissions, group ∈ (s.runs n).submissions :=
        fun group hgroup => hsubmissions ▸ mem_cons_of_mem submission hgroup
      have hne : (s.runs n).submissions ≠ [] := ne_nil_of_mem hfirst
      have hgroup : a.group = submission := by rw [← ha]
      have halert : a.alertTime = (s.runs n).alertTime := by rw [← ha]
      have hnow : a.stagedTime = s.clock := by rw [← ha]
      generalize hrun : ({ s.runs n with submissions, phase := .staging } : HuntRun γ) = run
      have hrunPhase : run.phase = .staging := by rw [← hrun]
      have hrunSubmissions : run.submissions = submissions := by rw [← hrun]
      have hrunAlert : run.alertTime = a.alertTime := by rw [← hrun, ← ha]
      have howed : ∀ group, s.Owed group → group = a.group ∨
          Owed { s.setRun n run with staged := s.staged ++ [a] } group := by
        rintro group ⟨k, hk, hmem⟩
        have hkn := h.single k n (isActive_of_hasRecorded hk) hn
        rw [hkn, hsubmissions] at hmem
        rcases mem_cons.mp hmem with hself | hlater
        · exact .inl (hself.trans hgroup.symm)
        · refine .inr ⟨n, ?_⟩
          show ((Function.update s.runs n run n).phase.hasRecorded) = true ∧
            group ∈ (Function.update s.runs n run n).submissions
          rw [update_self, hrunPhase, hrunSubmissions]
          exact ⟨rfl, hlater⟩
      have hkept : ∀ time, Carried c s (s.runs n) time →
          Carried c { s.setRun n run with staged := s.staged ++ [a] } run time := by
        intro time hold group hmem htracks
        rw [hrunSubmissions] at hmem
        rw [hrunAlert, halert]
        exact hold group (hrest group hmem) htracks
      refine h.advance hn rfl (by rw [← hrun]) rfl rfl rfl ?_ ?_
        (h.memory.stage ?_ hnow rfl rfl howed) (h.disk.stage ?_ hnow rfl rfl howed) ?_
      · intro b hb
        rcases mem_append.mp hb with hold | hnew
        · exact h.late b hold
        · rw [mem_singleton.mp hnew, hnow, halert]
          exact ⟨hrecorded.past hne, le_rfl⟩
      · -- what the run found when it looked was apart from the present
        apply pairwise_append.mpr ⟨h.spaced, pairwise_singleton _ _, ?_⟩
        intro b hb a' ha'
        rw [mem_singleton.mp ha']
        by_cases hboth : c.tracks b.group = true ∧ b.group = a.group
        · have hsame : b.group = submission := hboth.2.trans hgroup
          rcases hrecorded.apart submission hfirst (hsame ▸ hboth.1) b hb hsame with hrun' | happart
          · exact .inl ⟨hrun'.1, by rw [← ha]; exact hrun'.2⟩
          · exact .inr fun _ _ => halert ▸ happart
        · exact .inr fun htracks hsame => absurd ⟨htracks, hsame⟩ hboth
      · rw [hgroup, halert]
        exact hrecorded.memory submission hfirst
      · rw [hgroup, halert]
        exact hcarried submission hfirst
      · simp only [RunLaw, hrunPhase]
        have hpair : Distinct c (submission :: submissions) := hsubmissions ▸ hrecorded.distinct
        refine ⟨⟨fun _ => ?_, ?_, ?_, hkept _ hrecorded.memory⟩, hkept _ hcarried⟩
        · rw [hrunAlert, halert]
          exact hrecorded.past hne
        · rw [hrunSubmissions]
          exact (pairwise_cons.mp hpair).2
        · intro group hmem htracks b hb hsame
          rw [hrunSubmissions] at hmem
          rcases mem_append.mp hb with hold | hnew
          · rw [hrunAlert, halert]
            exact hrecorded.apart group (hrest group hmem) htracks b hold hsame
          · -- the same group again, which only an ungrouped hunt has
            rw [mem_singleton.mp hnew] at hsame ⊢
            have heq : submission = group := hgroup.symm.trans hsame
            exact .inl ⟨(pairwise_cons.mp hpair).1 group hmem heq (heq ▸ htracks), by rw [← ha]⟩
  | _ => simpa only [stepRun, hphase] using h

/-! ### The manager and the clock -/

omit [DecidableEq γ] in
theorem Elapsed.mono {group : Option γ} (h : Elapsed c s group) (hstaged : s'.staged = s.staged)
    (hclock : s.clock ≤ s'.clock) : Elapsed c s' group := by
  intro a ha hgroup
  rw [hstaged] at ha
  exact Nat.le_trans (h a ha hgroup) hclock

/-- What holds of a run goes on holding while time passes and the alert times stay as they are. -/
theorem RunLaw.mono (h : RunLaw c s n run) (hstaged : s'.staged = s.staged)
    (hclock : s.clock ≤ s'.clock) (hmemory : s'.timeInMemory = s.timeInMemory)
    (hdisk : s'.disk = s.disk) (hflag : (s.hunts s.current).lastAlertTimesDirty →
      (s'.hunts s'.current).lastAlertTimesDirty)
    (howed : ∀ group, s.Owed group → s'.Owed group) : RunLaw c s' n run := by
  have htime : s'.timeOnDisk = s.timeOnDisk := by rw [timeOnDisk, hdisk]; rfl
  have hcarried : ∀ time, Carried c s run time → Carried c s' run time :=
    fun time hold group hgroup htracks =>
      (hold group hgroup htracks).imp_left fun hpassed => Nat.le_trans hpassed hclock
  have hrecorded : Recorded c s n run → Recorded c s' n run := by
    refine fun hold => ⟨fun hne => Nat.le_trans (hold.past hne) hclock, hold.distinct, ?_, ?_⟩
    · rw [hstaged]
      exact hold.apart
    · rw [hmemory]
      exact hcarried _ hold.memory
  have hchecked : Checked c s run → Checked c s' run :=
    fun hold => ⟨hold.ungrouped, fun group hgroup htracks =>
      (hold.elapsed group hgroup htracks).mono hstaged hclock⟩
  have hdirty : Dirty c s run → Dirty c s' run := fun hold => hold.congr rfl hflag
  cases hphase : run.phase with
  | executing =>
    simp only [RunLaw, hphase] at h ⊢
    exact ⟨h.1, fun hgrouped => (h.2 hgrouped).mono hstaged hclock⟩
  | filtering pending =>
    simp only [RunLaw, hphase] at h ⊢
    exact ⟨h.1, h.2.1, hchecked h.2.2⟩
  | postProcessing =>
    simp only [RunLaw, hphase] at h ⊢
    exact ⟨h.1, hchecked h.2⟩
  | recorded =>
    simp only [RunLaw, hphase] at h ⊢
    exact ⟨hrecorded h.1, hdirty h.2⟩
  | pruning keys =>
    simp only [RunLaw, hphase] at h ⊢
    refine ⟨hrecorded h.1, hdirty h.2.1, fun key hkey t ht => ?_⟩
    rw [hmemory] at ht
    exact Nat.le_trans (h.2.2 key hkey t ht) hclock
  | saving =>
    simp only [RunLaw, hphase] at h ⊢
    exact ⟨hrecorded h.1, hdirty h.2⟩
  | writing snapshot =>
    simp only [RunLaw, hphase] at h ⊢
    rw [hdisk]
    exact ⟨hrecorded h.1, hcarried _ h.2.1, h.2.2.mono hstaged hclock fun group _ => howed group⟩
  | cleaning =>
    simp only [RunLaw, hphase] at h ⊢
    exact ⟨hrecorded h.1, htime ▸ hcarried _ h.2⟩
  | staging =>
    simp only [RunLaw, hphase] at h ⊢
    exact ⟨hrecorded h.1, htime ▸ hcarried _ h.2⟩
  | ended => simp only [RunLaw, hphase]

theorem inv_tick (h : Inv c s) (duration : Nat) : Inv c (s.step c (.tick duration)) := by
  have hle : s.clock ≤ s.clock + duration := Nat.le_add_right _ _
  refine ⟨h.fresh, h.single, h.onCurrent, ?_, h.spaced, h.memory.mono rfl hle fun _ _ => id,
    h.disk.mono rfl hle fun _ _ => id, ?_⟩
  · exact fun a ha => ⟨(h.late a ha).1, Nat.le_trans (h.late a ha).2 hle⟩
  · exact fun n => (h.run n).mono rfl hle rfl rfl id fun _ => id

theorem Inv.of_new (h : Inv c s) (hnew : s'.hunts s'.current = .new) (hdisk : s'.disk = s.disk)
    (hstaged : s'.staged = s.staged) (hclock : s'.clock = s.clock)
    (hinactive : ∀ n, (s'.runs n).phase.isActive = false) (howed : ∀ group, ¬ s.Owed group) :
    Inv c s' := by
  have hmemory : s'.timeInMemory = s.timeOnDisk := by
    rw [timeInMemory, hnew, hdisk]
    rfl
  have htime : s'.timeOnDisk = s.timeOnDisk := by
    rw [timeOnDisk, hdisk]
    rfl
  have htrusted : Trusted c s' s.timeOnDisk :=
    h.disk.mono hstaged (Nat.le_of_eq hclock.symm) fun group _ hold => absurd hold (howed group)
  have hnone : ∀ n, ¬ (s'.runs n).phase.isActive = true := by
    intro n hactive
    rw [hinactive n] at hactive
    cases hactive
  refine ⟨fun n _ => hinactive n, fun n _ hn => absurd hn (hnone n), fun n hn => absurd hn (hnone n),
    ?_, hstaged ▸ h.spaced, ?_, ?_, fun n => runLaw_of_inactive (hinactive n)⟩
  · rw [hstaged, hclock]
    exact h.late
  · rw [hmemory]
    exact htrusted
  · rw [htime]
    exact htrusted

theorem Inv.inactive_of_idle (h : Inv c s) (hidle : s.Idle) (n : Nat) :
    (s.runs n).phase.isActive = false := by
  rcases Nat.lt_or_ge n s.nextRun with hn | hn
  · exact hidle n hn
  · exact h.fresh n hn

theorem inv_reload (h : Inv c s) (hu : s.Undisturbed c .reload) : Inv c (s.step c .reload) :=
  h.of_new (update_self _ _ _) rfl rfl rfl (h.inactive_of_idle hu)
    (h.not_owed_of_idle hu)

theorem inv_restart (h : Inv c s) (hu : s.Undisturbed c .restart) :
    Inv c (s.step c .restart) := by
  refine h.of_new (update_self _ _ _) rfl rfl rfl (fun _ => rfl) ?_
  rintro group ⟨n, hrecorded, hgroup⟩
  rcases Nat.lt_or_ge n s.nextRun with hn | hn
  · rw [hu n hn hrecorded] at hgroup
    cases hgroup
  · have hactive := isActive_of_hasRecorded hrecorded
    rw [h.fresh n hn] at hactive
    cases hactive

theorem timeInMemory_look {hunt : Hunt γ} {runs : Nat → HuntRun γ} {nextRun : Nat}
    (htime : hunt.getLastAlertTime s.disk = (s.hunts s.current).getLastAlertTime s.disk)
    (htimes : hunt.getLastAlertTimes s.disk = (s.hunts s.current).getLastAlertTimes s.disk) :
    timeInMemory { s.setHunt s.current hunt with runs, nextRun } = s.timeInMemory := by
  show timesOf ((Function.update s.hunts s.current hunt s.current).getLastAlertTime s.disk)
    ((Function.update s.hunts s.current hunt s.current).getLastAlertTimes s.disk) = _
  rw [update_self, htime, htimes]
  rfl

theorem inv_look {due : Bool} (h : Inv c s) (hu : s.Undisturbed c (.look due)) :
    Inv c (s.step c (.look due)) := by
  simp only [step]
  generalize hhunt : (if c.grouped = true then s.hunts s.current else
    { s.hunts s.current with
      lastAlertTime := some ((s.hunts s.current).getLastAlertTime s.disk) }) = hunt
  have htime : hunt.getLastAlertTime s.disk = (s.hunts s.current).getLastAlertTime s.disk := by
    rw [← hhunt]
    by_cases hgrouped : c.grouped = true
    · rw [if_pos hgrouped]
    · rw [if_neg hgrouped]
      rfl
  have htimes : hunt.getLastAlertTimes s.disk = (s.hunts s.current).getLastAlertTimes s.disk := by
    rw [← hhunt]
    by_cases hgrouped : c.grouped = true
    · rw [if_pos hgrouped]
    · rw [if_neg hgrouped]
      rfl
  have hflag : hunt.lastAlertTimesDirty = (s.hunts s.current).lastAlertTimesDirty := by
    rw [← hhunt]
    by_cases hgrouped : c.grouped = true
    · rw [if_pos hgrouped]
    · rw [if_neg hgrouped]
  by_cases hdispatches : s.dispatches c due = true
  · rw [if_pos hdispatches]
    have hidle : s.Idle := hu hdispatches
    have hinactive := h.inactive_of_idle hidle
    have howed : ∀ group, ¬ s.Owed group := h.not_owed_of_idle hidle
    generalize hs' : ({ s.setHunt s.current { hunt with executionLock := true } with
      runs := Function.update s.runs s.nextRun ⟨s.current, .executing, [], 0⟩
      nextRun := s.nextRun + 1 } : Hunting γ) = s'
    have hruns : s'.runs = Function.update s.runs s.nextRun ⟨s.current, .executing, [], 0⟩ := by
      rw [← hs']
    have hnext : s'.nextRun = s.nextRun + 1 := by rw [← hs']
    have hstaged : s'.staged = s.staged := by rw [← hs']; rfl
    have hclock : s'.clock = s.clock := by rw [← hs']; rfl
    have hcurrent : s'.current = s.current := by rw [← hs']; rfl
    have hdisk : s'.timeOnDisk = s.timeOnDisk := by rw [← hs']; rfl
    have hmemory : s'.timeInMemory = s.timeInMemory := by
      rw [← hs']
      exact timeInMemory_look htime htimes
    have hself : s'.runs s.nextRun = ⟨s.current, .executing, [], 0⟩ := by
      rw [hruns, update_self]
    have hother : ∀ n, n ≠ s.nextRun → (s'.runs n).phase.isActive = false := by
      intro n hn
      rw [hruns, update_of_ne hn]
      exact hinactive n
    have honly : ∀ n, (s'.runs n).phase.isActive = true → n = s.nextRun := by
      intro n hactive
      by_contra hn
      rw [hother n hn] at hactive
      cases hactive
    refine ⟨?_, ?_, ?_, ?_, hstaged ▸ h.spaced, ?_, ?_, ?_⟩
    · intro n hn
      exact hother n (by omega)
    · intro n k hn hk
      rw [honly n hn, honly k hk]
    · intro n hn
      rw [honly n hn, hself, hcurrent]
    · rw [hstaged, hclock]
      exact h.late
    · rw [hmemory]
      exact h.memory.mono hstaged (Nat.le_of_eq hclock.symm) fun group _ hold =>
        absurd hold (howed group)
    · rw [hdisk]
      exact h.disk.mono hstaged (Nat.le_of_eq hclock.symm) fun group _ hold =>
        absurd hold (howed group)
    · intro n
      by_cases hn : n = s.nextRun
      · -- the manager has just found that the hunt is not suppressed
        rw [hn, hself]
        refine ⟨rfl, fun hgrouped => ?_⟩
        have hfree : s.suppressed c = false := by
          simp only [dispatches, Bool.and_eq_true, Bool.not_eq_true'] at hdispatches
          exact hdispatches.1.1
        simp only [suppressed, hgrouped, Bool.not_false, Bool.true_and] at hfree
        have helapsed : Elapsed c s none :=
          h.memory.elapsed (by simp [Suppression.tracks, hgrouped]) hfree
        exact helapsed.mono hstaged (Nat.le_of_eq hclock.symm)
      · exact runLaw_of_inactive (hother n hn)
  · rw [if_neg hdispatches]
    have hmemory : (s.setHunt s.current hunt).timeInMemory = s.timeInMemory :=
      timeInMemory_look htime htimes
    refine ⟨h.fresh, h.single, h.onCurrent, h.late, h.spaced, ?_, h.disk.mono rfl le_rfl fun _ _ => id,
      fun n => (h.run n).mono rfl le_rfl hmemory rfl ?_ fun _ => id⟩
    · rw [hmemory]
      exact h.memory.mono rfl le_rfl fun _ _ => id
    · intro hdirty
      show (Function.update s.hunts s.current hunt s.current).lastAlertTimesDirty = true
      rw [update_self, hflag]
      exact hdirty

theorem inv_step (s : Hunting γ) (event : SuppressionEvent γ) (h : Inv c s)
    (hu : s.Undisturbed c event) : Inv c (s.step c event) := by
  cases event with
  | tick duration => exact inv_tick h duration
  | look due => exact inv_look h hu
  | queried n rows => exact inv_queried h rows
  | failed n => exact inv_failed h
  | filter n => exact inv_filter h
  | record n written =>
    have hwritten : written = true := hu
    subst hwritten
    exact inv_record h
  | prune n => exact inv_prune h
  | pop n => exact inv_pop h
  | save n => exact inv_save h
  | write n written =>
    have hwritten : written = true := hu
    subst hwritten
    exact inv_write h
  | clean n => exact inv_clean h
  | stage n staged =>
    have hdone : staged = true := hu
    subst hdone
    exact inv_stage h
  | reload => exact inv_reload h hu
  | restart => exact inv_restart h hu

/-! ## §4 Histories -/

theorem trusted_init (hlast : last = none) :
    Trusted c (init : Hunting γ) (timesOf last ∅) where
  remembers _ ha := by cases ha
  justified group _ _ ht := by
    subst hlast
    cases group <;> cases ht
  past group _ ht := by
    subst hlast
    cases group <;> cases ht

theorem inv_init : Inv c (init : Hunting γ) where
  fresh _ _ := rfl
  single _ _ hn := by cases hn
  onCurrent _ hn := by cases hn
  late _ ha := by cases ha
  spaced := List.Pairwise.nil
  memory := trusted_init rfl
  disk := trusted_init rfl
  run _ := trivial

theorem Inv.not_owed_of_filtering (h : Inv c s) {pending : List (Option γ)}
    (hphase : (s.runs n).phase = .filtering pending) (group : Option γ) : ¬ s.Owed group := by
  rintro ⟨k, hrecorded, -⟩
  rw [h.single k n (isActive_of_hasRecorded hrecorded) (isActive_of_phase hphase rfl), hphase]
    at hrecorded
  cases hrecorded

theorem Inv.lawful (h : Inv c s) {event : SuppressionEvent γ} (hu : s.Undisturbed c event) :
    Lawful c (Spaced c) s event where
  flood := (inv_step s event h hu).spaced
  timely a ha := ((inv_step s event h hu).late a ha).1
  dropped n group pending _ hphase hdrops := by
    have hn := isActive_of_phase hphase rfl
    simp only [drops, isGroupSuppressed, Bool.and_eq_true, h.huntOf_eq hn] at hdrops
    obtain ⟨hgrouped, hsuppressed⟩ := hdrops
    have htracks : c.tracks (some group) = true := by simp [Suppression.tracks, hgrouped]
    exact (h.memory.staged_of_suppressed htracks hsuppressed).resolve_right
      (h.not_owed_of_filtering hphase _)
  passedOver due _ hsuppressed hidle := by
    simp only [suppressed, Bool.and_eq_true, Bool.not_eq_true'] at hsuppressed
    obtain ⟨hgrouped, hsuppressed⟩ := hsuppressed
    have htracks : c.tracks (none : Option γ) = true := by simp [Suppression.tracks, hgrouped]
    exact (h.memory.staged_of_suppressed htracks hsuppressed).resolve_right
      (h.not_owed_of_idle hidle _)

end Hunting

end Ace3.Collectors
