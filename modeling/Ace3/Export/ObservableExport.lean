import Ace3.Lib.Runs
import Mathlib.Data.List.Dedup
import Mathlib.Data.List.Sort

/-!
# Exporting the Detections

`saq/observables/export/base.py` and `run_exports` of `saq/observables/export/manager.py`: the
list a target intends to publish, the fingerprint that decides whether it is published, and one run
for one target. The targets of a run only share the detections, so the history of a target is the
list of the runs that select it.
-/

namespace Ace3.Export

/-! ## §1 Export lists -/

structure ExportEntry where
  id : Nat
  type : String
  value : String
  deriving DecidableEq

/-- What `get_active_detections_by_type` returns: ids and values of the detections, by type. -/
abbrev Detections := List (String × List (Nat × String))

/-- The order of the key `(entry.type, entry.id)`. -/
def ExportEntry.le (a b : ExportEntry) : Bool :=
  a.type < b.type || a.type == b.type && a.id ≤ b.id

/-- `ObservableExportList`: the entries in their canonical order. -/
def exportList (entries : List ExportEntry) : List ExportEntry :=
  entries.insertionSort (ExportEntry.le · ·)

def strip (s : String) : String :=
  String.ofList ((s.toList.dropWhile (·.isWhitespace)).reverse.dropWhile (·.isWhitespace)).reverse

/-- `select_detections`: a detection is exported under the most specific configured type that
covers it; `ancestors` lists the supertypes of a type, nearest first. -/
def selectDetections (ancestors : String → List String) (configured : List String)
    (detections : Detections) : List ExportEntry :=
  let configured := (configured.map strip).filter (· ≠ "")
  detections.flatMap fun (type, typeDetections) =>
    match (type :: ancestors type).find? (· ∈ configured) with
    | none => []
    | some exportType => typeDetections.map fun (id, value) => ⟨id, exportType, value⟩

def types (entries : List ExportEntry) : List String := (entries.map (·.type)).dedup

def entriesByType (entries : List ExportEntry) : List (String × List ExportEntry) :=
  (types entries).map fun type => (type, entries.filter (·.type = type))

/-! ## §2 Targets and runs -/

/-- How `publish` ends: it returns, it returns but has logged errors on the way, or it raises. -/
inductive PublishOutcome where
  | returned
  | returnedWithErrors
  | raised
  deriving DecidableEq

/-- How `record_fingerprint` ends: the record is written, or an exception leaves the old one or a
malformed one. -/
inductive RecordOutcome where
  | written
  | raisedBefore
  | raisedAfter
  deriving DecidableEq

/-- `ObservableExport`: a target with its state `σ`, that of its record included. `ε` is what a
call of `publish` reads besides the list (settings, files, the date), `δ` are the faults that it
may meet, `γ` is the published content and `φ` the type of fingerprints. -/
structure ObservableExport (ε δ σ γ φ : Type) where
  buildExportList : ε → Detections → List ExportEntry
  getLastFingerprint : σ → Option φ
  publish : ε → δ → List ExportEntry → σ → σ × PublishOutcome
  recordFingerprint : RecordOutcome → φ → σ → σ
  content : σ → γ
  faultless : δ

variable {ε δ σ γ φ : Type}

/-- What a run meets. `interrupted` says that the list cannot be built or the last fingerprint
not be read. -/
structure ExportRun (ε δ : Type) where
  env : ε
  detections : Detections
  force : Bool
  interrupted : Bool
  faults : δ
  recording : RecordOutcome

inductive RunResult where
  | failed
  | skipped
  | published
  deriving DecidableEq

namespace ObservableExport

variable (target : ObservableExport ε δ σ γ φ) (digest : List ExportEntry → φ)

def listOf (run : ExportRun ε δ) : List ExportEntry :=
  target.buildExportList run.env run.detections

variable [DecidableEq φ]

/-- The run calls `publish`: it is forced to, or the fingerprint is not the last one. -/
def publishes (run : ExportRun ε δ) (s : σ) : Bool :=
  !run.interrupted &&
    (run.force || target.getLastFingerprint s ≠ some (digest (target.listOf run)))

/-- The body of the loop of `run_exports`. -/
def runExport (run : ExportRun ε δ) (s : σ) : σ × RunResult :=
  if run.interrupted then (s, .failed)
  else if target.publishes digest run s then
    let (s, outcome) := target.publish run.env run.faults (target.listOf run) s
    if outcome = .raised then (s, .failed)
    else
      (target.recordFingerprint run.recording (digest (target.listOf run)) s,
        if run.recording = .written then .published else .failed)
  else (s, .skipped)

theorem runExport_cases (run : ExportRun ε δ) (s : σ) :
    (run.interrupted ∧ target.runExport digest run s = (s, .failed)) ∨
    (target.publishes digest run s = false ∧
      target.getLastFingerprint s = some (digest (target.listOf run)) ∧
      target.runExport digest run s = (s, .skipped)) ∨
    (target.publishes digest run s ∧
      (target.publish run.env run.faults (target.listOf run) s).2 = .raised ∧
      target.runExport digest run s =
        ((target.publish run.env run.faults (target.listOf run) s).1, .failed)) ∨
    (target.publishes digest run s ∧
      (target.publish run.env run.faults (target.listOf run) s).2 ≠ .raised ∧
      target.runExport digest run s =
        (target.recordFingerprint run.recording (digest (target.listOf run))
          (target.publish run.env run.faults (target.listOf run) s).1,
          if run.recording = .written then .published else .failed)) := by
  by_cases hinterrupted : run.interrupted
  · simp [runExport, hinterrupted]
  by_cases hpublishes : target.publishes digest run s
  · by_cases hraised :
        (target.publish run.env run.faults (target.listOf run) s).2 = .raised <;>
      simp [runExport, hinterrupted, hpublishes, hraised]
  · have hsame : target.getLastFingerprint s = some (digest (target.listOf run)) := by
      simp only [publishes, hinterrupted, Bool.not_false, Bool.true_and, Bool.or_eq_true,
        decide_eq_true_eq, not_or, not_not] at hpublishes
      exact hpublishes.2
    simp [runExport, hinterrupted, hpublishes, hsame]

/-- The published content is what `publish` would produce for the list. -/
def UpToDate (env : ε) (entries : List ExportEntry) (s : σ) : Prop :=
  target.content s = target.content (target.publish env target.faultless entries s).1

def Converges (run : ExportRun ε δ) (s : σ) : Prop :=
  (target.runExport digest run s).2 ≠ .failed →
    target.UpToDate run.env (target.listOf run) (target.runExport digest run s).1

/-! ## §3 Histories of a target -/

end ObservableExport

/-- The state of a target, and what its last call of `publish` was for, if nothing went wrong in
it and the record was written. -/
structure ExportHistory (ε σ : Type) where
  state : σ
  lastPublished : Option (ε × List ExportEntry)

namespace ObservableExport

variable (target : ObservableExport ε δ σ γ φ) (digest : List ExportEntry → φ) [DecidableEq φ]

def step (h : ExportHistory ε σ) (run : ExportRun ε δ) : ExportHistory ε σ where
  state := (target.runExport digest run h.state).1
  lastPublished :=
    if target.publishes digest run h.state then
      if (target.publish run.env run.faults (target.listOf run) h.state).2 = .returned ∧
          run.recording = .written then some (run.env, target.listOf run)
      else none
    else h.lastPublished

/-- No error is swallowed by `publish`; and when a run skips, nothing went wrong in the last call
of `publish`, and it had the same settings and date. -/
def Trusts (h : ExportHistory ε σ) (run : ExportRun ε δ) : Prop :=
  run.interrupted ∨
    if target.publishes digest run h.state then
      (target.publish run.env run.faults (target.listOf run) h.state).2 ≠ .returnedWithErrors
    else h.lastPublished.map (·.1) = some run.env

/-! ## §4 Targets that keep a record of their own -/

/-- A target whose published content depends on the settings and the list only, and whose record
is apart from it. -/
structure Recorded (render : ε → List ExportEntry → γ) : Prop where
  published : ∀ env faults entries s,
    (target.publish env faults entries s).2 = .returned →
      target.content (target.publish env faults entries s).1 = render env entries
  faultless : ∀ env entries s,
    target.content (target.publish env target.faultless entries s).1 ∈
      [render env entries, target.content s]
  recorded : ∀ fingerprint s,
    target.getLastFingerprint (target.recordFingerprint .written fingerprint s) = some fingerprint
  content : ∀ outcome fingerprint s,
    target.content (target.recordFingerprint outcome fingerprint s) = target.content s

/-- What was published last without an error is there, and its fingerprint is recorded. -/
def Holds (render : ε → List ExportEntry → γ) (h : ExportHistory ε σ) : Prop :=
  ∀ env entries, h.lastPublished = some (env, entries) →
    target.content h.state = render env entries ∧
      target.getLastFingerprint h.state = some (digest entries)

variable {target digest} {render : ε → List ExportEntry → γ}

omit [DecidableEq φ] in
theorem Recorded.upToDate (hrecorded : target.Recorded render) {env : ε}
    {entries : List ExportEntry} {s : σ} (hs : target.content s = render env entries) :
    target.UpToDate env entries s := by
  have hfaultless := hrecorded.faultless env entries s
  simp only [List.mem_cons, List.not_mem_nil, or_false] at hfaultless
  rcases hfaultless with h | h
  · exact hs.trans h.symm
  · exact h.symm

omit [DecidableEq φ] in
theorem holds_init (s : σ) : target.Holds digest render ⟨s, none⟩ := by
  intro env entries hlast
  simp at hlast

theorem Holds.step (hrecorded : target.Recorded render) {h : ExportHistory ε σ}
    (hinv : target.Holds digest render h) (run : ExportRun ε δ) :
    target.Holds digest render (target.step digest h run) := by
  intro env entries hlast
  simp only [ObservableExport.step] at hlast ⊢
  rcases target.runExport_cases digest run h.state with
    ⟨hinterrupted, heq⟩ | ⟨hpublishes, -, heq⟩ | ⟨hpublishes, hraised, heq⟩ |
      ⟨hpublishes, -, heq⟩
  · have hpublishes : target.publishes digest run h.state = false := by
      simp [publishes, hinterrupted]
    simp only [hpublishes, Bool.false_eq_true, if_false] at hlast
    exact heq ▸ hinv env entries hlast
  · simp only [hpublishes, Bool.false_eq_true, if_false] at hlast
    exact heq ▸ hinv env entries hlast
  · simp [hpublishes, hraised] at hlast
  · simp only [hpublishes, if_true, Option.ite_none_right_eq_some, Option.some.injEq,
      Prod.mk.injEq] at hlast
    obtain ⟨⟨hreturned, hwritten⟩, rfl, rfl⟩ := hlast
    simp only [heq, hwritten]
    exact ⟨(hrecorded.content ..).trans (hrecorded.published _ _ _ _ hreturned),
      hrecorded.recorded ..⟩

theorem Holds.converges (hrecorded : target.Recorded render) (hdigest : Function.Injective digest)
    {h : ExportHistory ε σ} (hinv : target.Holds digest render h) {run : ExportRun ε δ}
    (htrusts : target.Trusts digest h run) : target.Converges digest run h.state := by
  intro hresult
  rcases target.runExport_cases digest run h.state with
    ⟨-, heq⟩ | ⟨hpublishes, hsame, heq⟩ | ⟨-, -, heq⟩ | ⟨hpublishes, hraised, heq⟩
  · simp [heq] at hresult
  · -- the fingerprint is the recorded one, so the list is the one that was published
    have hinterrupted : ¬ run.interrupted := by
      intro hinterrupted
      simp [runExport, hinterrupted] at heq
    have htrusts := htrusts.resolve_left hinterrupted
    simp only [hpublishes, Bool.false_eq_true, if_false] at htrusts
    obtain ⟨⟨env, entries⟩, hlast, henv⟩ := Option.map_eq_some_iff.mp htrusts
    obtain ⟨hcontent, hfingerprint⟩ := hinv env entries hlast
    have hentries : entries = target.listOf run :=
      hdigest (Option.some.inj (hfingerprint.symm.trans hsame))
    obtain rfl : env = run.env := henv
    exact heq ▸ hrecorded.upToDate (hentries ▸ hcontent)
  · simp [heq] at hresult
  · have hinterrupted : ¬ run.interrupted := by
      intro hinterrupted
      simp [publishes, hinterrupted] at hpublishes
    have htrusts := htrusts.resolve_left hinterrupted
    simp only [hpublishes, if_true] at htrusts
    have hreturned :
        (target.publish run.env run.faults (target.listOf run) h.state).2 = .returned := by
      cases houtcome : (target.publish run.env run.faults (target.listOf run) h.state).2 with
      | returned => rfl
      | returnedWithErrors => exact absurd houtcome htrusts
      | raised => exact absurd houtcome hraised
    exact heq ▸ hrecorded.upToDate
      ((hrecorded.content ..).trans (hrecorded.published _ _ _ _ hreturned))

open Lib.Runs in
theorem Recorded.run_converges (hrecorded : target.Recorded render)
    (hdigest : Function.Injective digest) (s : σ) (runs : List (ExportRun ε δ))
    (htrusts : Along (target.step digest) (target.Trusts digest) ⟨s, none⟩ runs) :
    Along (target.step digest) (fun h run => target.Converges digest run h.state) ⟨s, none⟩ runs :=
  htrusts.of_invariant (target.Holds digest render)
    (fun _ run hinv _ => hinv.step hrecorded run)
    (fun _ _ hinv htrusts => hinv.converges hrecorded hdigest htrusts) (holds_init s)

end ObservableExport

end Ace3.Export
