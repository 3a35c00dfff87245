import Ace3.Cache.ResultCache
import Ace3.Lib.Runs
import Mathlib.Logic.Function.Basic

/-!
# Garbage Collection of the Blob Store

`put`, `reference`, `unreference` and `maintain_global` of the local blob store of
`saq/analysis/blob_store.py`, interleaved operation by operation. Any number of puts and sweeps
are in progress at a time.
-/

namespace Ace3.Cache

open List Function
open Lib.Runs (Along along_cons)

/-! ## §1 The state -/

/-- A call of `put`. Bytes are written when the target is not there; a stream is written first. -/
inductive PutPhase where
  | idle
  /-- Bytes without a target. -/
  | absent (sha256 : String)
  /-- A stream in its temporary file, before the target is looked for. -/
  | buffered (sha256 : String) (mtime : Nat)
  /-- A temporary file that is to be renamed. -/
  | written (sha256 : String) (mtime : Nat)
  /-- About to return. -/
  | stored (sha256 : String)
  deriving DecidableEq

inductive SweepPhase where
  /-- Walking the shard tree. -/
  | walking (seen candidates : List String)
  /-- The candidates of the batches to come, and those of this batch that were found without a
  reference. -/
  | deleting (pending unreferenced : List String)
  deriving DecidableEq

/-- A call of `maintain_global`. -/
structure Sweep where
  /-- `time.time()` at its start. -/
  start : Nat
  dryRun : Bool
  phase : SweepPhase
  deriving DecidableEq

def maintenanceBatch : Nat := 500

/-- The files and references, the calls in progress, and what has been promised to callers. -/
structure DurableTier where
  now : Nat
  /-- The blobs on disk, with the modification times of their files. -/
  mtimes : String → Option Nat
  blobRefs : List BlobRef
  puts : Nat → PutPhase
  sweeps : Nat → Option Sweep
  /-- The puts that have returned, and when. -/
  returned : List (String × Nat)
  /-- The references that stand and were made within the grace period after a put. -/
  guarded : List BlobRef

namespace DurableTier

def setPut (s : DurableTier) (client : Nat) (phase : PutPhase) : DurableTier :=
  { s with puts := Function.update s.puts client phase }

def setSweep (s : DurableTier) (node : Nat) (sweep : Option Sweep) : DurableTier :=
  { s with sweeps := Function.update s.sweeps node sweep }

def setFile (s : DurableTier) (sha256 : String) (mtime : Option Nat) : DurableTier :=
  { s with mtimes := Function.update s.mtimes sha256 mtime }

/-- A put of the blob has returned, and the grace period is not over. -/
def WithinGrace (grace : Nat) (s : DurableTier) (sha256 : String) : Prop :=
  ∃ put ∈ s.returned, put.1 = sha256 ∧ s.now ≤ put.2 + grace

instance (grace : Nat) (s : DurableTier) (sha256 : String) :
    Decidable (s.WithinGrace grace sha256) :=
  inferInstanceAs (Decidable (∃ put ∈ s.returned, _))

def putGoesOn (s : DurableTier) (client : Nat) : DurableTier :=
  match s.puts client with
  | .idle => s
  | .absent sha256 => s.setPut client (.written sha256 s.now)
  | .buffered sha256 mtime =>
    s.setPut client (if (s.mtimes sha256).isSome then .stored sha256 else .written sha256 mtime)
  | .written sha256 mtime => (s.setFile sha256 (some mtime)).setPut client (.stored sha256)
  | .stored sha256 =>
    { s.setPut client .idle with returned := (sha256, s.now) :: s.returned }

/-- `reference`, which is promised to last when it is in time. -/
def reference (grace : Nat) (s : DurableTier) (ref : BlobRef) : DurableTier :=
  { s with
    blobRefs := if ref ∈ s.blobRefs then s.blobRefs else s.blobRefs ++ [ref]
    guarded := if s.WithinGrace grace ref.sha256 then ref :: s.guarded else s.guarded }

def unreference (s : DurableTier) (ref : BlobRef) : DurableTier :=
  { s with blobRefs := s.blobRefs.filter (· ≠ ref), guarded := s.guarded.filter (· ≠ ref) }

def isReferenced (s : DurableTier) (sha256 : String) : Bool :=
  s.blobRefs.any (·.sha256 = sha256)

end DurableTier

/-! ## §2 Events -/

inductive TierEvent where
  | passes (time : Nat)
  | putBytes (client : Nat) (sha256 : String)
  | putStream (client : Nat) (sha256 : String)
  | putGoesOn (client : Nat)
  /-- A put raises, or its process ends. -/
  | putFails (client : Nat)
  | reference (ref : BlobRef)
  | unreference (ref : BlobRef)
  | starts (node : Nat) (dryRun : Bool)
  /-- The walk yields a name, which is looked up. -/
  | visits (node : Nat) (sha256 : String)
  | endsWalk (node : Nat)
  /-- `query_referenced_shas` for the next batch. -/
  | queries (node : Nat)
  /-- The next blob without a reference; `os.unlink` may fail. -/
  | unlinks (node : Nat) (fails : Bool)
  /-- A sweep ends, or its process does. -/
  | ends (node : Nat)
  deriving DecidableEq

/-- The file is there and not younger than the cutoff. -/
def Sweep.isCandidate (grace : Nat) (sweep : Sweep) : Option Nat → Bool
  | none => false
  | some mtime => !(sweep.start < mtime + grace)

/-- What a walking sweep makes of a name and the modification time of its file. -/
def Sweep.visit (grace : Nat) (mtime : Option Nat) (sha256 : String) (sweep : Sweep) : Sweep :=
  match sweep.phase with
  | .walking seen candidates =>
    if sha256 ∈ seen then sweep
    else
      { sweep with
        phase := .walking (sha256 :: seen)
          (if sweep.isCandidate grace mtime then candidates ++ [sha256] else candidates) }
  | .deleting .. => sweep

def Sweep.endWalk (sweep : Sweep) : Sweep :=
  match sweep.phase with
  | .walking _ candidates => { sweep with phase := .deleting candidates [] }
  | .deleting .. => sweep

/-- The next batch is looked up once the last one is done. -/
def Sweep.query (isReferenced : String → Bool) (sweep : Sweep) : Sweep :=
  match sweep.phase with
  | .deleting pending [] =>
    { sweep with
      phase := .deleting (pending.drop maintenanceBatch)
        ((pending.take maintenanceBatch).filter fun sha256 => !isReferenced sha256) }
  | _ => sweep

/-- The blob that a sweep is about to unlink, and the sweep behind it. -/
def Sweep.next? (sweep : Sweep) : Option (String × Sweep) :=
  match sweep.phase with
  | .deleting pending (sha256 :: unreferenced) =>
    some (sha256, { sweep with phase := .deleting pending unreferenced })
  | _ => none

namespace TierEvent

def step (grace : Nat) (s : DurableTier) : TierEvent → DurableTier
  | passes time => { s with now := s.now + time }
  | putBytes client sha256 =>
    if s.puts client = .idle then
      s.setPut client (if (s.mtimes sha256).isSome then .stored sha256 else .absent sha256)
    else s
  | putStream client sha256 =>
    if s.puts client = .idle then s.setPut client (.buffered sha256 s.now) else s
  | putGoesOn client => s.putGoesOn client
  | putFails client => s.setPut client .idle
  | reference ref => s.reference grace ref
  | unreference ref => s.unreference ref
  | starts node dryRun =>
    if (s.sweeps node).isSome then s
    else s.setSweep node (some ⟨s.now, dryRun, .walking [] []⟩)
  | visits node sha256 =>
    s.setSweep node ((s.sweeps node).map (·.visit grace (s.mtimes sha256) sha256))
  | endsWalk node => s.setSweep node ((s.sweeps node).map (·.endWalk))
  | queries node => s.setSweep node ((s.sweeps node).map (·.query s.isReferenced))
  | unlinks node fails =>
    match s.sweeps node with
    | none => s
    | some sweep =>
      match sweep.next? with
      | none => s
      | some (sha256, rest) =>
        let s' := s.setSweep node (some rest)
        if sweep.dryRun || fails then s' else s'.setFile sha256 none
  | ends node => s.setSweep node none

def deletes (s : DurableTier) : TierEvent → Option String
  | unlinks node fails =>
    match s.sweeps node with
    | none => none
    | some sweep =>
      match sweep.next? with
      | none => none
      | some (sha256, _) =>
        if sweep.dryRun || fails || (s.mtimes sha256).isNone then none else some sha256
  | _ => none

end TierEvent

/-! ## §3 References within the grace period -/

/-- What a sweep has found without a reference and will unlink. -/
def Sweep.unreferenced (sweep : Sweep) : List String :=
  match sweep.phase with
  | .walking .. => []
  | .deleting _ unreferenced => unreferenced

/-- A sweep will unlink the blob without looking for references again. -/
def Sweep.dooms (sweep : Sweep) (sha256 : String) : Prop :=
  sweep.dryRun = false ∧ sha256 ∈ sweep.unreferenced

namespace DurableTier

def Doomed (s : DurableTier) (sha256 : String) : Prop :=
  ∃ node, ∃ sweep ∈ s.sweeps node, sweep.dooms sha256

/-- References that are to last stand, and no sweep is about to unlink their blobs. -/
structure Guards (s : DurableTier) : Prop where
  stands : ∀ ref ∈ s.guarded, ref ∈ s.blobRefs
  spared : ∀ ref ∈ s.guarded, ¬ s.Doomed ref.sha256

end DurableTier

/-- No blob is deleted while a reference to it stands that was made within the grace period after
a put of it had returned. -/
def TierEvent.Safe (s : DurableTier) (event : TierEvent) : Prop :=
  ∀ sha256 ∈ event.deletes s, ∀ ref ∈ s.guarded, ref.sha256 ≠ sha256

instance (s : DurableTier) (event : TierEvent) : Decidable (event.Safe s) :=
  inferInstanceAs (Decidable (∀ sha256 ∈ event.deletes s, ∀ ref ∈ s.guarded, _))

/-- No such reference is made behind the back of a sweep that has found the blob without one. -/
def TierEvent.InTime (grace : Nat) (s : DurableTier) : TierEvent → Prop
  | reference ref => s.WithinGrace grace ref.sha256 → ¬ s.Doomed ref.sha256
  | _ => True

/-! ## §4 What a sweep has found unreferenced -/

namespace Sweep

theorem unreferenced_visit (grace : Nat) (mtime : Option Nat) (sha256 : String) (sweep : Sweep) :
    (sweep.visit grace mtime sha256).unreferenced = sweep.unreferenced := by
  unfold visit
  split
  next hphase =>
    split
    · rfl
    · simp only [unreferenced, hphase]
  · rfl

theorem dryRun_visit (grace : Nat) (mtime : Option Nat) (sha256 : String) (sweep : Sweep) :
    (sweep.visit grace mtime sha256).dryRun = sweep.dryRun := by
  unfold visit
  split
  · split <;> rfl
  · rfl

theorem unreferenced_endWalk (sweep : Sweep) : sweep.endWalk.unreferenced = sweep.unreferenced := by
  cases hphase : sweep.phase with
  | walking seen candidates => simp only [endWalk, hphase, unreferenced]
  | deleting pending unreferenced => simp only [endWalk, hphase]

theorem dryRun_endWalk (sweep : Sweep) : sweep.endWalk.dryRun = sweep.dryRun := by
  unfold endWalk
  split <;> rfl

theorem dryRun_query (isReferenced : String → Bool) (sweep : Sweep) :
    (sweep.query isReferenced).dryRun = sweep.dryRun := by
  unfold query
  split <;> rfl

variable {sha256 : String}

theorem mem_unreferenced_query {isReferenced : String → Bool} {sweep : Sweep}
    (h : sha256 ∈ (sweep.query isReferenced).unreferenced) :
    sha256 ∈ sweep.unreferenced ∨ isReferenced sha256 = false := by
  unfold query at h
  split at h
  · have hfound := (mem_filter.mp h).2
    exact .inr (by simpa using hfound)
  · exact .inl h

theorem next?_eq_some {sweep rest : Sweep} (h : sweep.next? = some (sha256, rest)) :
    rest.dryRun = sweep.dryRun ∧ sweep.unreferenced = sha256 :: rest.unreferenced := by
  unfold next? at h
  split at h
  next hphase =>
    obtain ⟨rfl, rfl⟩ := Prod.mk.inj (Option.some.inj h)
    exact ⟨rfl, by simp only [unreferenced, hphase]⟩
  · cases h

theorem next?_of_unreferenced {sweep : Sweep} {unreferenced : List String}
    (h : sweep.unreferenced = sha256 :: unreferenced) :
    ∃ rest, sweep.next? = some (sha256, rest) ∧ rest.dryRun = sweep.dryRun ∧
      rest.unreferenced = unreferenced := by
  cases hphase : sweep.phase with
  | walking seen candidates => simp [Sweep.unreferenced, hphase] at h
  | deleting pending found =>
    simp only [Sweep.unreferenced, hphase] at h
    subst h
    simp only [next?, hphase]
    exact ⟨_, rfl, rfl, rfl⟩

end Sweep

namespace DurableTier

variable {s : DurableTier} {grace : Nat}

theorem doomed_setSweep {node : Nat} {sweep : Option Sweep} {sha256 : String}
    (h : (s.setSweep node sweep).Doomed sha256) :
    (∃ sweep' ∈ sweep, sweep'.dooms sha256) ∨ s.Doomed sha256 := by
  obtain ⟨node', sweep', hsweep', hdooms⟩ := h
  rcases eq_or_ne node' node with rfl | hne
  · change sweep' ∈ Function.update s.sweeps node' sweep node' at hsweep'
    rw [update_self] at hsweep'
    exact .inl ⟨sweep', hsweep', hdooms⟩
  · change sweep' ∈ Function.update s.sweeps node sweep node' at hsweep'
    rw [update_of_ne hne] at hsweep'
    exact .inr ⟨node', sweep', hsweep', hdooms⟩

theorem Guards.setSweep_of_le (hs : s.Guards) {node : Nat} {sweep : Option Sweep}
    (hle : ∀ sweep' ∈ sweep, ∀ sha256, sweep'.dooms sha256 →
      s.Doomed sha256 ∨ s.isReferenced sha256 = false) :
    (s.setSweep node sweep).Guards := by
  refine ⟨hs.stands, fun ref href hdoomed => ?_⟩
  rcases doomed_setSweep hdoomed with ⟨sweep', hsweep', hdooms⟩ | hold
  · rcases hle sweep' hsweep' _ hdooms with hold | hnone
    · exact hs.spared ref href hold
    · have := any_eq_false.mp hnone ref (hs.stands ref href)
      simp at this
  · exact hs.spared ref href hold

theorem Guards.reference (hs : s.Guards) {ref : BlobRef}
    (htime : s.WithinGrace grace ref.sha256 → ¬ s.Doomed ref.sha256) :
    (s.reference grace ref).Guards := by
  have hstands : ∀ other ∈ s.blobRefs, other ∈ (s.reference grace ref).blobRefs := by
    intro other hother
    change other ∈ if _ then _ else _
    split
    · exact hother
    · exact mem_append_left _ hother
  have hself : ref ∈ (s.reference grace ref).blobRefs := by
    change ref ∈ if _ then _ else _
    split
    next h => exact h
    · exact mem_append_right _ (mem_singleton.mpr rfl)
  have hguarded : ∀ other ∈ (s.reference grace ref).guarded,
      other ∈ s.guarded ∨ (other = ref ∧ s.WithinGrace grace ref.sha256) := by
    intro other hother
    change other ∈ if _ then _ else _ at hother
    split at hother
    next hgrace =>
      rcases mem_cons.mp hother with rfl | hold
      · exact .inr ⟨rfl, hgrace⟩
      · exact .inl hold
    next => exact .inl hother
  constructor
  · intro other hother
    rcases hguarded other hother with hold | ⟨rfl, -⟩
    · exact hstands other (hs.stands other hold)
    · exact hself
  · intro other hother
    rcases hguarded other hother with hold | ⟨rfl, hgrace⟩
    · exact hs.spared other hold
    · exact htime hgrace

theorem Guards.unreference (hs : s.Guards) (ref : BlobRef) : (s.unreference ref).Guards := by
  constructor
  · intro other hother
    obtain ⟨hold, hne⟩ := mem_filter.mp hother
    exact mem_filter.mpr ⟨hs.stands other hold, hne⟩
  · exact fun other hother => hs.spared other (mem_filter.mp hother).1

theorem Guards.of_eq {s' : DurableTier} (hs : s.Guards) (hrefs : s'.blobRefs = s.blobRefs)
    (hguarded : s'.guarded = s.guarded) (hsweeps : s'.sweeps = s.sweeps) : s'.Guards := by
  constructor
  · rw [hrefs, hguarded]
    exact hs.stands
  · rintro ref href ⟨node, sweep, hsweep, hdooms⟩
    rw [hguarded] at href
    rw [hsweeps] at hsweep
    exact hs.spared ref href ⟨node, sweep, hsweep, hdooms⟩

theorem Guards.putGoesOn (hs : s.Guards) (client : Nat) : (s.putGoesOn client).Guards := by
  unfold DurableTier.putGoesOn
  split <;> exact hs.of_eq rfl rfl rfl

theorem Guards.setSweep_map (hs : s.Guards) {node : Nat} {next : Sweep → Sweep}
    (hnext : ∀ sweep sha256, (next sweep).dooms sha256 →
      sweep.dooms sha256 ∨ s.isReferenced sha256 = false) :
    (s.setSweep node ((s.sweeps node).map next)).Guards := by
  refine hs.setSweep_of_le fun sweep' hsweep' sha256 hdooms => ?_
  obtain ⟨sweep, hsweep, rfl⟩ := Option.map_eq_some_iff.mp hsweep'
  exact (hnext sweep sha256 hdooms).imp_left fun hold => ⟨node, sweep, hsweep, hold⟩

end DurableTier

namespace TierEvent

variable {s : DurableTier} {grace : Nat}

theorem dooms_of_next? {sweep rest : Sweep} {sha256 : String}
    (h : sweep.next? = some (sha256, rest)) (hdryRun : sweep.dryRun = false) :
    sweep.dooms sha256 := by
  refine ⟨hdryRun, ?_⟩
  rw [(Sweep.next?_eq_some h).2]
  exact mem_cons_self

theorem guards_step (hs : s.Guards) {event : TierEvent} (htime : event.InTime grace s) :
    (event.step grace s).Guards := by
  cases event with
  | passes time => exact hs.of_eq rfl rfl rfl
  | putBytes client sha256 =>
    simp only [step]
    split
    · exact hs.of_eq rfl rfl rfl
    · exact hs
  | putStream client sha256 =>
    simp only [step]
    split
    · exact hs.of_eq rfl rfl rfl
    · exact hs
  | putGoesOn client => exact hs.putGoesOn client
  | putFails client => exact hs.of_eq rfl rfl rfl
  | reference ref => exact hs.reference htime
  | unreference ref => exact hs.unreference ref
  | starts node dryRun =>
    simp only [step]
    split
    · exact hs
    · refine hs.setSweep_of_le fun sweep' hsweep' sha256 hdooms => ?_
      obtain rfl := Option.some.inj hsweep'
      cases hdooms.2
  | visits node sha256 =>
    refine hs.setSweep_map fun sweep sha256' hdooms => .inl ?_
    rwa [Sweep.dooms, Sweep.dryRun_visit, Sweep.unreferenced_visit] at hdooms
  | endsWalk node =>
    refine hs.setSweep_map fun sweep sha256' hdooms => .inl ?_
    rwa [Sweep.dooms, Sweep.dryRun_endWalk, Sweep.unreferenced_endWalk] at hdooms
  | queries node =>
    refine hs.setSweep_map fun sweep sha256' hdooms => ?_
    obtain ⟨hdryRun, hmem⟩ := hdooms
    rw [Sweep.dryRun_query] at hdryRun
    exact (Sweep.mem_unreferenced_query hmem).imp_left fun hold => ⟨hdryRun, hold⟩
  | unlinks node fails =>
    simp only [step]
    split
    · exact hs
    next sweep hsweep =>
      split
      · exact hs
      next sha256 rest hnext =>
        obtain ⟨hdryRun, hunreferenced⟩ := Sweep.next?_eq_some hnext
        have hguards : (s.setSweep node (some rest)).Guards := by
          refine hs.setSweep_of_le fun sweep' hsweep' sha256' hdooms => .inl ?_
          obtain rfl := Option.some.inj hsweep'
          refine ⟨node, sweep, hsweep, hdryRun ▸ hdooms.1, ?_⟩
          rw [hunreferenced]
          exact mem_cons_of_mem _ hdooms.2
        split
        · exact hguards
        · exact hguards.of_eq rfl rfl rfl
  | ends node => exact hs.setSweep_of_le fun sweep' hsweep' => by cases hsweep'

theorem safe_of_guards (hs : s.Guards) (event : TierEvent) : event.Safe s := by
  intro sha256 hdeletes ref href hsame
  unfold deletes at hdeletes
  split at hdeletes
  next node fails =>
    cases hsweep : s.sweeps node with
    | none => simp [hsweep] at hdeletes
    | some sweep =>
      cases hnext : sweep.next? with
      | none => simp [hsweep, hnext] at hdeletes
      | some found =>
        simp only [hsweep, hnext, Option.mem_def, ite_eq_iff, reduceCtorEq, and_false,
          Option.some.injEq, false_or] at hdeletes
        obtain ⟨hlive, hfound⟩ := hdeletes
        have hdryRun : sweep.dryRun = false := by
          cases h : sweep.dryRun with
          | false => rfl
          | true => simp [h] at hlive
        have hdoomed : s.Doomed found.1 := ⟨node, sweep, hsweep, dooms_of_next? hnext hdryRun⟩
        exact hs.spared ref href (hsame.trans hfound.symm ▸ hdoomed)
  next => cases hdeletes

end TierEvent

/-! ## §5 Runs -/

/-- In a run in which no reference that is to last is made behind the back of a sweep, no blob is
deleted while such a reference to it stands. -/
theorem guarded_blobs_are_not_deleted {grace : Nat} {s : DurableTier} (hs : s.Guards)
    {events : List TierEvent}
    (htime : Along (TierEvent.step grace) (fun s event => event.InTime grace s) s events) :
    Along (TierEvent.step grace) (fun s event => event.Safe s) s events :=
  htime.of_invariant DurableTier.Guards (fun _ _ hs htime => TierEvent.guards_step hs htime)
    (fun _ event hs _ => event.safe_of_guards hs) hs

/-- A store with an old blob that nothing references. -/
def tierWithOldBlob : DurableTier where
  now := 100
  mtimes name := if name = "old" then some 0 else none
  blobRefs := []
  puts _ := .idle
  sweeps _ := none
  returned := []
  guarded := []

theorem guards_tierWithOldBlob : tierWithOldBlob.Guards := ⟨nofun, nofun⟩

/-- A blob is put and referenced, and a sweep deletes the old one. -/
theorem old_blob_is_collected :
    Along (TierEvent.step 10) (fun s event => event.Safe s) tierWithOldBlob
      [.putBytes 0 "new", .putGoesOn 0, .putGoesOn 0, .putGoesOn 0,
        .reference (.ofCacheKey "new" "key"), .starts 1 false, .visits 1 "new", .visits 1 "old",
        .endsWalk 1, .queries 1, .unlinks 1 false] := by
  refine guarded_blobs_are_not_deleted guards_tierWithOldBlob
    ⟨trivial, trivial, trivial, trivial, fun _ => ?_, trivial, trivial, trivial, trivial, trivial,
      trivial, trivial⟩
  rintro ⟨node, sweep, hsweep, -⟩
  cases hsweep

/-- The old blob is put again and referenced at once; a sweep that has just looked for references
deletes it. -/
theorem referenced_old_blob_is_deleted :
    ¬ Along (TierEvent.step 10) (fun s event => event.Safe s) tierWithOldBlob
      [.putBytes 0 "old", .putGoesOn 0, .starts 1 false, .visits 1 "old", .endsWalk 1, .queries 1,
        .reference (.ofCacheKey "old" "key"), .unlinks 1 false] := by
  decide

end Ace3.Cache
