import Ace3.Cache.TakenReferences
import Ace3.Lib.Runs

/-!
# The References of the Cached Rows

Runs of calls of `put_cached_delta` between which blobs are referenced and unreferenced and the
clock goes on.
-/

namespace Ace3.Cache

open List
open Lib.Json
open Lib.Json.Value (reloadDict)
open Lib.Runs (Along along_iff_of_invariant)

variable {Bytes : Type}

/-! ## §1 Calls and events -/

/-- A call of `put_cached_delta`, with the moments at which its operations raise. -/
structure PutCall (Bytes : Type) where
  config : Config
  module : Module
  root : Option (RootFiles Bytes)
  delta : ModuleExecutionDelta
  faults : List Bool

namespace PutCall

def cacheKey (call : PutCall Bytes) : String := call.delta.cacheKeyFor call.module

def run (codec : Codec Bytes) (call : PutCall Bytes) (s : Store Bytes) :
    PutOutcome × Store Bytes :=
  putCachedDelta codec call.config call.module call.root call.delta call.faults s

def accepted (codec : Codec Bytes) (call : PutCall Bytes) : Option Nat :=
  match refusal? codec call.config call.module call.root call.delta with
  | some _ => none
  | none => call.module.cacheTtl

def take (codec : Codec Bytes) (call : PutCall Bytes) (s : Store Bytes) :
    EStateM.Result Unit (Session Bytes) (Dict × Bool × Bool) :=
  takeReferences codec call.config call.root call.delta call.cacheKey ⟨s, call.faults⟩

end PutCall

inductive CacheEvent (Bytes : Type) where
  | put (call : PutCall Bytes)
  | reference (ref : BlobRef)
  | unreference (ref : BlobRef)
  | passes (microseconds : Nat)

def Store.passes (s : Store Bytes) (microseconds : Nat) : Store Bytes :=
  { s with
    now := s.now + microseconds
    past := fun row hrow => Nat.le_add_right_of_le (s.past row hrow) }

def CacheEvent.step (codec : Codec Bytes) (s : Store Bytes) : CacheEvent Bytes → Store Bytes
  | put call => (call.run codec s).2
  | reference ref => s.reference ref
  | unreference ref => s.unreference ref
  | passes microseconds => s.passes microseconds

/-! ## §2 What a row mentions -/

/-- The blobs that `get_cached_delta` looks up for a row: its details, when the row has blobs and
they look like a pointer, and its files. -/
def CacheRow.mentions (codec : Codec Bytes) (row : CacheRow Bytes) : List String :=
  match ((codec.decompress row.deltaZstd).bind codec.loads).bind dict? with
  | none => []
  | some deltaDict =>
    (if row.hasBlobRefs then (detailsBlobRef deltaDict).toList else []) ++ fileBlobRefs deltaDict

def Store.Referenced (codec : Codec Bytes) (s : Store Bytes) : Prop :=
  ∀ row ∈ s.rows, s.seconds < row.expiresAt →
    ∀ sha ∈ row.mentions codec, .ofCacheKey sha row.cacheKey ∈ s.blobRefs

/-- A call that does not write its row leaves the references as it found them. -/
def CacheEvent.LeavesReferences (codec : Codec Bytes) (s : Store Bytes) :
    CacheEvent Bytes → Prop
  | put call => (∀ result, (call.run codec s).1 ≠ .written result) →
      ∀ ref, ref ∈ (call.run codec s).2.blobRefs ↔ ref ∈ s.blobRefs
  | _ => True

/-! ## §3 What a call has to meet -/

def Store.NothingNew (s s' : Store Bytes) : Prop := ∀ ref ∈ s'.blobRefs, ref ∈ s.blobRefs

/-- Behind the first half: a delta that is refused now drops the references that are new and no
others; a row whose `INSERT` raises has taken no new reference; and the details of a row with
blobs that look like a pointer name a blob that is referenced. -/
def PutCall.SoundFinish (codec : Codec Bytes) (s : Store Bytes) (call : PutCall Bytes) (ttl : Nat)
    (deltaDict : Dict) (spilled changed : Bool) (session : Session Bytes) : Prop :=
  if changed ∨ tooLarge codec call.config deltaDict then
    hasBlobRefs call.delta spilled →
      (∀ sha ∈ reached (extractBlobRefs deltaDict) session.faults,
        .ofCacheKey sha call.cacheKey ∉ s.blobRefs) ∧
      ∀ sha ∈ extractBlobRefs deltaDict,
        .ofCacheKey sha call.cacheKey ∈ session.store.blobRefs →
          .ofCacheKey sha call.cacheKey ∉ s.blobRefs →
            sha ∈ reached (extractBlobRefs deltaDict) session.faults
  else
    ((session.store.hasRow call.cacheKey = false ∧ quiet 2 session.faults) ∨
      s.NothingNew session.store) ∧
    (inserts call.cacheKey session → 0 < ttl → hasBlobRefs call.delta spilled →
      ∀ sha ∈ detailsBlobRef (reloadDict deltaDict),
        .ofCacheKey sha call.cacheKey ∈ session.store.blobRefs)

/-- What a call has to meet: what raises before has taken no new reference. -/
def PutCall.Sound (codec : Codec Bytes) (s : Store Bytes) (call : PutCall Bytes) : Prop :=
  match call.accepted codec with
  | none => True
  | some ttl =>
    match call.take codec s with
    | .error () session => s.NothingNew session.store
    | .ok (deltaDict, spilled, changed) session =>
      call.SoundFinish codec s ttl deltaDict spilled changed session

/-- What an event has to meet; only a reference that no unexpired row needs is dropped. -/
def CacheEvent.Sound (codec : Codec Bytes) (s : Store Bytes) : CacheEvent Bytes → Prop
  | put call => call.Sound codec s
  | unreference ref => ∀ row ∈ s.rows, s.seconds < row.expiresAt →
      ∀ sha ∈ row.mentions codec, ref ≠ .ofCacheKey sha row.cacheKey
  | _ => True

/-! ## §4 One event -/

variable {codec : Codec Bytes}

theorem Store.Referenced.of_kept {s s' : Store Bytes} (hs : s.Referenced codec)
    (hkept : ∀ ref ∈ s.blobRefs, ref ∈ s'.blobRefs) (hrows : s'.rows = s.rows)
    (hnow : s'.now = s.now) : s'.Referenced codec := by
  intro row hrow hunexpired sha hsha
  rw [hrows] at hrow
  rw [Store.seconds, hnow] at hunexpired
  exact hkept _ (hs row hrow hunexpired sha hsha)

variable {cacheKey : String}

theorem Store.Referenced.insertRow_iff {s : Store Bytes} (hs : s.Referenced codec)
    {deltaZstd : Bytes} {size ttl : Nat} {refs : Bool} :
    (s.insertRow cacheKey deltaZstd size refs ttl).Referenced codec ↔
      (0 < ttl → ∀ sha ∈ CacheRow.mentions codec
        ⟨cacheKey, deltaZstd, size, refs, s.now, s.seconds + ttl⟩,
          .ofCacheKey sha cacheKey ∈ s.blobRefs) := by
  constructor
  · intro hinserted httl
    exact hinserted _ (mem_append_right _ (mem_singleton.mpr rfl))
      (Nat.lt_add_of_pos_right httl)
  · intro hnew row hrow hunexpired
    rcases mem_append.mp hrow with hold | hlast
    · exact hs row hold hunexpired
    · obtain rfl := mem_singleton.mp hlast
      exact hnew (Nat.pos_of_lt_add_right hunexpired)

theorem CacheRow.mentions_written {deltaDict : Dict} {size : Nat} {refs : Bool}
    {createdAt expiresAt : Nat} :
    CacheRow.mentions codec ⟨cacheKey, codec.compress (codec.dumps (.dict deltaDict)), size, refs,
        createdAt, expiresAt⟩ =
      (if refs then (detailsBlobRef (reloadDict deltaDict)).toList else []) ++
        fileBlobRefs (reloadDict deltaDict) := by
  simp [mentions, codec.decompress_compress, codec.loads_dumps, dict?, Value.reload]

/-- References that were taken and dropped again: the same as before just if the new ones and no
others were dropped. -/
theorem Store.Takes.undone_iff {shas dropped : List String} {s middle s' : Store Bytes}
    (htakes : s.Takes cacheKey shas middle) (hdrops : middle.Drops cacheKey dropped s') :
    (∀ ref, ref ∈ s'.blobRefs ↔ ref ∈ s.blobRefs) ↔
      (∀ sha ∈ dropped, .ofCacheKey sha cacheKey ∉ s.blobRefs) ∧
      ∀ sha ∈ shas, .ofCacheKey sha cacheKey ∈ middle.blobRefs →
        .ofCacheKey sha cacheKey ∉ s.blobRefs → sha ∈ dropped := by
  constructor
  · intro hsame
    refine ⟨fun sha hsha href => ?_, fun sha _ hmiddle hnew => ?_⟩
    · exact ((hdrops.refs _).mp ((hsame _).mpr href)).2 sha hsha rfl
    · by_contra hleft
      refine hnew ((hsame _).mp ((hdrops.refs _).mpr ⟨hmiddle, fun other hother heq => ?_⟩))
      obtain rfl : sha = other := by
        simpa [BlobRef.ofCacheKey] using heq
      exact hleft hother
  · rintro ⟨hold, hnew⟩ ref
    rw [hdrops.refs]
    constructor
    · rintro ⟨hmiddle, hkept⟩
      rcases htakes.taken ref hmiddle with href | ⟨sha, hsha, rfl⟩
      · exact href
      · by_contra hno
        exact hkept sha (hnew sha hsha hmiddle hno) rfl
    · intro href
      refine ⟨htakes.kept ref href, ?_⟩
      rintro sha hsha rfl
      exact hold sha hsha href

namespace PutCall

variable {call : PutCall Bytes} {s : Store Bytes}

theorem run_of_refused (h : call.accepted codec = none) :
    (∀ result, (call.run codec s).1 ≠ .written result) ∧ (call.run codec s).2 = s := by
  unfold accepted at h
  unfold run putCachedDelta
  cases hrefusal : refusal? codec call.config call.module call.root call.delta with
  | some refusal => exact ⟨nofun, rfl⟩
  | none =>
    rw [hrefusal] at h
    simp only at h
    rw [h]
    exact ⟨nofun, rfl⟩

variable {ttl : Nat}

theorem refusal?_of_accepted (h : call.accepted codec = some ttl) :
    refusal? codec call.config call.module call.root call.delta = none := by
  unfold accepted at h
  split at h
  · cases h
  · assumption

theorem run_of_accepted (h : call.accepted codec = some ttl) :
    ((call.run codec s).2 = leaves (writeDelta codec call.config call.root call.delta
        call.cacheKey ttl ⟨s, call.faults⟩)) ∧
      ((∃ result, (call.run codec s).1 = .written result) ↔
        ∃ result session', writeDelta codec call.config call.root call.delta call.cacheKey ttl
          ⟨s, call.faults⟩ = .ok (.ok result) session') := by
  unfold accepted at h
  unfold run putCachedDelta cacheKey
  cases hrefusal : refusal? codec call.config call.module call.root call.delta with
  | some refusal =>
    rw [hrefusal] at h
    cases h
  | none =>
    rw [hrefusal] at h
    simp only at h
    simp only [h]
    split
    next hwrite => simp [hwrite, leaves]
    next hwrite => simp [hwrite, leaves]
    next hwrite => simp [hwrite, leaves]

theorem run_of_take (h : call.accepted codec = some ttl) :
    match call.take codec s with
    | .error () session =>
      (∀ result, (call.run codec s).1 ≠ .written result) ∧ (call.run codec s).2 = session.store
    | .ok (deltaDict, spilled, changed) session =>
      (call.run codec s).2 = leaves (finishWrite codec call.config call.delta call.cacheKey ttl
        deltaDict spilled changed session) ∧
      ((∃ result, (call.run codec s).1 = .written result) ↔
        ∃ result session', finishWrite codec call.config call.delta call.cacheKey ttl deltaDict
          spilled changed session = .ok (.ok result) session') := by
  obtain ⟨hleaves, hwritten⟩ := run_of_accepted (s := s) h
  have hwrite : writeDelta codec call.config call.root call.delta call.cacheKey ttl
      ⟨s, call.faults⟩ = match call.take codec s with
        | .ok (deltaDict, spilled, changed) session => finishWrite codec call.config call.delta
            call.cacheKey ttl deltaDict spilled changed session
        | .error e session => .error e session := by
    rw [writeDelta_eq]
    change EStateM.bind _ _ _ = _
    unfold EStateM.bind take
    split <;> simp_all
  rw [hwrite] at hleaves hwritten
  cases htake : call.take codec s with
  | error e session =>
    simp only [htake, reduceCtorEq, exists_false, iff_false, not_exists] at hleaves hwritten
    exact ⟨hwritten, hleaves⟩
  | ok taken session =>
    simp only [htake] at hleaves hwritten
    exact ⟨hleaves, hwritten⟩

theorem soundFinish_iff {deltaDict : Dict} {spilled changed : Bool} {session : Session Bytes}
    (hs : s.Referenced codec)
    (htaken : Taken codec call.delta call.cacheKey deltaDict spilled changed s session.store) :
    call.SoundFinish codec s ttl deltaDict spilled changed session ↔
      ((¬ ∃ result session', finishWrite codec call.config call.delta call.cacheKey ttl deltaDict
          spilled changed session = .ok (.ok result) session') →
        ∀ ref, ref ∈ (leaves (finishWrite codec call.config call.delta call.cacheKey ttl deltaDict
          spilled changed session)).blobRefs ↔ ref ∈ s.blobRefs) ∧
      (leaves (finishWrite codec call.config call.delta call.cacheKey ttl deltaDict spilled changed
        session)).Referenced codec := by
  have htakes := htaken.takes
  unfold SoundFinish
  split
  next hrefused =>
    obtain ⟨hleaves, hunwritten⟩ :=
      finishWrite_of_refused call.cacheKey ttl session htaken.changed hrefused
    rw [hleaves]
    have hnot : ¬ ∃ result session', finishWrite codec call.config call.delta call.cacheKey ttl
        deltaDict spilled changed session = .ok (.ok result) session' := by
      rintro ⟨result, session', hresult⟩
      exact hunwritten result session' hresult
    cases hrefs : hasBlobRefs call.delta spilled with
    | false =>
      have hsame : ∀ ref, ref ∈ session.store.blobRefs ↔ ref ∈ s.blobRefs :=
        fun ref => ⟨htaken.nothing hrefs ref, htakes.kept ref⟩
      simp only [Bool.false_eq_true, false_implies, if_false, true_iff]
      exact ⟨fun _ => hsame, hs.of_kept htakes.kept htakes.rows htakes.now⟩
    | true =>
      have hdrops := drops_unreferenceBlobRefs call.cacheKey (extractBlobRefs deltaDict) session
      simp only [true_implies, if_true]
      rw [← htakes.undone_iff hdrops]
      constructor
      · intro hsame
        exact ⟨fun _ => hsame, hs.of_kept (fun ref => (hsame ref).mpr)
          (hdrops.rows.trans htakes.rows) (hdrops.now.trans htakes.now)⟩
      · exact fun h => h.1 hnot
  next hwrites =>
    obtain ⟨hleaves, hwritten⟩ :=
      finishWrite_of_inserts call.delta call.cacheKey ttl spilled session hwrites
    rw [hwritten, hleaves]
    have hrefs : (if inserts call.cacheKey session then session.store.insertRow call.cacheKey
          (codec.compress (codec.dumps (.dict deltaDict)))
          (codec.size (codec.dumps (.dict deltaDict))) (hasBlobRefs call.delta spilled) ttl
        else session.store).blobRefs = session.store.blobRefs := by
      split <;> rfl
    rw [hrefs]
    refine and_congr ?_ ?_
    · rw [or_iff_not_imp_left]
      refine imp_congr_right fun _ => ?_
      exact ⟨fun hnew ref => ⟨hnew ref, htakes.kept ref⟩, fun hsame ref => (hsame ref).mp⟩
    · have hsession := hs.of_kept htakes.kept htakes.rows htakes.now
      have hunchanged : changed = false := by simpa using (not_or.mp hwrites).1
      cases inserts call.cacheKey session with
      | false => simpa using hsession
      | true =>
        simp only [true_implies, if_true]
        rw [hsession.insertRow_iff, CacheRow.mentions_written, htaken.files]
        refine imp_congr_right fun _ => ?_
        have hfiles : ∀ sha ∈ call.delta.fileShas,
            .ofCacheKey sha call.cacheKey ∈ session.store.blobRefs := by
          intro sha hsha
          obtain ⟨spec, hspec, hvalue⟩ := mem_filterMap.mp hsha
          split at hvalue
          next hfile =>
            obtain rfl := Option.some.inj hvalue
            exact htaken.unchanged hunchanged spec
              (mem_filter.mpr ⟨hspec, decide_eq_true hfile.1⟩)
          next => cases hvalue
        cases hasBlobRefs call.delta spilled with
        | false => simpa using hfiles
        | true =>
          simp only [true_implies, if_true, forall_mem_append, Option.mem_toList]
          exact ⟨fun h => ⟨h, hfiles⟩, And.left⟩

/-- A call meets its condition if and only if it keeps the references that the rows need and, when
it does not write its row, leaves the references as they were. -/
theorem sound_iff (hs : s.Referenced codec) :
    call.Sound codec s ↔ (CacheEvent.put call).LeavesReferences codec s ∧
      (call.run codec s).2.Referenced codec := by
  unfold Sound CacheEvent.LeavesReferences
  cases haccepted : call.accepted codec with
  | none =>
    obtain ⟨-, hsame⟩ := run_of_refused (s := s) haccepted
    simp only [hsame]
    exact iff_of_true trivial ⟨fun _ _ => trivial, hs⟩
  | some ttl =>
    have hrun := run_of_take (s := s) haccepted
    simp only
    cases htake : call.take codec s with
    | error e session =>
      simp only [htake] at hrun ⊢
      obtain ⟨shas, hensures⟩ := takes_takeReferences codec call.config call.root call.delta
        call.cacheKey
      have htakes := hensures ⟨s, call.faults⟩
      unfold take at htake
      rw [htake] at htakes
      rw [hrun.2]
      constructor
      · exact fun hnew => ⟨fun _ ref => ⟨hnew ref, htakes.kept ref⟩,
          hs.of_kept htakes.kept htakes.rows htakes.now⟩
      · exact fun h ref => (h.1 hrun.1 ref).mp
    | ok taken session =>
      obtain ⟨deltaDict, spilled, changed⟩ := taken
      simp only [htake] at hrun ⊢
      have hpaths : ∀ spec ∈ call.delta.fileObservableSpecs,
          ∃ path, spec.filePath = some path ∧ path ≠ "" :=
        filePath_of_accepted (refusal?_of_accepted haccepted)
      rw [soundFinish_iff hs (takeReferences_eq_ok hpaths htake), ← hrun.1, ← hrun.2, not_exists]

end PutCall

theorem CacheEvent.sound_iff {s : Store Bytes} (hs : s.Referenced codec)
    (event : CacheEvent Bytes) :
    event.Sound codec s ↔
      event.LeavesReferences codec s ∧ (event.step codec s).Referenced codec := by
  cases event with
  | put call => exact PutCall.sound_iff hs
  | reference ref =>
    refine iff_of_true trivial ⟨trivial, hs.of_kept ?_ (s.keeps_reference _).rows
      (s.keeps_reference _).now⟩
    exact fun other hother => Store.mem_reference.mpr (.inl hother)
  | unreference ref =>
    change (∀ row ∈ s.rows, _ → ∀ sha ∈ row.mentions codec, ref ≠ _) ↔ True ∧ _
    rw [true_and]
    constructor
    · intro hneeded row hrow hunexpired sha hsha
      exact Store.mem_unreference.mpr
        ⟨hs row hrow hunexpired sha hsha, (hneeded row hrow hunexpired sha hsha).symm⟩
    · intro hreferenced row hrow hunexpired sha hsha
      exact (Store.mem_unreference.mp (hreferenced row hrow hunexpired sha hsha)).2.symm
  | passes microseconds =>
    refine iff_of_true trivial ⟨trivial, fun row hrow hunexpired => hs row hrow ?_⟩
    exact Nat.lt_of_le_of_lt (Nat.div_le_div_right (Nat.le_add_right _ _)) hunexpired

/-! ## §5 Runs -/

/-- A call for the sample module, of which dictionaries with up to 11 fields are cached. -/
def sampleCall (moduleInstance : Option String) : PutCall Value where
  config := ⟨true, 2, 11, 0⟩
  module := sampleModule
  root := some sampleFiles
  delta := { sampleDelta [] with moduleInstance := moduleInstance }
  faults := []

theorem emptyStore_referenced : emptyStore.Referenced sampleCodec := nofun

end Ace3.Cache
