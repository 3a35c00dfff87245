import Ace3.Cache.RoundTrip

/-!
# The References That a Write Takes
-/

namespace Ace3.Cache

open List
open Lib.Json
open Lib.Json.Value (reloadDict)

variable {Bytes : Type} {codec : Codec Bytes} {config : Config}

/-! ## §1 Whatever way an operation ends -/

/-- The store that an operation leaves, whether it returns or raises. -/
def leaves {α : Type} (result : EStateM.Result Unit (Session Bytes) α) : Store Bytes :=
  match result with
  | .ok _ session => session.store
  | .error _ session => session.store

/-- The operation relates every store to the one that it leaves. -/
def Ensures {α : Type} (R : Store Bytes → Store Bytes → Prop) (m : StoreM Bytes α) : Prop :=
  ∀ session, R session.store (leaves (m session))

/-- A relation that a sequence of operations keeps when each of them does. -/
structure Chains (R : Store Bytes → Store Bytes → Prop) : Prop where
  refl : ∀ s, R s s
  trans : ∀ s s' s'', R s s' → R s' s'' → R s s''

section Ensures

variable {α β : Type} {R : Store Bytes → Store Bytes → Prop} (hR : Chains R)
include hR

theorem ensures_pure (a : α) : Ensures R (pure a : StoreM Bytes α) :=
  fun session => hR.refl session.store

theorem ensures_throw : Ensures R (throw () : StoreM Bytes α) :=
  fun session => hR.refl session.store

theorem ensures_get : Ensures R (get : StoreM Bytes (Session Bytes)) :=
  fun session => hR.refl session.store

theorem ensures_mayRaise : Ensures R (mayRaise : StoreM Bytes Unit) := by
  intro session
  unfold mayRaise
  split
  · exact hR.refl _
  · split <;> exact hR.refl _

theorem ensures_bind_of_returns {m : StoreM Bytes α} {f : α → StoreM Bytes β} (hm : Ensures R m)
    (hf : ∀ session a session', m session = .ok a session' → Ensures R (f a)) :
    Ensures R (m >>= f) := by
  intro session
  change R session.store (leaves (EStateM.bind m f session))
  have hfirst := hm session
  unfold EStateM.bind
  cases h : m session with
  | ok a middle =>
    rw [h] at hfirst
    exact hR.trans _ _ _ hfirst (hf session a middle h middle)
  | error e middle =>
    rw [h] at hfirst
    exact hfirst

theorem ensures_bind {m : StoreM Bytes α} {f : α → StoreM Bytes β} (hm : Ensures R m)
    (hf : ∀ a, Ensures R (f a)) : Ensures R (m >>= f) :=
  ensures_bind_of_returns hR hm fun _ a _ _ => hf a

theorem ensures_operation {effect : Store Bytes → Store Bytes} (heffect : ∀ s, R s (effect s)) :
    Ensures R (operation effect) := by
  refine ensures_bind hR (ensures_mayRaise hR) fun _ => ?_
  refine ensures_bind hR (fun session => ?_) fun _ => ensures_mayRaise hR
  exact heffect session.store

theorem ensures_put (heffect : ∀ s sha256 content, R s (s.addBlob sha256 content))
    (content : Bytes) : Ensures R (BlobStore.put codec content) :=
  ensures_bind hR (ensures_operation hR fun s => heffect s _ _) fun _ => ensures_pure hR _

theorem ensures_exists (sha256 : String) : Ensures R (BlobStore.exists sha256) := by
  refine ensures_bind hR ?_ fun _ => ensures_bind hR (ensures_mayRaise hR) fun _ =>
    ensures_bind hR (ensures_get hR) fun _ => ensures_pure hR _
  unfold BlobStore.pathFor
  split
  · exact ensures_pure hR _
  · exact ensures_throw hR

end Ensures

/-! ## §2 Taking references -/

/-- Of the references, only some under the key are taken; rows and clock stay. -/
structure Store.Takes (cacheKey : String) (shas : List String) (s s' : Store Bytes) : Prop where
  kept : ∀ ref ∈ s.blobRefs, ref ∈ s'.blobRefs
  taken : ∀ ref ∈ s'.blobRefs, ref ∈ s.blobRefs ∨ ∃ sha ∈ shas, ref = .ofCacheKey sha cacheKey
  rows : s'.rows = s.rows
  now : s'.now = s.now

theorem Store.chains_takes (Bytes : Type) (cacheKey : String) (shas : List String) :
    Chains fun s s' : Store Bytes => s.Takes cacheKey shas s' where
  refl _ := ⟨fun _ h => h, fun _ h => .inl h, rfl, rfl⟩
  trans _ _ _ h h' := by
    refine ⟨fun ref href => h'.kept ref (h.kept ref href), fun ref href => ?_,
      h'.rows.trans h.rows, h'.now.trans h.now⟩
    rcases h'.taken ref href with hold | hnew
    · exact h.taken ref hold
    · exact .inr hnew

section Relations

variable {cacheKey : String} {shas : List String}

theorem Store.takes_addBlob (s : Store Bytes) (sha256 : String) (content : Bytes) :
    s.Takes cacheKey shas (s.addBlob sha256 content) := by
  unfold Store.addBlob
  split
  · exact (Store.chains_takes _ _ _).refl s
  · exact ⟨fun _ h => h, fun _ h => .inl h, rfl, rfl⟩

variable {s : Store Bytes}

theorem Store.mem_reference {ref other : BlobRef} :
    other ∈ (s.reference ref).blobRefs ↔ other ∈ s.blobRefs ∨ other = ref := by
  unfold Store.reference
  split
  next h =>
    constructor
    · exact .inl
    · rintro (hold | rfl)
      · exact hold
      · exact h
  · simp

theorem Store.mem_unreference {ref other : BlobRef} :
    other ∈ (s.unreference ref).blobRefs ↔ other ∈ s.blobRefs ∧ other ≠ ref := by
  simp [Store.unreference]

theorem Store.takes_reference {sha : String} (hsha : sha ∈ shas) :
    s.Takes cacheKey shas (s.reference (.ofCacheKey sha cacheKey)) := by
  refine ⟨fun ref href => Store.mem_reference.mpr (.inl href), fun ref href => ?_,
    (s.keeps_reference _).rows, (s.keeps_reference _).now⟩
  rcases Store.mem_reference.mp href with hold | rfl
  · exact .inl hold
  · exact .inr ⟨sha, hsha, rfl⟩

theorem takes_reference {sha : String} (hsha : sha ∈ shas) :
    Ensures (Store.Takes cacheKey shas) (BlobStore.reference sha cacheKey : StoreM Bytes Unit) :=
  ensures_operation (Store.chains_takes _ _ _) fun _ => Store.takes_reference hsha

theorem takes_maybeSpillDetails {deltaDict : Dict}
    (hshas : ∀ analysis ∈ analysisOf deltaDict, ¬ Inline codec config analysis →
      ∀ details ∈ presentDetails analysis, codec.sha256 (codec.dumps details) ∈ shas) :
    Ensures (Store.Takes cacheKey shas)
      (maybeSpillDetails codec config deltaDict cacheKey) := by
  have hchains := Store.chains_takes Bytes cacheKey shas
  unfold maybeSpillDetails
  split
  · exact ensures_pure hchains _
  next analysis hanalysis =>
    split
    · exact ensures_pure hchains _
    next details hdetails =>
      simp only
      split
      · exact ensures_pure hchains _
      next hlarge =>
        have hspilled : ¬ Inline codec config analysis := fun hinline =>
          hlarge (hinline details hdetails)
        refine ensures_bind_of_returns hchains
          (ensures_put hchains Store.takes_addBlob _) fun _ sha _ hput => ?_
        obtain rfl := (put_eq_ok hput).1
        exact ensures_bind hchains (takes_reference (hshas _ hanalysis hspilled _ hdetails))
          fun _ => ensures_pure hchains _

theorem takes_storeFiles {files : RootFiles Bytes} {specs : List ObservableSpec}
    (hshas : ∀ spec ∈ specs, spec.value ∈ shas) :
    Ensures (Store.Takes cacheKey shas) (storeFiles codec files cacheKey specs) := by
  have hchains := Store.chains_takes Bytes cacheKey shas
  induction specs with
  | nil => exact ensures_pure hchains _
  | cons spec specs ih =>
    obtain ⟨hspec, hspecs⟩ := forall_mem_cons.mp hshas
    refine ensures_bind hchains ?_ fun changed => ?_
    · refine ensures_bind hchains (ensures_exists hchains _) fun found => ?_
      split
      · exact ensures_pure hchains _
      · split
        · exact ensures_throw hchains
        · exact ensures_bind hchains (ensures_put hchains Store.takes_addBlob _)
            fun _ => ensures_pure hchains _
    · split
      · exact ensures_pure hchains _
      · exact ensures_bind hchains (takes_reference hspec) fun _ => ih hspecs

end Relations

variable {session session' : Session Bytes}

theorem reference_eq_ok {sha cacheKey : String}
    (h : BlobStore.reference sha cacheKey session = .ok () session') :
    .ofCacheKey sha cacheKey ∈ session'.store.blobRefs := by
  rw [operation_eq_ok h]
  exact Store.mem_reference.mpr (.inr rfl)

variable {cacheKey : String}

theorem mem_of_storeFiles_eq_ok {files : RootFiles Bytes} {specs : List ObservableSpec}
    (h : storeFiles codec files cacheKey specs session = .ok false session') :
    ∀ spec ∈ specs, .ofCacheKey spec.value cacheKey ∈ session'.store.blobRefs := by
  induction specs generalizing session with
  | nil => simp
  | cons spec specs ih =>
    simp only [storeFiles, bind_eq_ok_iff] at h
    obtain ⟨changed, middle, -, h⟩ := h
    split at h
    · cases (pure_eq_ok_iff.mp h).1
    · obtain ⟨_, third, hreference, hrest⟩ := bind_eq_ok_iff.mp h
      intro spec' hspec'
      rcases mem_cons.mp hspec' with rfl | hlater
      · -- the files behind it drop no reference
        have htakes : third.store.Takes cacheKey (specs.map (·.value))
            (leaves (storeFiles codec files cacheKey specs third)) :=
          takes_storeFiles (fun _ => mem_map_of_mem) third
        rw [hrest] at htakes
        exact htakes.kept _ (reference_eq_ok hreference)
      · exact ih hrest spec' hlater

theorem mem_of_maybeSpillDetails_eq_ok {deltaDict deltaDict' : Dict}
    (h : maybeSpillDetails codec config deltaDict cacheKey session =
      .ok (deltaDict', true) session') :
    ∃ sha, sha.length = 64 ∧ detailsBlobRef deltaDict' = some sha ∧
      .ofCacheKey sha cacheKey ∈ session'.store.blobRefs := by
  unfold maybeSpillDetails at h
  cases hanalysis : analysisOf deltaDict with
  | none =>
    simp only [hanalysis, pure_eq_ok_iff, Prod.mk.injEq] at h
    cases h.1.2
  | some analysis =>
    cases hdetails : presentDetails analysis with
    | none =>
      simp only [hanalysis, hdetails, pure_eq_ok_iff, Prod.mk.injEq] at h
      cases h.1.2
    | some details =>
      simp only [hanalysis, hdetails] at h
      split at h
      · cases (pure_eq_ok_iff.mp h).1
      · simp only [bind_eq_ok_iff, pure_eq_ok_iff, Prod.mk.injEq] at h
        obtain ⟨sha, first, hput, _, second, hreference, ⟨rfl, -⟩, rfl⟩ := h
        obtain ⟨rfl, -⟩ := put_eq_ok hput
        have hlength := codec.sha256_length (codec.dumps details)
        have hne : codec.sha256 (codec.dumps details) ≠ "" := by
          intro hempty
          simp [hempty] at hlength
        refine ⟨_, hlength, ?_, reference_eq_ok hreference⟩
        simp [detailsBlobRef, analysisOf, Dict.get_set, dict?, blobRefMarker, Dict.get_cons, hne]

/-! ## §3 Operations by the moments at which they raise -/

def quiet (moments : Nat) (faults : List Bool) : Bool := (faults.take moments).all (!·)

theorem quiet_add {moments moments' : Nat} {faults : List Bool} :
    quiet (moments + moments') faults = true ↔
      quiet moments faults = true ∧ quiet moments' (faults.drop moments) = true := by
  rw [quiet, take_add, all_append, Bool.and_eq_true, quiet, quiet]

theorem mayRaise_of_quiet {session : Session Bytes} (h : quiet 1 session.faults = true) :
    mayRaise session = .ok () { session with faults := session.faults.drop 1 } := by
  unfold mayRaise
  cases hfaults : session.faults with
  | nil =>
    cases session
    cases hfaults
    rfl
  | cons fault faults =>
    have hfault : fault = false := by simpa [quiet, hfaults] using h
    simp [hfault]

theorem operation_of_quiet {effect : Store Bytes → Store Bytes} {session : Session Bytes}
    (h : quiet 2 session.faults = true) :
    operation effect session = .ok () ⟨effect session.store, session.faults.drop 2⟩ := by
  obtain ⟨hbefore, hafter⟩ := quiet_add.mp (show quiet (1 + 1) session.faults = true from h)
  simp only [operation, bind_eq_ok_iff]
  refine ⟨(), _, mayRaise_of_quiet hbefore, (), _, rfl, ?_⟩
  rw [mayRaise_of_quiet hafter, drop_drop]

theorem mayRaise_of_not_quiet {session : Session Bytes} (h : quiet 1 session.faults = false) :
    mayRaise session = .error () { session with faults := session.faults.drop 1 } := by
  unfold mayRaise
  cases hfaults : session.faults with
  | nil => simp [quiet, hfaults] at h
  | cons fault faults =>
    have hfault : fault = true := by simpa [quiet, hfaults] using h
    simp [hfault]

theorem operation_eq {effect : Store Bytes → Store Bytes} {session : Session Bytes} :
    operation effect session =
      if quiet 1 session.faults = false then .error () ⟨session.store, session.faults.drop 1⟩
      else if quiet 2 session.faults = false then
        .error () ⟨effect session.store, session.faults.drop 2⟩
      else .ok () ⟨effect session.store, session.faults.drop 2⟩ := by
  cases hfirst : quiet 1 session.faults with
  | false =>
    rw [if_pos rfl]
    change EStateM.bind mayRaise _ session = _
    rw [EStateM.bind, mayRaise_of_not_quiet hfirst]
  | true =>
    rw [if_neg (by simp)]
    cases hboth : quiet 2 session.faults with
    | true => rw [if_neg (by simp), operation_of_quiet hboth]
    | false =>
      rw [if_pos rfl]
      have hsecond : quiet 1 (session.faults.drop 1) = false := by
        by_contra h
        have : quiet (1 + 1) session.faults = true :=
          quiet_add.mpr ⟨hfirst, by simpa using h⟩
        simp [hboth] at this
      change EStateM.bind mayRaise _ session = _
      rw [EStateM.bind, mayRaise_of_quiet hfirst]
      have hlast : mayRaise ⟨effect session.store, session.faults.drop 1⟩ =
          .error () ⟨effect session.store, (session.faults.drop 1).drop 1⟩ :=
        mayRaise_of_not_quiet hsecond
      rw [drop_drop] at hlast
      exact hlast

/-- The references that `_unreference_blob_refs` reaches: an operation that raises before it takes
effect drops nothing. -/
def reached : List String → List Bool → List String
  | [], _ => []
  | sha :: refs, faults =>
    if quiet 1 faults then sha :: reached refs (faults.drop 2) else reached refs (faults.drop 1)

/-- Of the references, just these under the key are dropped; rows and clock stay. -/
structure Store.Drops (cacheKey : String) (shas : List String) (s s' : Store Bytes) : Prop where
  refs : ∀ ref, ref ∈ s'.blobRefs ↔
    ref ∈ s.blobRefs ∧ ∀ sha ∈ shas, ref ≠ .ofCacheKey sha cacheKey
  rows : s'.rows = s.rows
  now : s'.now = s.now

theorem drops_unreferenceBlobRefs (cacheKey : String) (refs : List String)
    (session : Session Bytes) :
    session.store.Drops cacheKey (reached refs session.faults)
      (leaves (unreferenceBlobRefs cacheKey refs session)) := by
  induction refs generalizing session with
  | nil => exact ⟨by simp [reached, unreferenceBlobRefs, leaves, pure, EStateM.pure], rfl, rfl⟩
  | cons sha refs ih =>
    have hstep : unreferenceBlobRefs cacheKey (sha :: refs) session =
        unreferenceBlobRefs cacheKey refs
          (if quiet 1 session.faults then
            ⟨session.store.unreference (.ofCacheKey sha cacheKey), session.faults.drop 2⟩
          else ⟨session.store, session.faults.drop 1⟩) := by
      change EStateM.bind (EStateM.tryCatch (BlobStore.unreference sha cacheKey) _) _ session = _
      unfold EStateM.bind EStateM.tryCatch BlobStore.unreference
      rw [operation_eq]
      cases quiet 1 session.faults with
      | false => rfl
      | true => cases quiet 2 session.faults <;> rfl
    rw [hstep, reached]
    split
    · have hrest := ih ⟨session.store.unreference (.ofCacheKey sha cacheKey), session.faults.drop 2⟩
      refine ⟨fun ref => ?_, hrest.rows, hrest.now⟩
      rw [hrest.refs, Store.mem_unreference, forall_mem_cons, and_assoc]
    · exact ih ⟨session.store, session.faults.drop 1⟩

/-! ## §4 The two halves of `put_cached_delta` -/

/-- Spilling the details and storing the files: the dictionary, whether its details were spilled,
and whether a file has changed. -/
def takeReferences (codec : Codec Bytes) (config : Config) (root : Option (RootFiles Bytes))
    (delta : ModuleExecutionDelta) (cacheKey : String) : StoreM Bytes (Dict × Bool × Bool) := do
  let (deltaDict, spilled) ←
    maybeSpillDetails codec config { delta with cacheKey := some cacheKey }.toDict cacheKey
  let changed ←
    storeFiles codec (root.getD fun _ => none) cacheKey delta.fileObservableSpecs
  return (deltaDict, spilled, changed)

def hasBlobRefs (delta : ModuleExecutionDelta) (spilled : Bool) : Bool :=
  spilled || !delta.fileObservableSpecs.isEmpty

def tooLarge (codec : Codec Bytes) (config : Config) (deltaDict : Dict) : Bool :=
  config.maxCompressedBytes < codec.size (codec.compress (codec.dumps (.dict deltaDict)))

/-- What follows: the references are dropped, or the row is written. -/
def finishWrite (codec : Codec Bytes) (config : Config) (delta : ModuleExecutionDelta)
    (cacheKey : String) (ttl : Nat) (deltaDict : Dict) (spilled changed : Bool) :
    StoreM Bytes (Except Refusal CacheWriteResult) :=
  if changed then do
    unreferenceBlobRefs cacheKey (extractBlobRefs deltaDict)
    return .error .fileHashMismatch
  else if tooLarge codec config deltaDict then do
    if hasBlobRefs delta spilled then unreferenceBlobRefs cacheKey (extractBlobRefs deltaDict)
    return .error .sizeCap
  else do
    insertRow cacheKey (codec.compress (codec.dumps (.dict deltaDict)))
      (codec.size (codec.dumps (.dict deltaDict))) (hasBlobRefs delta spilled) ttl
    return .ok ⟨codec.size (codec.dumps (.dict deltaDict)),
      codec.size (codec.compress (codec.dumps (.dict deltaDict)))⟩

theorem writeDelta_eq {root : Option (RootFiles Bytes)} {delta : ModuleExecutionDelta} {ttl : Nat} :
    writeDelta codec config root delta cacheKey ttl = (do
      let (deltaDict, spilled, changed) ← takeReferences codec config root delta cacheKey
      finishWrite codec config delta cacheKey ttl deltaDict spilled changed) := by
  simp only [writeDelta, takeReferences, finishWrite, tooLarge, hasBlobRefs, bind_assoc,
    pure_bind, decide_eq_true_eq]
  rfl

def ModuleExecutionDelta.fileShas (delta : ModuleExecutionDelta) : List String :=
  delta.newObservables.filterMap fun spec =>
    if spec.type = ModuleExecutionDelta.fFile ∧ spec.filePath.any (· ≠ "") then some spec.value
    else none

theorem specBlobRef_toDict (spec : ObservableSpec) :
    specBlobRef spec.toDict =
      if spec.type = ModuleExecutionDelta.fFile ∧ spec.filePath.any (· ≠ "") then some spec.value
      else none := by
  cases hpath : spec.filePath with
  | none =>
    simp [specBlobRef, ObservableSpec.toDict, Dict.get_ofFields_cons, str?, strField, hpath]
  | some path =>
    simp [specBlobRef, ObservableSpec.toDict, Dict.get_ofFields_cons, str?, strField, hpath,
      Value.truthy]

theorem specBlobRef_reload (spec : ObservableSpec) :
    specBlobRef (reloadDict spec.toDict) = specBlobRef spec.toDict := by
  cases hpath : spec.filePath with
  | none =>
    simp [specBlobRef, ObservableSpec.toDict, Dict.get_ofFields_cons, Dict.get_reloadDict, str?,
      strField, hpath, Value.reload]
  | some path =>
    simp [specBlobRef, ObservableSpec.toDict, Dict.get_ofFields_cons, Dict.get_reloadDict, str?,
      strField, hpath, Value.truthy, Value.reload]

theorem get_newObservables_toDict (delta : ModuleExecutionDelta) :
    delta.toDict.get "new_observables" =
      listField (fun spec => .dict spec.toDict) delta.newObservables := by
  simp [ModuleExecutionDelta.toDict, Dict.get_ofFields_cons]

theorem fileBlobRefs_toDict (delta : ModuleExecutionDelta) :
    fileBlobRefs delta.toDict = delta.fileShas := by
  rw [fileBlobRefs, get_newObservables_toDict, ModuleExecutionDelta.fileShas]
  cases delta.newObservables with
  | nil => rfl
  | cons spec specs =>
    simp only [listField, isEmpty_cons, Bool.false_eq_true, if_false, filterMap_map]
    refine filterMap_congr fun spec _ => ?_
    exact specBlobRef_toDict spec

theorem fileBlobRefs_reload (delta : ModuleExecutionDelta) :
    fileBlobRefs (reloadDict delta.toDict) = delta.fileShas := by
  rw [fileBlobRefs, Dict.get_reloadDict, get_newObservables_toDict, ModuleExecutionDelta.fileShas]
  cases delta.newObservables with
  | nil => rfl
  | cons spec specs =>
    simp only [listField, isEmpty_cons, Bool.false_eq_true, if_false, Option.map_some,
      Value.reload, Value.reloadList_eq_map, map_map, filterMap_map]
    refine filterMap_congr fun spec _ => ?_
    exact (specBlobRef_reload spec).trans (specBlobRef_toDict spec)

theorem fileBlobRefs_set_analysis (deltaDict : Dict) (value : Value) :
    fileBlobRefs (deltaDict.set "analysis" value) = fileBlobRefs deltaDict := by
  rw [fileBlobRefs, Dict.get_set, if_neg (by decide), fileBlobRefs]

theorem detailsBlobRef_spill (deltaDict analysis : Dict) (details : Value) :
    detailsBlobRef (spill codec deltaDict analysis details) =
        some (codec.sha256 (codec.dumps details)) ∧
      detailsBlobRef (reloadDict (spill codec deltaDict analysis details)) =
        some (codec.sha256 (codec.dumps details)) := by
  have hne : codec.sha256 (codec.dumps details) ≠ "" := by
    intro hempty
    have hlength := codec.sha256_length (codec.dumps details)
    simp [hempty] at hlength
  constructor
  · simp [detailsBlobRef, analysisOf, spill, Dict.get_set, dict?, blobRefMarker, Dict.get_cons,
      hne]
  · simp [detailsBlobRef, analysisOf, spill, Dict.get_set, dict?, blobRefMarker, Dict.get_cons,
      Dict.get_reloadDict, Value.reload, reloadDict, hne]

structure Taken (codec : Codec Bytes) (delta : ModuleExecutionDelta) (cacheKey : String)
    (deltaDict : Dict) (spilled changed : Bool) (s s' : Store Bytes) : Prop where
  takes : s.Takes cacheKey (extractBlobRefs deltaDict) s'
  files : fileBlobRefs (reloadDict deltaDict) = delta.fileShas
  details : spilled = true → ∀ sha ∈ detailsBlobRef (reloadDict deltaDict),
    .ofCacheKey sha cacheKey ∈ s'.blobRefs
  unchanged : changed = false → ∀ spec ∈ delta.fileObservableSpecs,
    .ofCacheKey spec.value cacheKey ∈ s'.blobRefs
  changed : changed = true → hasBlobRefs delta spilled = true
  nothing : hasBlobRefs delta spilled = false → ∀ ref ∈ s'.blobRefs, ref ∈ s.blobRefs

theorem takeReferences_eq_ok {root : Option (RootFiles Bytes)} {delta : ModuleExecutionDelta}
    {deltaDict : Dict} {spilled changed : Bool}
    (hpaths : ∀ spec ∈ delta.fileObservableSpecs, ∃ path, spec.filePath = some path ∧ path ≠ "")
    (h : takeReferences codec config root delta cacheKey session =
      .ok (deltaDict, spilled, changed) session') :
    Taken codec delta cacheKey deltaDict spilled changed session.store session'.store := by
  simp only [takeReferences, bind_eq_ok_iff, pure_eq_ok_iff, Prod.mk.injEq] at h
  obtain ⟨⟨deltaDict, spilled⟩, first, hspill, changed, second, hfiles, ⟨rfl, rfl, rfl⟩, rfl⟩ := h
  have hdict := (maybeSpillDetails_eq_ok hspill).2
  have hnames : fileBlobRefs deltaDict = delta.fileShas ∧
      fileBlobRefs (reloadDict deltaDict) = delta.fileShas := by
    rcases hdict with ⟨-, rfl, -⟩ | ⟨-, analysis, -, details, -, -, rfl, -⟩
    · exact ⟨fileBlobRefs_toDict _, fileBlobRefs_reload _⟩
    · rw [spill, Dict.reloadDict_set, fileBlobRefs_set_analysis, fileBlobRefs_set_analysis]
      exact ⟨fileBlobRefs_toDict _, fileBlobRefs_reload _⟩
  have hdetails : ∀ analysis ∈ analysisOf { delta with cacheKey := some cacheKey }.toDict,
      ¬ Inline codec config analysis → ∀ details ∈ presentDetails analysis,
        codec.sha256 (codec.dumps details) ∈ extractBlobRefs deltaDict := by
    intro analysis hanalysis hlarge details hpresent
    rcases hdict with ⟨-, -, hinline⟩ | ⟨-, analysis', hanalysis', details', hpresent', -, rfl, -⟩
    · exact absurd (hinline analysis hanalysis) hlarge
    · obtain rfl := Option.some.inj (hanalysis.symm.trans hanalysis')
      obtain rfl := Option.some.inj (hpresent.symm.trans hpresent')
      simp [extractBlobRefs, (detailsBlobRef_spill _ _ _).1]
  have hvalues : ∀ spec ∈ delta.fileObservableSpecs, spec.value ∈ extractBlobRefs deltaDict := by
    intro spec hspec
    obtain ⟨hmem, htype⟩ := mem_filter.mp hspec
    obtain ⟨path, hpath, hne⟩ := hpaths spec hspec
    refine mem_append_right _ (hnames.1 ▸ mem_filterMap.mpr ⟨spec, hmem, ?_⟩)
    rw [if_pos ⟨of_decide_eq_true htype, by simp [hpath, hne]⟩]
  have hfirst : session.store.Takes cacheKey (extractBlobRefs deltaDict) _ :=
    takes_maybeSpillDetails hdetails session
  have hsecond : first.store.Takes cacheKey (extractBlobRefs deltaDict)
      (leaves (storeFiles codec (root.getD fun _ => none) cacheKey _ first)) :=
    takes_storeFiles hvalues first
  rw [hspill] at hfirst
  rw [hfiles] at hsecond
  refine ⟨(Store.chains_takes _ _ _).trans _ _ _ hfirst hsecond, hnames.2, ?_, ?_, ?_, ?_⟩
  · rintro rfl sha hsha
    obtain ⟨sha', -, hsha', href⟩ := mem_of_maybeSpillDetails_eq_ok hspill
    rcases hdict with ⟨hfalse, -⟩ | ⟨-, analysis, -, details, -, -, rfl, -⟩
    · cases hfalse
    · obtain rfl := Option.some.inj ((detailsBlobRef_spill _ _ _).2.symm.trans hsha)
      obtain rfl := Option.some.inj ((detailsBlobRef_spill _ _ _).1.symm.trans hsha')
      exact hsecond.kept _ href
  · rintro rfl
    exact mem_of_storeFiles_eq_ok hfiles
  · rintro rfl
    cases hspecs : delta.fileObservableSpecs with
    | nil =>
      rw [hspecs] at hfiles
      cases (pure_eq_ok_iff.mp hfiles).1
    | cons spec specs => simp [hasBlobRefs, hspecs]
  · intro hnone ref href
    obtain ⟨hspilled, hempty⟩ := Bool.or_eq_false_iff.mp hnone
    rw [Bool.not_eq_false', List.isEmpty_iff] at hempty
    rw [hempty] at hfiles
    obtain ⟨-, rfl⟩ := pure_eq_ok_iff.mp hfiles
    have hinline : ∀ analysis ∈ analysisOf { delta with cacheKey := some cacheKey }.toDict,
        Inline codec config analysis := by
      rcases hdict with ⟨-, -, hinline⟩ | ⟨htrue, -⟩
      · exact hinline
      · exact absurd hspilled (by simp [htrue])
    have htakes : session.store.Takes cacheKey [] _ :=
      takes_maybeSpillDetails (fun analysis hanalysis hlarge =>
        absurd (hinline analysis hanalysis) hlarge) session
    rw [hspill] at htakes
    rcases htakes.taken ref href with hold | ⟨_, hnew, _⟩
    · exact hold
    · cases hnew

theorem takes_takeReferences (codec : Codec Bytes) (config : Config)
    (root : Option (RootFiles Bytes)) (delta : ModuleExecutionDelta) (cacheKey : String) :
    ∃ shas, Ensures (Store.Takes cacheKey shas)
      (takeReferences codec config root delta cacheKey) := by
  let deltaDict := { delta with cacheKey := some cacheKey }.toDict
  let shas := ((analysisOf deltaDict).bind presentDetails).toList.map
    (fun details => codec.sha256 (codec.dumps details)) ++
      delta.fileObservableSpecs.map (·.value)
  have hchains := Store.chains_takes Bytes cacheKey shas
  refine ⟨shas, ensures_bind hchains (takes_maybeSpillDetails ?_) fun _ =>
    ensures_bind hchains (takes_storeFiles ?_) fun _ => ensures_pure hchains _⟩
  · intro analysis hanalysis _ details hdetails
    have hbind : (analysisOf deltaDict).bind presentDetails = some details := by
      rw [Option.mem_def.mp hanalysis, Option.bind_some, Option.mem_def.mp hdetails]
    simp [shas, hbind]
  · exact fun spec hspec => mem_append_right _ (mem_map_of_mem hspec)

def inserts (cacheKey : String) (session : Session Bytes) : Bool :=
  !session.store.hasRow cacheKey && quiet 1 session.faults

section InsertRow

variable {cacheKey : String} {deltaZstd : Bytes} {size ttl : Nat} {refs : Bool}
  {session : Session Bytes}

theorem insertRow_eq :
    insertRow cacheKey deltaZstd size refs ttl session =
      if session.store.hasRow cacheKey then .error () session
      else operation (·.insertRow cacheKey deltaZstd size refs ttl) session := by
  change (if session.store.hasRow cacheKey then throw () else operation _ :
    StoreM Bytes Unit) session = _
  split <;> rfl

theorem leaves_insertRow :
    leaves (insertRow cacheKey deltaZstd size refs ttl session) =
      if inserts cacheKey session then session.store.insertRow cacheKey deltaZstd size refs ttl
      else session.store := by
  rw [insertRow_eq, inserts, operation_eq]
  cases session.store.hasRow cacheKey with
  | true => rfl
  | false =>
    cases quiet 1 session.faults with
    | false => rfl
    | true => cases quiet 2 session.faults <;> rfl

theorem insertRow_returns_iff :
    (∃ session', insertRow cacheKey deltaZstd size refs ttl session = .ok () session') ↔
      session.store.hasRow cacheKey = false ∧ quiet 2 session.faults = true := by
  have hquiet : quiet 2 session.faults = true → quiet 1 session.faults = true :=
    fun h => (quiet_add.mp (show quiet (1 + 1) session.faults = true from h)).1
  rw [insertRow_eq, operation_eq]
  cases session.store.hasRow cacheKey with
  | true => simp
  | false =>
    cases hone : quiet 1 session.faults with
    | false => simpa [hone] using hquiet
    | true => cases quiet 2 session.faults <;> simp

end InsertRow

section FinishWrite

variable {delta : ModuleExecutionDelta} {deltaDict : Dict} {spilled changed : Bool}

theorem leaves_bind_pure {α β : Type} {m : StoreM Bytes α} {f : α → β}
    {session : Session Bytes} :
    leaves ((m >>= fun a => pure (f a)) session) = leaves (m session) := by
  change leaves (EStateM.bind m _ session) = _
  unfold EStateM.bind
  cases m session <;> rfl

theorem finishWrite_of_refused (cacheKey : String) (ttl : Nat) (session : Session Bytes)
    (hrefs : changed = true → hasBlobRefs delta spilled = true)
    (h : changed ∨ tooLarge codec config deltaDict) :
    leaves (finishWrite codec config delta cacheKey ttl deltaDict spilled changed session) =
        (if hasBlobRefs delta spilled then
          leaves (unreferenceBlobRefs cacheKey (extractBlobRefs deltaDict) session)
        else session.store) ∧
      ∀ result session', finishWrite codec config delta cacheKey ttl deltaDict spilled changed
        session ≠ .ok (.ok result) session' := by
  unfold finishWrite
  cases changed with
  | true =>
    rw [if_pos rfl, if_pos (hrefs rfl)]
    refine ⟨leaves_bind_pure, fun result session' hwritten => ?_⟩
    simp only [bind_eq_ok_iff, pure_eq_ok_iff, reduceCtorEq, false_and, and_false,
      exists_false] at hwritten
  | false =>
    rw [if_neg (by simp), if_pos (h.resolve_left (by simp))]
    cases hasBlobRefs delta spilled with
    | true =>
      refine ⟨leaves_bind_pure, fun result session' hwritten => ?_⟩
      simp only [if_true, bind_eq_ok_iff, pure_eq_ok_iff, reduceCtorEq, false_and, and_false,
        exists_false] at hwritten
    | false => exact ⟨rfl, nofun⟩

theorem finishWrite_of_inserts (delta : ModuleExecutionDelta) (cacheKey : String) (ttl : Nat)
    (spilled : Bool) (session : Session Bytes) (h : ¬ (changed ∨ tooLarge codec config deltaDict)) :
    leaves (finishWrite codec config delta cacheKey ttl deltaDict spilled changed session) =
        (if inserts cacheKey session then session.store.insertRow cacheKey
          (codec.compress (codec.dumps (.dict deltaDict)))
          (codec.size (codec.dumps (.dict deltaDict))) (hasBlobRefs delta spilled) ttl
        else session.store) ∧
      ((∃ result session', finishWrite codec config delta cacheKey ttl deltaDict spilled changed
        session = .ok (.ok result) session') ↔
          session.store.hasRow cacheKey = false ∧ quiet 2 session.faults = true) := by
  obtain ⟨hchanged, hlarge⟩ := not_or.mp h
  unfold finishWrite
  rw [if_neg hchanged, if_neg hlarge]
  refine ⟨leaves_bind_pure.trans leaves_insertRow, ?_⟩
  simp only [bind_eq_ok_iff, pure_eq_ok_iff]
  constructor
  · rintro ⟨_, _, _, session', hinsert, -⟩
    exact insertRow_returns_iff.mp ⟨session', hinsert⟩
  · intro hreturns
    obtain ⟨session', hinsert⟩ := insertRow_returns_iff.mpr hreturns
    exact ⟨_, session', (), session', hinsert, rfl, rfl⟩

end FinishWrite

end Ace3.Cache
