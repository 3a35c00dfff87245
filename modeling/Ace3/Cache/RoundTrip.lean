import Ace3.Cache.DeltaReload
import Ace3.Cache.ResultCache

/-!
# What the Cache Returns for a Stored Delta
-/

namespace Ace3.Cache

open List
open Lib.Json
open Lib.Json.Value (reloadDict isJsonDict reloadDict_eq_self_iff)

variable {Bytes : Type} {codec : Codec Bytes} {config : Config}

/-! ## §1 Operations -/

structure Store.Keeps (s s' : Store Bytes) : Prop where
  blobs : ∀ name content, s.blobs name = some content → s'.blobs name = some content
  rows : s'.rows = s.rows
  now : s'.now = s.now

theorem Store.Keeps.refl (s : Store Bytes) : s.Keeps s := ⟨fun _ _ h => h, rfl, rfl⟩

theorem Store.Keeps.trans {s s' s'' : Store Bytes} (h : s.Keeps s') (h' : s'.Keeps s'') :
    s.Keeps s'' :=
  ⟨fun name content hblob => h'.blobs name content (h.blobs name content hblob),
    h'.rows.trans h.rows, h'.now.trans h.now⟩

theorem Store.keeps_addBlob (s : Store Bytes) (sha256 : String) (content : Bytes) :
    s.Keeps (s.addBlob sha256 content) := by
  unfold Store.addBlob
  split
  · exact .refl s
  next hfree =>
    refine ⟨fun name found hblob => ?_, rfl, rfl⟩
    have hne : name ≠ sha256 := by
      rintro rfl
      simp [hblob] at hfree
    simp [hne, hblob]

theorem Store.keeps_reference (s : Store Bytes) (ref : BlobRef) : s.Keeps (s.reference ref) := by
  unfold Store.reference
  split
  · exact .refl s
  · exact ⟨fun _ _ h => h, rfl, rfl⟩

theorem Store.isSome_addBlob (s : Store Bytes) (sha256 : String) (content : Bytes) :
    ((s.addBlob sha256 content).blobs sha256).isSome := by
  unfold Store.addBlob
  split
  next h => exact h
  · simp

variable {session session' : Session Bytes}

theorem bind_eq_ok_iff {α β : Type} {m : StoreM Bytes α} {f : α → StoreM Bytes β} {b : β} :
    (m >>= f) session = .ok b session' ↔
      ∃ a middle, m session = .ok a middle ∧ f a middle = .ok b session' := by
  change EStateM.bind m f session = .ok b session' ↔ _
  unfold EStateM.bind
  cases m session with
  | ok a middle => simp
  | error e middle => simp

theorem pure_eq_ok_iff {α : Type} {a b : α} :
    (pure a : StoreM Bytes α) session = .ok b session' ↔ a = b ∧ session = session' := by
  change EStateM.Result.ok a session = .ok b session' ↔ _
  simp

theorem get_eq_ok_iff {read session session' : Session Bytes} :
    (get : StoreM Bytes (Session Bytes)) session = .ok read session' ↔
      session = read ∧ session = session' := by
  change EStateM.Result.ok session session = .ok read session' ↔ _
  simp

theorem mayRaise_eq_ok (h : mayRaise session = .ok () session') :
    session'.store = session.store := by
  unfold mayRaise at h
  split at h
  · cases h
    rfl
  · split at h <;> cases h
    rfl

theorem operation_eq_ok {effect : Store Bytes → Store Bytes}
    (h : operation effect session = .ok () session') :
    session'.store = effect session.store := by
  simp only [operation, bind_eq_ok_iff] at h
  obtain ⟨_, first, hfirst, _, second, hsecond, hthird⟩ := h
  obtain rfl : { first with store := effect first.store } = second := by
    cases hsecond
    rfl
  rw [mayRaise_eq_ok hthird]
  exact congrArg effect (mayRaise_eq_ok hfirst)

theorem put_eq_ok {content : Bytes} {sha : String}
    (h : BlobStore.put codec content session = .ok sha session') :
    sha = codec.sha256 content ∧
      session'.store = session.store.addBlob (codec.sha256 content) content := by
  simp only [BlobStore.put, bind_eq_ok_iff, pure_eq_ok_iff] at h
  obtain ⟨_, middle, hput, rfl, rfl⟩ := h
  exact ⟨rfl, operation_eq_ok hput⟩

theorem exists_eq_ok {sha : String} {found : Bool}
    (h : BlobStore.exists sha session = .ok found session') :
    sha.length = 64 ∧ session'.store = session.store ∧
      found = (session.store.blobs sha).isSome := by
  simp only [BlobStore.exists, bind_eq_ok_iff, pure_eq_ok_iff, get_eq_ok_iff] at h
  obtain ⟨_, first, hpath, _, second, hraise, _, _, ⟨rfl, rfl⟩, rfl, rfl⟩ := h
  have hstore := mayRaise_eq_ok hraise
  unfold BlobStore.pathFor at hpath
  split at hpath
  next hlength =>
    obtain ⟨-, rfl⟩ := pure_eq_ok_iff.mp hpath
    exact ⟨hlength, hstore, by rw [hstore]⟩
  next => cases hpath

/-! ## §2 The row that is written -/

/-- The dictionary with its details in the blob store. -/
def spill (codec : Codec Bytes) (deltaDict analysis : Dict) (details : Value) : Dict :=
  deltaDict.set "analysis"
    (.dict (analysis.set "details" (blobRefMarker (codec.sha256 (codec.dumps details)))))

def Inline (codec : Codec Bytes) (config : Config) (analysis : Dict) : Prop :=
  ∀ details ∈ presentDetails analysis,
    codec.size (codec.dumps details) < config.detailsSpillBytes

theorem get_of_presentDetails {analysis : Dict} {details : Value}
    (h : details ∈ presentDetails analysis) : analysis.get "details" = some details := by
  unfold presentDetails at h
  split at h
  · cases h
  · cases h
  next hdetails => rw [hdetails, Option.mem_def.mp h]

variable {cacheKey : String}

theorem maybeSpillDetails_eq_ok {deltaDict deltaDict' : Dict} {spilled : Bool}
    (h : maybeSpillDetails codec config deltaDict cacheKey session =
      .ok (deltaDict', spilled) session') :
    session.store.Keeps session'.store ∧
      ((spilled = false ∧ deltaDict' = deltaDict ∧
        ∀ analysis ∈ analysisOf deltaDict, Inline codec config analysis) ∨
      (spilled = true ∧ ∃ analysis ∈ analysisOf deltaDict, ∃ details ∈ presentDetails analysis,
        ¬ Inline codec config analysis ∧ deltaDict' = spill codec deltaDict analysis details ∧
          (session.store.addBlob (codec.sha256 (codec.dumps details))
            (codec.dumps details)).Keeps session'.store)) := by
  unfold maybeSpillDetails at h
  cases hanalysis : analysisOf deltaDict with
  | none =>
    simp only [hanalysis, pure_eq_ok_iff, Prod.mk.injEq] at h
    obtain ⟨⟨rfl, rfl⟩, rfl⟩ := h
    exact ⟨.refl _, .inl ⟨rfl, rfl, by simp⟩⟩
  | some analysis =>
    cases hdetails : presentDetails analysis with
    | none =>
      simp only [hanalysis, hdetails, pure_eq_ok_iff, Prod.mk.injEq] at h
      obtain ⟨⟨rfl, rfl⟩, rfl⟩ := h
      exact ⟨.refl _, .inl ⟨rfl, rfl, by simp [Inline, hdetails]⟩⟩
    | some details =>
      simp only [hanalysis, hdetails] at h
      have hinline : Inline codec config analysis ↔
          codec.size (codec.dumps details) < config.detailsSpillBytes := by
        simp [Inline, hdetails]
      split at h
      next hsmall =>
        obtain ⟨hsame, rfl⟩ := pure_eq_ok_iff.mp h
        obtain ⟨rfl, rfl⟩ := Prod.mk.inj hsame
        exact ⟨.refl _, .inl ⟨rfl, rfl, by simpa using hinline.mpr hsmall⟩⟩
      next hlarge =>
        simp only [bind_eq_ok_iff, pure_eq_ok_iff, Prod.mk.injEq] at h
        obtain ⟨sha, first, hput, _, second, hreference, ⟨rfl, rfl⟩, rfl⟩ := h
        obtain ⟨rfl, hfirst⟩ := put_eq_ok hput
        have hkeeps : (session.store.addBlob (codec.sha256 (codec.dumps details))
            (codec.dumps details)).Keeps second.store := by
          rw [operation_eq_ok hreference, hfirst]
          exact Store.keeps_reference _ _
        exact ⟨(Store.keeps_addBlob _ _ _).trans hkeeps, .inr ⟨rfl, analysis, rfl, details,
          hdetails, mt hinline.mp hlarge, rfl, hkeeps⟩⟩

variable {files : RootFiles Bytes} {spec : ObservableSpec}

theorem storeFile_eq_ok {changed : Bool}
    (h : storeFile codec files spec session = .ok changed session') :
    session.store.Keeps session'.store ∧ (changed = false →
      spec.value.length = 64 ∧ (session'.store.blobs spec.value).isSome) := by
  simp only [storeFile, bind_eq_ok_iff] at h
  obtain ⟨found, first, hexists, h⟩ := h
  obtain ⟨hlength, hfirst, rfl⟩ := exists_eq_ok hexists
  split at h
  next hfound =>
    obtain ⟨rfl, rfl⟩ := pure_eq_ok_iff.mp h
    rw [hfirst]
    exact ⟨.refl _, fun _ => ⟨hlength, hfound⟩⟩
  next =>
    cases hcontent : spec.filePath.bind files with
    | none =>
      simp only [hcontent] at h
      cases h
    | some content =>
      simp only [hcontent, bind_eq_ok_iff, pure_eq_ok_iff] at h
      obtain ⟨stored, second, hput, rfl, rfl⟩ := h
      obtain ⟨rfl, hsecond⟩ := put_eq_ok hput
      rw [hsecond, hfirst]
      refine ⟨Store.keeps_addBlob _ _ _, fun hsame => ⟨hlength, ?_⟩⟩
      have hvalue : codec.sha256 content = spec.value := by simpa using hsame
      exact hvalue ▸ Store.isSome_addBlob _ _ _

theorem storeFiles_eq_ok {specs : List ObservableSpec} {changed : Bool}
    (h : storeFiles codec files cacheKey specs session = .ok changed session') :
    session.store.Keeps session'.store ∧ (changed = false → ∀ spec ∈ specs,
      spec.value.length = 64 ∧ (session'.store.blobs spec.value).isSome) := by
  induction specs generalizing session with
  | nil =>
    obtain ⟨-, rfl⟩ := pure_eq_ok_iff.mp h
    exact ⟨.refl _, by simp⟩
  | cons spec specs ih =>
    simp only [storeFiles, bind_eq_ok_iff] at h
    obtain ⟨changed', middle, hspec, h⟩ := h
    obtain ⟨hmiddle, hstored⟩ := storeFile_eq_ok hspec
    split at h
    next hchanged =>
      obtain ⟨rfl, rfl⟩ := pure_eq_ok_iff.mp h
      exact ⟨hmiddle, by simp⟩
    next hsame =>
      obtain ⟨_, third, hreference, h⟩ := bind_eq_ok_iff.mp h
      have hkeeps : middle.store.Keeps third.store :=
        operation_eq_ok hreference ▸ Store.keeps_reference _ _
      obtain ⟨hrest, hspecs⟩ := ih h
      refine ⟨hmiddle.trans (hkeeps.trans hrest), fun hunchanged => ?_⟩
      intro spec' hspec'
      rcases mem_cons.mp hspec' with rfl | hlater
      · obtain ⟨hlength, hblob⟩ := hstored (Bool.eq_false_iff.mpr hsame)
        obtain ⟨content, hcontent⟩ := Option.isSome_iff_exists.mp hblob
        have hblob' := hrest.blobs _ _ (hkeeps.blobs _ _ hcontent)
        exact ⟨hlength, by simp [hblob']⟩
      · exact hspecs hunchanged spec' hlater

theorem insertRow_eq_ok {deltaZstd : Bytes} {size ttl : Nat} {hasBlobRefs : Bool}
    (h : insertRow cacheKey deltaZstd size hasBlobRefs ttl session = .ok () session') :
    session.store.hasRow cacheKey = false ∧
      session'.store = session.store.insertRow cacheKey deltaZstd size hasBlobRefs ttl := by
  simp only [insertRow, bind_eq_ok_iff, get_eq_ok_iff] at h
  obtain ⟨_, _, ⟨rfl, rfl⟩, h⟩ := h
  split at h
  next => cases h
  next hfree => exact ⟨Bool.eq_false_iff.mpr hfree, operation_eq_ok h⟩

variable {delta : ModuleExecutionDelta} {root : Option (RootFiles Bytes)}

theorem writeDelta_eq_ok {ttl : Nat} {result : CacheWriteResult}
    (h : writeDelta codec config root delta cacheKey ttl session = .ok (.ok result) session') :
    ∃ deltaDict spilled first s,
      maybeSpillDetails codec config { delta with cacheKey := some cacheKey }.toDict cacheKey
        session = .ok (deltaDict, spilled) first ∧ first.store.Keeps s ∧
      (∀ spec ∈ delta.fileObservableSpecs,
        spec.value.length = 64 ∧ (s.blobs spec.value).isSome) ∧
      s.hasRow cacheKey = false ∧
      session'.store = s.insertRow cacheKey (codec.compress (codec.dumps (.dict deltaDict)))
        (codec.size (codec.dumps (.dict deltaDict)))
        (spilled || !delta.fileObservableSpecs.isEmpty) ttl := by
  simp only [writeDelta, bind_eq_ok_iff] at h
  obtain ⟨⟨deltaDict, spilled⟩, first, hspill, changed, second, hfiles, h⟩ := h
  obtain ⟨hkeeps, hblobs⟩ := storeFiles_eq_ok hfiles
  split at h
  next =>
    simp only [bind_eq_ok_iff, pure_eq_ok_iff, reduceCtorEq, false_and, and_false,
      exists_false] at h
  next hsame =>
    split at h
    next =>
      split at h <;>
        simp only [bind_eq_ok_iff, pure_eq_ok_iff, reduceCtorEq, false_and, and_false,
          exists_false] at h
    next =>
      simp only [bind_eq_ok_iff, pure_eq_ok_iff] at h
      obtain ⟨_, third, hinsert, -, rfl⟩ := h
      obtain ⟨hfree, hstore⟩ := insertRow_eq_ok hinsert
      exact ⟨deltaDict, spilled, first, second.store, hspill, hkeeps,
        hblobs (Bool.eq_false_iff.mpr hsame), hfree, hstore⟩

/-! ## §3 The row that is found -/

theorem head_mergeSort_of_latest {rows : List (CacheRow Bytes)} {row : CacheRow Bytes}
    (hmem : row ∈ rows) (hlatest : ∀ other ∈ rows, other = row ∨ other.createdAt < row.createdAt) :
    ∃ rest, rows.mergeSort (fun row row' => row'.createdAt ≤ row.createdAt) = row :: rest := by
  have hsorted : (rows.mergeSort (fun row row' => row'.createdAt ≤ row.createdAt)).Pairwise
      (fun row row' => decide (row'.createdAt ≤ row.createdAt) = true) := pairwise_mergeSort
    (fun a b c hab hbc => by simp only [decide_eq_true_eq] at hab hbc ⊢; omega)
    (fun a b => by simp only [Bool.or_eq_true, decide_eq_true_eq]; omega) rows
  have hmem' : row ∈ rows.mergeSort (fun row row' => row'.createdAt ≤ row.createdAt) :=
    mem_mergeSort.mpr hmem
  cases hhead : rows.mergeSort (fun row row' => row'.createdAt ≤ row.createdAt) with
  | nil =>
    rw [hhead] at hmem'
    cases hmem'
  | cons first rest =>
    rw [hhead] at hsorted hmem'
    have hfirst : first ∈ rows :=
      mem_mergeSort.mp (hhead ▸ mem_cons_self)
    rcases hlatest first hfirst with rfl | hearlier
    · exact ⟨rest, rfl⟩
    · rcases mem_cons.mp hmem' with rfl | hrest
      · exact absurd hearlier (Nat.lt_irrefl _)
      · have hle := of_decide_eq_true ((pairwise_cons.mp hsorted).1 row hrest)
        omega

/-- What happens to the store until the lookup: blobs stay, and the rows under the key are the
same. -/
structure Store.Later (cacheKey : String) (s s' : Store Bytes) : Prop where
  blobs : ∀ name content, s.blobs name = some content → s'.blobs name = some content
  rows : ∀ row : CacheRow Bytes, row.cacheKey = cacheKey → (row ∈ s'.rows ↔ row ∈ s.rows)

theorem getCachedDelta_insertRow {s s' : Store Bytes} {deltaZstd : Bytes} {size ttl : Nat}
    {hasBlobRefs : Bool} (hfree : s.hasRow cacheKey = false)
    (hlater : (s.insertRow cacheKey deltaZstd size hasBlobRefs ttl).Later cacheKey s')
    (hunexpired : s'.seconds < s.seconds + ttl) :
    getCachedDelta codec s' cacheKey =
      CacheRow.delta codec s' ⟨cacheKey, deltaZstd, size, hasBlobRefs, s.now, s.seconds + ttl⟩ := by
  have hmem : (⟨cacheKey, deltaZstd, size, hasBlobRefs, s.now, s.seconds + ttl⟩ : CacheRow Bytes) ∈
      s'.unexpired cacheKey := by
    refine mem_filter.mpr ⟨(hlater.rows _ rfl).mpr ?_, decide_eq_true ⟨rfl, hunexpired⟩⟩
    exact mem_append_right _ (mem_singleton.mpr rfl)
  obtain ⟨rest, hhead⟩ := head_mergeSort_of_latest hmem (by
    intro other hother
    obtain ⟨hrow, hmatches⟩ := mem_filter.mp hother
    have hkey := (of_decide_eq_true hmatches).1
    rcases mem_append.mp ((hlater.rows other hkey).mp hrow) with hold | hnew
    · have hpast := s.past other hold
      -- a row under the key from the same moment would have made the insert fail
      have hdate : other.createdAt ≠ s.now := by
        intro hdate
        have := any_eq_false.mp hfree other hold
        simp [hkey, hdate] at this
      exact .inr (Nat.lt_of_le_of_ne hpast hdate)
    · exact .inl (mem_singleton.mp hnew))
  rw [getCachedDelta, hhead]

/-! ## §4 Deltas that are returned as they were stored -/

/-- What has to hold for a delta to be returned as it was stored: all its dictionaries are JSON,
none of its diffs on other nodes is empty, an analysis entry has details, and inline details of a
delta with files that look like a pointer name a blob that holds just these details. -/
structure ModuleExecutionDelta.ReadBack (codec : Codec Bytes) (config : Config) (s : Store Bytes)
    (delta : ModuleExecutionDelta) : Prop where
  json : delta.isJson = true
  analysis : ∀ analysis ∈ delta.analysis, isJsonDict analysis = true
  details : ∀ analysis ∈ delta.analysis, (analysis.get "details").isSome
  pointer : delta.fileObservableSpecs ≠ [] → ∀ analysis ∈ delta.analysis,
    Inline codec config analysis → ∀ sha ∈ pointerOf analysis, ∃ content,
      blobOf s sha = .ok content ∧ codec.loads content = analysis.get "details"

namespace ModuleExecutionDelta

variable {delta : ModuleExecutionDelta} {s : Store Bytes}

def FilesUsable (s : Store Bytes) (delta : ModuleExecutionDelta) : Prop :=
  ∀ spec ∈ delta.fileObservableSpecs, fileSpecMiss s spec = none

theorem fileObservableSpecs_reload (delta : ModuleExecutionDelta) :
    delta.reload.fileObservableSpecs = delta.fileObservableSpecs.map (·.reload) := by
  simp only [fileObservableSpecs, reload, filter_map]
  rfl

theorem deltaOfDict_eq {hasBlobRefs : Bool} {deltaDict deltaDict' : Dict} {analysis : Option Dict}
    (hfiles : delta.FilesUsable s)
    (hdetails : ∀ analysis ∈ analysisOf deltaDict, (analysis.get "details").isSome)
    (hinline : (if hasBlobRefs then inlineBlobRefs codec s deltaDict else .ok deltaDict) =
      .ok deltaDict')
    (hdelta : fromDict deltaDict' = some { delta.reload with analysis := analysis }) :
    deltaOfDict codec s hasBlobRefs deltaDict =
      .ok { delta.reload with analysis := analysis } := by
  have hlegacy : ¬ (analysisOf deltaDict).any (fun analysis =>
      (analysis.get "details").isNone) = true := by
    cases hanalysis : analysisOf deltaDict with
    | none => simp
    | some analysis => simpa [Option.isSome_iff_ne_none] using hdetails analysis hanalysis
  have husable : { delta.reload with analysis := analysis }.fileObservableSpecs.findSome?
      (fileSpecMiss s) = none := by
    change delta.reload.fileObservableSpecs.findSome? (fileSpecMiss s) = none
    rw [fileObservableSpecs_reload, List.findSome?_eq_none_iff]
    intro spec hspec
    obtain ⟨spec', hspec', rfl⟩ := mem_map.mp hspec
    exact hfiles spec' hspec'
  simp only [deltaOfDict, if_neg hlegacy, hinline, hdelta, husable]

theorem analysisOf_reload (delta : ModuleExecutionDelta) :
    analysisOf (reloadDict delta.toDict) = delta.analysis.map reloadDict := by
  rw [analysisOf, Dict.get_reloadDict, get_analysis_toDict]
  cases delta.analysis <;> rfl

theorem analysisOf_toDict (delta : ModuleExecutionDelta) :
    analysisOf delta.toDict = delta.analysis := by
  rw [analysisOf, get_analysis_toDict]
  cases delta.analysis <;> rfl

variable {analysis : Dict}

theorem get_details_reload
    (hjson : ∀ details ∈ analysis.get "details", details.isJson = true) :
    (reloadDict analysis).get "details" = analysis.get "details" := by
  rw [Dict.get_reloadDict]
  cases hdetails : analysis.get "details" with
  | none => rfl
  | some details => exact congrArg some (Value.reload_of_isJson details (hjson details hdetails))

theorem deltaOfDict_spilled {details : Value} (hfiles : delta.FilesUsable s)
    (hanalysis : delta.analysis = some analysis) (hdetails : analysis.get "details" = some details)
    (hjson : details.isJson = true)
    (hblob : s.blobs (codec.sha256 (codec.dumps details)) = some (codec.dumps details)) :
    deltaOfDict codec s true (reloadDict (spill codec delta.toDict analysis details)) =
      .ok delta.reload := by
  have hmarker : reloadDict (spill codec delta.toDict analysis details) =
      (reloadDict delta.toDict).set "analysis" (.dict ((reloadDict analysis).set "details"
        (blobRefMarker (codec.sha256 (codec.dumps details))))) := by
    rw [spill, Dict.reloadDict_set, Value.reload, Dict.reloadDict_set]
    rfl
  have hof : analysisOf (reloadDict (spill codec delta.toDict analysis details)) =
      some ((reloadDict analysis).set "details"
        (blobRefMarker (codec.sha256 (codec.dumps details)))) := by
    rw [hmarker, analysisOf, Dict.get_set, if_pos rfl]
    rfl
  have hpointer : pointerOf ((reloadDict analysis).set "details"
      (blobRefMarker (codec.sha256 (codec.dumps details)))) =
        some (.str (codec.sha256 (codec.dumps details))) := by
    simp [pointerOf, Dict.get_set, blobRefMarker, Dict.get_cons]
  have hcontent : blobOf s (.str (codec.sha256 (codec.dumps details))) =
      .ok (codec.dumps details) := by
    simp [blobOf, codec.sha256_length, hblob]
  have hold : (reloadDict analysis).get "details" = some details := by
    rw [Dict.get_reloadDict, hdetails]
    exact congrArg some (Value.reload_of_isJson details hjson)
  have hinline : inlineBlobRefs codec s (reloadDict (spill codec delta.toDict analysis details)) =
      .ok ((reloadDict delta.toDict).set "analysis" (.dict (reloadDict analysis))) := by
    simp only [inlineBlobRefs, hof, hpointer, hcontent, codec.loads_dumps,
      Value.reload_of_isJson details hjson]
    rw [hmarker, Dict.set_set, Dict.set_set, Dict.set_of_get hold]
  have hreload : { delta.reload with analysis := some (reloadDict analysis) } = delta.reload := by
    simp only [reload, hanalysis, Option.map_some]
  rw [← hreload]
  refine deltaOfDict_eq hfiles ?_ (if_pos rfl ▸ hinline) (fromDict_set_analysis _ _)
  intro found hfound
  obtain rfl := Option.some.inj (hof.symm.trans hfound)
  simp [Dict.get_set]

theorem deltaOfDict_inline {hasBlobRefs : Bool} (hfiles : delta.FilesUsable s)
    (hdetails : ∀ analysis ∈ delta.analysis, (analysis.get "details").isSome)
    (hpointer : hasBlobRefs = true → ∀ analysis ∈ delta.analysis,
      pointerOf (reloadDict analysis) = none) :
    deltaOfDict codec s hasBlobRefs (reloadDict delta.toDict) = .ok delta.reload := by
  refine deltaOfDict_eq hfiles ?_ ?_ (fromDict_reload delta)
  · intro found hfound
    rw [analysisOf_reload] at hfound
    obtain ⟨analysis, hanalysis, rfl⟩ := Option.map_eq_some_iff.mp hfound
    rw [Dict.get_reloadDict, Option.isSome_map]
    exact hdetails analysis hanalysis
  · split
    next hrefs =>
      rw [inlineBlobRefs, analysisOf_reload]
      cases hanalysis : delta.analysis with
      | none => rfl
      | some analysis => simp only [Option.map_some, hpointer hrefs analysis hanalysis]
    next => rfl

theorem pointerOf_reload
    (hjson : ∀ details ∈ analysis.get "details", details.isJson = true) :
    pointerOf (reloadDict analysis) = pointerOf analysis := by
  rw [pointerOf, get_details_reload hjson, pointerOf]

theorem set_details_eq_iff {details : Value}
    (hjson : ∀ details ∈ analysis.get "details", details.isJson = true) :
    (reloadDict analysis).set "details" details = analysis ↔
      isJsonDict analysis = true ∧ analysis.get "details" = some details := by
  constructor
  · intro hset
    have hdetails : analysis.get "details" = some details := by
      rw [← hset, Dict.get_set, if_pos rfl]
    rw [Dict.set_of_get ((get_details_reload hjson).trans hdetails)] at hset
    exact ⟨reloadDict_eq_self_iff.mp hset, hdetails⟩
  · rintro ⟨hanalysis, hdetails⟩
    rw [reloadDict_eq_self_iff.mpr hanalysis, Dict.set_of_get hdetails]

theorem deltaOfDict_pointer_iff {sha : Value} (hfiles : delta.FilesUsable s)
    (hanalysis : delta.analysis = some analysis)
    (hjson : ∀ details ∈ analysis.get "details", details.isJson = true)
    (hpointer : pointerOf analysis = some sha) :
    deltaOfDict codec s true (reloadDict delta.toDict) = .ok delta ↔
      delta.isJson = true ∧ isJsonDict analysis = true ∧
        ∃ content, blobOf s sha = .ok content ∧
          codec.loads content = analysis.get "details" := by
  have hof : analysisOf (reloadDict delta.toDict) = some (reloadDict analysis) := by
    rw [analysisOf_reload, hanalysis, Option.map_some]
  have hdetails : ∃ details, analysis.get "details" = some details := by
    cases hdetails : analysis.get "details" with
    | none => simp [pointerOf, hdetails] at hpointer
    | some details => exact ⟨details, rfl⟩
  obtain ⟨details, hdetails⟩ := hdetails
  have hsome : ∀ found ∈ analysisOf (reloadDict delta.toDict), (found.get "details").isSome := by
    intro found hfound
    obtain rfl := Option.some.inj (hof.symm.trans hfound)
    rw [get_details_reload hjson, hdetails]
    rfl
  have hlegacy : ¬ (analysisOf (reloadDict delta.toDict)).any (fun analysis =>
      (analysis.get "details").isNone) = true := by
    rw [hof]
    simpa using Option.isSome_iff_ne_none.mp (hsome _ hof)
  have hreloaded : pointerOf (reloadDict analysis) = some sha :=
    (pointerOf_reload hjson).trans hpointer
  cases hblob : blobOf s sha with
  | error reason =>
    have hinline : inlineBlobRefs codec s (reloadDict delta.toDict) = .error reason := by
      simp only [inlineBlobRefs, hof, hreloaded, hblob]
    simp only [deltaOfDict, if_neg hlegacy, if_true, hinline]
    simp
  | ok content =>
    cases hload : codec.loads content with
    | none =>
      have hinline : inlineBlobRefs codec s (reloadDict delta.toDict) = .error .decodeError := by
        simp only [inlineBlobRefs, hof, hreloaded, hblob, hload]
      simp only [deltaOfDict, if_neg hlegacy, if_true, hinline]
      simp [hload, hdetails]
    | some found =>
      have hinline : inlineBlobRefs codec s (reloadDict delta.toDict) =
          .ok ((reloadDict delta.toDict).set "analysis"
            (.dict ((reloadDict analysis).set "details" found))) := by
        simp only [inlineBlobRefs, hof, hreloaded, hblob, hload]
      rw [deltaOfDict_eq hfiles hsome ((if_pos rfl).trans hinline) (fromDict_set_analysis _ _),
        Except.ok.injEq, reload_with_analysis_eq_iff, hanalysis, Option.some.injEq,
        set_details_eq_iff hjson]
      simp only [Except.ok.injEq, exists_eq_left', hload]
      constructor
      · rintro ⟨⟨hjsonDict, hfound⟩, hrest⟩
        exact ⟨hrest, hjsonDict, hfound.symm⟩
      · rintro ⟨hrest, hjsonDict, hfound⟩
        exact ⟨⟨hjsonDict, hfound.symm⟩, hrest⟩

theorem readBack_iff_of_none (hanalysis : delta.analysis = none) :
    delta.ReadBack codec config s ↔ delta.isJson = true := by
  constructor
  · exact ReadBack.json
  · intro hjson
    constructor <;> simp [hjson, hanalysis]

theorem readBack_iff_of_some (hanalysis : delta.analysis = some analysis) :
    delta.ReadBack codec config s ↔ delta.isJson = true ∧ isJsonDict analysis = true ∧
      (analysis.get "details").isSome ∧
        (delta.fileObservableSpecs ≠ [] → Inline codec config analysis →
          ∀ sha ∈ pointerOf analysis, ∃ content,
            blobOf s sha = .ok content ∧ codec.loads content = analysis.get "details") := by
  constructor
  · intro hread
    exact ⟨hread.json, hread.analysis _ hanalysis, hread.details _ hanalysis,
      fun hfiles => hread.pointer hfiles _ hanalysis⟩
  · rintro ⟨hjson, hanalysisJson, hdetails, hpointer⟩
    constructor <;> simp_all

theorem deltaOfDict_inline_iff (hfiles : delta.FilesUsable s)
    (hjson : ∀ analysis ∈ delta.analysis, ∀ details ∈ analysis.get "details",
      details.isJson = true)
    (hinline : ∀ analysis ∈ delta.analysis, Inline codec config analysis) :
    deltaOfDict codec s (!delta.fileObservableSpecs.isEmpty) (reloadDict delta.toDict) =
      .ok delta ↔ delta.ReadBack codec config s := by
  cases hanalysis : delta.analysis with
  | none =>
    rw [readBack_iff_of_none hanalysis, deltaOfDict_inline hfiles (by simp [hanalysis])
      (by simp [hanalysis]), Except.ok.injEq, reload_eq_self_iff, hanalysis]
    simp
  | some analysis =>
    rw [readBack_iff_of_some hanalysis]
    cases hdetails : analysis.get "details" with
    | none =>
      have hof : analysisOf (reloadDict delta.toDict) = some (reloadDict analysis) := by
        rw [analysisOf_reload, hanalysis, Option.map_some]
      have hlegacy : (analysisOf (reloadDict delta.toDict)).any (fun analysis =>
          (analysis.get "details").isNone) = true := by
        simp [hof, Dict.get_reloadDict, hdetails]
      simp [deltaOfDict, hlegacy]
    | some details =>
      by_cases hpointer : delta.fileObservableSpecs = [] ∨ pointerOf analysis = none
      · have hunread : (!delta.fileObservableSpecs.isEmpty) = true → ∀ found ∈ delta.analysis,
            pointerOf (reloadDict found) = none := by
          intro hrefs found hfound
          obtain rfl := Option.some.inj (hanalysis.symm.trans hfound)
          rw [pointerOf_reload (hjson _ hanalysis)]
          exact hpointer.resolve_left (by simpa using hrefs)
        rw [deltaOfDict_inline hfiles (by simp [hanalysis, hdetails]) hunread, Except.ok.injEq,
          reload_eq_self_iff, hanalysis]
        simp only [Option.all_some, Option.isSome_some, true_and]
        constructor
        · rintro ⟨hanalysisJson, hrest⟩
          refine ⟨hrest, hanalysisJson, fun hspecs _ sha hsha => ?_⟩
          simp [hpointer.resolve_left hspecs] at hsha
        · rintro ⟨hrest, hanalysisJson, -⟩
          exact ⟨hanalysisJson, hrest⟩
      · rw [not_or, ← ne_eq, ← ne_eq, Option.ne_none_iff_exists'] at hpointer
        obtain ⟨hspecs, sha, hsha⟩ := hpointer
        have hrefs : (!delta.fileObservableSpecs.isEmpty) = true := by simpa using hspecs
        rw [hrefs, deltaOfDict_pointer_iff hfiles hanalysis (hjson _ hanalysis) hsha]
        simp [hspecs, hinline _ hanalysis, hsha, hdetails]

/-- The dictionary that was written is turned back into the delta if and only if the delta is one
that is read back. -/
theorem deltaOfDict_eq_ok_iff {deltaDict : Dict} {spilled : Bool} (hfiles : delta.FilesUsable s)
    (hjson : ∀ analysis ∈ delta.analysis, ∀ details ∈ analysis.get "details",
      details.isJson = true)
    (hspill : (spilled = false ∧ deltaDict = delta.toDict ∧
        ∀ analysis ∈ delta.analysis, Inline codec config analysis) ∨
      (spilled = true ∧ ∃ analysis ∈ delta.analysis, ∃ details ∈ presentDetails analysis,
        ¬ Inline codec config analysis ∧ deltaDict = spill codec delta.toDict analysis details ∧
          s.blobs (codec.sha256 (codec.dumps details)) = some (codec.dumps details))) :
    deltaOfDict codec s (spilled || !delta.fileObservableSpecs.isEmpty) (reloadDict deltaDict) =
      .ok delta ↔ delta.ReadBack codec config s := by
  rcases hspill with ⟨rfl, rfl, hinline⟩ |
    ⟨rfl, analysis, hanalysis, details, hpresent, hlarge, rfl, hblob⟩
  · exact deltaOfDict_inline_iff hfiles hjson hinline
  · have hdetails : analysis.get "details" = some details := get_of_presentDetails hpresent
    rw [Bool.true_or, deltaOfDict_spilled hfiles hanalysis hdetails
      (hjson _ hanalysis _ hdetails) hblob, Except.ok.injEq, reload_eq_self_iff,
      readBack_iff_of_some hanalysis, Option.mem_def.mp hanalysis]
    simp [hdetails, hlarge, and_comm]

end ModuleExecutionDelta

/-! ## §5 The round trip -/

theorem isSome_filePath_of_validateFileSpec (h : validateFileSpec codec config files spec = none) :
    ∃ path, spec.filePath = some path ∧ path ≠ "" := by
  unfold validateFileSpec at h
  split at h
  · cases h
  · cases h
  next path hne hpath => exact ⟨path, hpath, hne⟩

theorem filePath_of_accepted {module : Module} (h : refusal? codec config module root delta = none) :
    ∀ spec ∈ delta.fileObservableSpecs, ∃ path, spec.filePath = some path ∧ path ≠ "" := by
  intro spec hspec
  have hspecs : delta.fileObservableSpecs ≠ [] := ne_nil_of_mem hspec
  have hvalid : validateFileSpecs codec config root delta.fileObservableSpecs = none := by
    by_contra hinvalid
    obtain ⟨refusal, hrefusal⟩ := Option.ne_none_iff_exists'.mp hinvalid
    simp only [refusal?, if_neg hspecs, hrefusal] at h
    split at h
    · cases h
    · split at h
      · cases h
      · split at h
        · cases h
        · split at h
          · cases h
          · split at h <;> cases h
  cases root with
  | none => cases hvalid
  | some files =>
    exact isSome_filePath_of_validateFileSpec (List.findSome?_eq_none_iff.mp hvalid spec hspec)

variable {s : Store Bytes}

theorem fileSpecMiss_eq_none (hpath : ∃ path, spec.filePath = some path ∧ path ≠ "")
    (hlength : spec.value.length = 64) (hblob : (s.blobs spec.value).isSome) :
    fileSpecMiss s spec = none := by
  obtain ⟨path, hpath, hne⟩ := hpath
  unfold fileSpecMiss
  split
  next hnone => simp [hnone] at hpath
  next hempty => exact absurd (Option.some.inj (hpath.symm.trans hempty)) hne
  · simp [hlength, hblob]

theorem Store.blobs_addBlob_self {content : Bytes}
    (hblobs : ∀ found, s.blobs (codec.sha256 content) = some found → found = content) :
    (s.addBlob (codec.sha256 content) content).blobs (codec.sha256 content) = some content := by
  unfold Store.addBlob
  split
  next hsome =>
    obtain ⟨found, hfound⟩ := Option.isSome_iff_exists.mp hsome
    rw [hfound, hblobs found hfound]
  · simp

theorem ModuleExecutionDelta.readBack_with_cacheKey {cacheKey : Option String} :
    { delta with cacheKey := cacheKey }.ReadBack codec config s ↔
      delta.ReadBack codec config s :=
  ⟨fun h => ⟨h.json, h.analysis, h.details, h.pointer⟩,
    fun h => ⟨h.json, h.analysis, h.details, h.pointer⟩⟩

theorem putCachedDelta_eq_written {module : Module} {faults : List Bool} {s s' : Store Bytes}
    {result : CacheWriteResult}
    (h : putCachedDelta codec config module root delta faults s = (.written result, s')) :
    refusal? codec config module root delta = none ∧ ∃ ttl session',
      module.cacheTtl = some ttl ∧ session'.store = s' ∧
        writeDelta codec config root delta (delta.cacheKeyFor module) ttl ⟨s, faults⟩ =
          .ok (.ok result) session' := by
  unfold putCachedDelta at h
  split at h
  · cases h
  · cases h
  next ttl hrefusal httl =>
    refine ⟨hrefusal, ttl, ?_⟩
    split at h
    next written session' hwrite =>
      obtain ⟨hresult, rfl⟩ := Prod.mk.inj h
      obtain rfl := PutOutcome.written.inj hresult
      exact ⟨session', httl, rfl, hwrite⟩
    · cases h
    · cases h

/-- A delta with JSON details that is accepted is returned under its key before it expires if and
only if it is one that is read back. Blobs have the content whose digest is their name. -/
theorem getCachedDelta_of_putCachedDelta_iff {module : Module} {root : Option (RootFiles Bytes)}
    {delta : ModuleExecutionDelta} {faults : List Bool} {s s' s'' : Store Bytes}
    {result : CacheWriteResult}
    (hput : putCachedDelta codec config module root delta faults s = (.written result, s'))
    (hjson : ∀ analysis ∈ delta.analysis, ∀ details ∈ analysis.get "details",
      details.isJson = true)
    (hblobs : ∀ content found, s.blobs (codec.sha256 content) = some found → found = content)
    (hlater : s'.Later (delta.cacheKeyFor module) s'')
    (hunexpired : ∀ ttl ∈ module.cacheTtl, s''.seconds < s.seconds + ttl) :
    getCachedDelta codec s'' (delta.cacheKeyFor module) =
        .ok { delta with cacheKey := some (delta.cacheKeyFor module) } ↔
      delta.ReadBack codec config s'' := by
  obtain ⟨haccepted, ttl, session', httl, rfl, hwrite⟩ := putCachedDelta_eq_written hput
  obtain ⟨deltaDict, spilled, first, before, hspill, hkeeps, hfiles, hfree, hstore⟩ :=
    writeDelta_eq_ok hwrite
  obtain ⟨hfirst, hspill⟩ := maybeSpillDetails_eq_ok hspill
  have hseconds : before.seconds = s.seconds :=
    congrArg (· / 1000000) (hfirst.trans hkeeps).now
  rw [hstore] at hlater
  rw [getCachedDelta_insertRow hfree hlater (hseconds ▸ hunexpired ttl httl)]
  -- the row is decoded into what the serializer makes of the dictionary
  have hdecode : ((codec.decompress (codec.compress (codec.dumps (.dict deltaDict)))).bind
      codec.loads).bind dict? = some (reloadDict deltaDict) := by
    rw [codec.decompress_compress, Option.bind_some, codec.loads_dumps]
    rfl
  have hinserted : ∀ name content, before.blobs name = some content →
      s''.blobs name = some content := hlater.blobs
  have husable : ModuleExecutionDelta.FilesUsable s''
      { delta with cacheKey := some (delta.cacheKeyFor module) } := by
    intro spec hspec
    obtain ⟨hlength, hblob⟩ := hfiles spec hspec
    obtain ⟨content, hcontent⟩ := Option.isSome_iff_exists.mp hblob
    have hfound := hinserted _ _ hcontent
    exact fileSpecMiss_eq_none (filePath_of_accepted haccepted spec hspec) hlength
      (by simp [hfound])
  rw [CacheRow.delta, hdecode, ← ModuleExecutionDelta.readBack_with_cacheKey]
  refine ModuleExecutionDelta.deltaOfDict_eq_ok_iff husable hjson ?_
  rw [ModuleExecutionDelta.analysisOf_toDict] at hspill
  refine hspill.imp_right ?_
  rintro ⟨hspilled, analysis, hanalysis, details, hpresent, hlarge, hdict, hput⟩
  refine ⟨hspilled, analysis, hanalysis, details, hpresent, hlarge, hdict, ?_⟩
  exact hinserted _ _ (hkeeps.blobs _ _ (hput.blobs _ _ (Store.blobs_addBlob_self (hblobs _))))

def sampleDigest (letter : Char) : String := .ofList (.replicate 64 letter)

theorem sampleDigest_length (letter : Char) : (sampleDigest letter).length = 64 := by
  simp [sampleDigest]

/-- A codec whose bytes are JSON values. Text is told from other content by its digest. -/
def sampleCodec : Codec Value where
  dumps := Value.reload
  loads := some
  compress := id
  decompress := some
  sha256
    | .str _ => sampleDigest 'f'
    | _ => sampleDigest 'd'
  size
    | .dict items => items.length
    | _ => 1
  loads_dumps _ := rfl
  decompress_compress _ := rfl
  sha256_length content := by
    cases content <;> exact sampleDigest_length _

def sampleConfig : Config := ⟨true, 2, 100, 0⟩

def sampleModule : Module := ⟨some 60, fun type value => type ++ value⟩

def sampleFiles : RootFiles Value := fun path =>
  if path = "a.txt" then some (.str "text") else none

def emptyStore : Store Value := ⟨fun _ => none, [], [], 0, nofun⟩

def sampleDelta (details : Dict) : ModuleExecutionDelta where
  modulePath := "module"
  moduleInstance := none
  moduleVersion := 1
  observableUuid := "o"
  observableType := "url"
  observableValue := "u"
  createdAt := "2024"
  executionTimeMs := 1
  rootUuid := "r"
  analysis := some [("details", .dict details)]
  targetObservableDiff := .empty
  newObservables := [{
    uuid := "f"
    type := "file"
    value := sampleDigest 'f'
    time := none
    initialTags := []
    initialDirectives := []
    initialDetections := []
    initialExcludedAnalysis := []
    initialLimitedAnalysis := []
    filePath := some "a.txt"
    volatile := false
    initialRelationships := []
    initialRedirection := none }]
  rootDiff := .empty
  cacheKey := none
  wideDiff := false
  otherObservableDiffs := []
  analysisChildrenDiffs := []
  fromCacheHit := false
  cachedAt := none

def storedSample (details : Dict) : Store Value :=
  (putCachedDelta sampleCodec sampleConfig sampleModule (some sampleFiles) (sampleDelta details) []
    emptyStore).2

/-- Large details of a delta with a file are in the blob store, and returned. -/
theorem stored_sample_is_returned :
    getCachedDelta sampleCodec (storedSample [("a", .int 1), ("b", .int 2)])
      ((sampleDelta [("a", .int 1), ("b", .int 2)]).cacheKeyFor sampleModule) =
      .ok { sampleDelta [("a", .int 1), ("b", .int 2)] with
        cacheKey := some ((sampleDelta [("a", .int 1), ("b", .int 2)]).cacheKeyFor
          sampleModule) } := by
  have hput : putCachedDelta sampleCodec sampleConfig sampleModule (some sampleFiles)
      (sampleDelta [("a", .int 1), ("b", .int 2)]) [] emptyStore =
        (.written ⟨11, 11⟩, storedSample [("a", .int 1), ("b", .int 2)]) := by
    refine Prod.ext ?_ rfl
    decide
  have hdetails : ∀ analysis ∈ (sampleDelta [("a", .int 1), ("b", .int 2)]).analysis,
      analysis = [("details", .dict [("a", .int 1), ("b", .int 2)])] :=
    fun _ hanalysis => (Option.some.inj hanalysis).symm
  refine (getCachedDelta_of_putCachedDelta_iff hput ?_ nofun ⟨fun _ _ h => h, fun _ _ => .rfl⟩
    ?_).mpr ⟨by decide, ?_, ?_, ?_⟩
  · intro analysis hanalysis details hfound
    rw [hdetails analysis hanalysis] at hfound
    obtain rfl := Option.some.inj hfound
    rfl
  · intro ttl httl
    obtain rfl := Option.some.inj httl
    decide
  · exact fun analysis hanalysis => hdetails analysis hanalysis ▸ rfl
  · exact fun analysis hanalysis => hdetails analysis hanalysis ▸ rfl
  · intro _ analysis hanalysis _ sha hsha
    rw [hdetails analysis hanalysis] at hsha
    cases hsha

theorem getCachedDelta_of_unexpired {row : CacheRow Bytes} (h : s.unexpired cacheKey = [row]) :
    getCachedDelta codec s cacheKey = row.delta codec s := by
  rw [getCachedDelta, h, mergeSort_singleton]

/-- Details that look like a pointer are followed behind a delta with a file. -/
theorem marker_details_are_not_returned :
    (putCachedDelta sampleCodec sampleConfig sampleModule (some sampleFiles)
      (sampleDelta [("__blob_ref__", .str "x")]) [] emptyStore).1 = .written ⟨11, 11⟩ ∧
    Value.isJson (.dict [("__blob_ref__", .str "x")]) = true ∧
    getCachedDelta sampleCodec (storedSample [("__blob_ref__", .str "x")]) "urlu" =
      .error .decodeError := by
  refine ⟨by decide, rfl, ?_⟩
  have hrow : (storedSample [("__blob_ref__", .str "x")]).unexpired "urlu" =
      [⟨"urlu", .dict (reloadDict ({ sampleDelta [("__blob_ref__", .str "x")] with
        cacheKey := some "urlu" }.toDict)), 11, true, 0, 60⟩] := by
    rfl
  rw [getCachedDelta_of_unexpired hrow]
  rfl

end Ace3.Cache
