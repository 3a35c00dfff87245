import Ace3.Cache.DeltaDict

/-!
# The Analysis Result Cache

`put_cached_delta` and `get_cached_delta` of `saq/analysis/cache.py` over the local blob store of
`saq/analysis/blob_store.py`. Each operation on the files and tables may raise, before it takes
effect or after; what has taken effect by then stays.
-/

namespace Ace3.Cache

open Lib.Json

/-! ## §1 What is stored -/

/-- The serializers of the cache. `dumps` is `json.dumps(v, sort_keys=True, default=str)`. -/
structure Codec (Bytes : Type) where
  dumps : Value → Bytes
  loads : Bytes → Option Value
  compress : Bytes → Bytes
  decompress : Bytes → Option Bytes
  sha256 : Bytes → String
  size : Bytes → Nat
  loads_dumps : ∀ value, loads (dumps value) = some value.reload
  decompress_compress : ∀ content, decompress (compress content) = some content
  sha256_length : ∀ content, (sha256 content).length = 64

/-- `analysis_cache` of the configuration. -/
structure Config where
  enabled : Bool
  detailsSpillBytes : Nat
  maxCompressedBytes : Nat
  fileBlobMaxBytes : Nat

structure Module where
  /-- In seconds. -/
  cacheTtl : Option Nat
  /-- `generate_cache_key` for an observable type and value, when the module has a TTL. -/
  generateCacheKey : String → String → String

/-- A row of `analysis_result_cache`. -/
structure CacheRow (Bytes : Type) where
  cacheKey : String
  deltaZstd : Bytes
  deltaUncompressedSize : Nat
  hasBlobRefs : Bool
  /-- In microseconds. -/
  createdAt : Nat
  /-- In seconds. -/
  expiresAt : Nat

def referrerKindCacheRow : String := "cache_row"

/-- A row of `blob_refs`, without its date. -/
structure BlobRef where
  sha256 : String
  referrerKind : String
  referrerId : String
  deriving DecidableEq

def BlobRef.ofCacheKey (sha256 cacheKey : String) : BlobRef :=
  ⟨sha256, referrerKindCacheRow, cacheKey⟩

structure Store (Bytes : Type) where
  /-- The files of the blob store by their names. -/
  blobs : String → Option Bytes
  blobRefs : List BlobRef
  rows : List (CacheRow Bytes)
  /-- The clock of the database in microseconds, from which rows get their dates. -/
  now : Nat
  past : ∀ row ∈ rows, row.createdAt ≤ now

variable {Bytes : Type}

namespace Store

/-- `NOW()`, which has no microseconds. -/
def seconds (s : Store Bytes) : Nat := s.now / 1000000

/-- A file of the blob store is renamed into place, unless its name is taken. -/
def addBlob (s : Store Bytes) (sha256 : String) (content : Bytes) : Store Bytes :=
  if (s.blobs sha256).isSome then s
  else { s with blobs := fun name => if name = sha256 then some content else s.blobs name }

/-- The statement of `reference`. -/
def reference (s : Store Bytes) (ref : BlobRef) : Store Bytes :=
  if ref ∈ s.blobRefs then s else { s with blobRefs := s.blobRefs ++ [ref] }

/-- The statement of `unreference`. -/
def unreference (s : Store Bytes) (ref : BlobRef) : Store Bytes :=
  { s with blobRefs := s.blobRefs.filter (· ≠ ref) }

/-- The `INSERT` of a row under the current date. -/
def insertRow (s : Store Bytes) (cacheKey : String) (deltaZstd : Bytes)
    (deltaUncompressedSize : Nat) (hasBlobRefs : Bool) (ttl : Nat) : Store Bytes :=
  { s with
    rows := s.rows ++
      [⟨cacheKey, deltaZstd, deltaUncompressedSize, hasBlobRefs, s.now, s.seconds + ttl⟩]
    past := by
      intro row hrow
      rcases List.mem_append.mp hrow with hold | hnew
      · exact s.past row hold
      · obtain rfl := List.mem_singleton.mp hnew
        exact Nat.le_refl _ }

def hasRow (s : Store Bytes) (cacheKey : String) : Bool :=
  s.rows.any fun row => row.cacheKey = cacheKey ∧ row.createdAt = s.now

end Store

/-! ## §2 Operations that may raise -/

/-- A store with, for each moment at which an operation may raise, whether it does. -/
structure Session (Bytes : Type) where
  store : Store Bytes
  faults : List Bool

/-- What raises keeps the changes that were made before. -/
abbrev StoreM (Bytes : Type) := EStateM Unit (Session Bytes)

def mayRaise : StoreM Bytes Unit := fun session =>
  match session.faults with
  | [] => .ok () session
  | raises :: faults =>
    if raises then .error () { session with faults } else .ok () { session with faults }

/-- An operation that raises before it takes effect, or after. -/
def operation (effect : Store Bytes → Store Bytes) : StoreM Bytes Unit := do
  mayRaise
  modify fun session => { session with store := effect session.store }
  mayRaise

/-! ## §3 The blob store -/

namespace BlobStore

/-- `_path_for`, which refuses a name that is not 64 characters long. -/
def pathFor (sha256 : String) : StoreM Bytes Unit :=
  if sha256.length = 64 then pure () else throw ()

def put (codec : Codec Bytes) (content : Bytes) : StoreM Bytes String := do
  operation (·.addBlob (codec.sha256 content) content)
  return codec.sha256 content

def «exists» (sha256 : String) : StoreM Bytes Bool := do
  pathFor sha256
  mayRaise
  let session ← get
  return (session.store.blobs sha256).isSome

def reference (sha256 cacheKey : String) : StoreM Bytes Unit :=
  operation (·.reference (.ofCacheKey sha256 cacheKey))

def unreference (sha256 cacheKey : String) : StoreM Bytes Unit :=
  operation (·.unreference (.ofCacheKey sha256 cacheKey))

end BlobStore

/-! ## §4 `put_cached_delta` -/

/-- Why `put_cached_delta` writes no row. -/
inductive Refusal where
  | noCacheTtl
  | empty
  | removals
  | relationshipOutOfScope
  | stillDelayed
  | fileObservablesNoRoot
  | fileSpecMissingPath
  | fileMissing
  | fileTooLarge
  | disabled
  | fileHashMismatch
  | sizeCap
  deriving DecidableEq

/-- `CacheWriteResult`, without the time the write took. -/
structure CacheWriteResult where
  uncompressedBytes : Nat
  compressedBytes : Nat
  deriving DecidableEq

/-- The file directory of a root: the content of the files by path. -/
abbrev RootFiles (Bytes : Type) := String → Option Bytes

/-- Why a single file spec cannot be backed by a blob. -/
def validateFileSpec (codec : Codec Bytes) (config : Config) (files : RootFiles Bytes)
    (spec : ObservableSpec) : Option Refusal :=
  match spec.filePath with
  | none | some "" => some .fileSpecMissingPath
  | some path =>
    match files path with
    | none => some .fileMissing
    | some content =>
      if config.fileBlobMaxBytes ≠ 0 ∧ config.fileBlobMaxBytes < codec.size content then
        some .fileTooLarge
      else none

def validateFileSpecs (codec : Codec Bytes) (config : Config) (root : Option (RootFiles Bytes))
    (specs : List ObservableSpec) : Option Refusal :=
  match root with
  | none => some .fileObservablesNoRoot
  | some files => specs.findSome? (validateFileSpec codec config files)

def ModuleExecutionDelta.stillDelayed (delta : ModuleExecutionDelta) : Bool :=
  delta.analysis.any fun analysis => (analysis.get "delayed").any (·.truthy)

def refusal? (codec : Codec Bytes) (config : Config) (module : Module)
    (root : Option (RootFiles Bytes)) (delta : ModuleExecutionDelta) : Option Refusal :=
  if module.cacheTtl = none then some .noCacheTtl
  else if delta.isEmpty then some .empty
  else if delta.hasRemovals then some .removals
  else if delta.outOfScopeRelationshipTargets ≠ [] then some .relationshipOutOfScope
  else if delta.stillDelayed then some .stillDelayed
  else
    let invalid := if delta.fileObservableSpecs = [] then none
      else validateFileSpecs codec config root delta.fileObservableSpecs
    match invalid with
    | some refusal => some refusal
    | none => if config.enabled then none else some .disabled

/-- `delta.cache_key`, computed when the caller did not set it. -/
def ModuleExecutionDelta.cacheKeyFor (delta : ModuleExecutionDelta) (module : Module) : String :=
  delta.cacheKey.getD (module.generateCacheKey delta.observableType delta.observableValue)

def blobRefMarker (sha256 : String) : Value := .dict [("__blob_ref__", .str sha256)]

def analysisOf (deltaDict : Dict) : Option Dict := (deltaDict.get "analysis").bind dict?

/-- The details of an analysis entry, unless they are missing or `None`. -/
def presentDetails (analysis : Dict) : Option Value :=
  match analysis.get "details" with
  | none | some .null => none
  | some details => some details

/-- `_maybe_spill_details`: the dictionary, and whether its details were spilled. The entry of
the delta itself is changed along with its dictionary. -/
def maybeSpillDetails (codec : Codec Bytes) (config : Config) (deltaDict : Dict)
    (cacheKey : String) : StoreM Bytes (Dict × Bool) :=
  match analysisOf deltaDict with
  | none => pure (deltaDict, false)
  | some analysis =>
    match presentDetails analysis with
    | none => pure (deltaDict, false)
    | some details => do
      let detailsBytes := codec.dumps details
      if codec.size detailsBytes < config.detailsSpillBytes then return (deltaDict, false)
      else do
        let sha ← BlobStore.put codec detailsBytes
        BlobStore.reference sha cacheKey
        return (deltaDict.set "analysis" (.dict (analysis.set "details" (blobRefMarker sha))),
          true)

/-- The reference that `_extract_blob_refs` takes from a spec. -/
def specBlobRef (spec : Dict) : Option String :=
  if (spec.get "type").bind str? = some ModuleExecutionDelta.fFile ∧
      (spec.get "file_path").any (·.truthy) then
    (spec.get "value").bind str?
  else none

/-- The pointer in the details of an analysis entry that `_extract_blob_refs` finds. What is not a
string is no name of a blob. -/
def detailsBlobRef (deltaDict : Dict) : Option String :=
  match (analysisOf deltaDict).bind (·.get "details") with
  | some (.dict details) =>
    match Dict.get "__blob_ref__" details with
    | some (.str sha) => if sha = "" then none else some sha
    | _ => none
  | _ => none

/-- The files that `_extract_blob_refs` finds. -/
def fileBlobRefs (deltaDict : Dict) : List String :=
  match deltaDict.get "new_observables" with
  | some (.list specs) => specs.filterMap fun spec => (dict? spec).bind specBlobRef
  | _ => []

def extractBlobRefs (deltaDict : Dict) : List String :=
  (detailsBlobRef deltaDict).toList ++ fileBlobRefs deltaDict

/-- `_unreference_blob_refs`, which logs what raises and goes on. -/
def unreferenceBlobRefs (cacheKey : String) : List String → StoreM Bytes Unit
  | [] => pure ()
  | sha :: refs => do
    tryCatch (BlobStore.unreference sha cacheKey) fun _ => pure ()
    unreferenceBlobRefs cacheKey refs

def storeFile (codec : Codec Bytes) (files : RootFiles Bytes) (spec : ObservableSpec) :
    StoreM Bytes Bool := do
  let found ← BlobStore.exists spec.value
  if found then pure false
  else
    match spec.filePath.bind files with
    | none => throw ()
    | some content => do
      let stored ← BlobStore.put codec content
      pure (stored ≠ spec.value)

def storeFiles (codec : Codec Bytes) (files : RootFiles Bytes) (cacheKey : String) :
    List ObservableSpec → StoreM Bytes Bool
  | [] => pure false
  | spec :: specs => do
    let changed ← storeFile codec files spec
    if changed then pure true
    else do
      BlobStore.reference spec.value cacheKey
      storeFiles codec files cacheKey specs

def insertRow (cacheKey : String) (deltaZstd : Bytes) (uncompressedSize : Nat)
    (hasBlobRefs : Bool) (ttl : Nat) : StoreM Bytes Unit := do
  let session ← get
  if session.store.hasRow cacheKey then throw ()
  else operation (·.insertRow cacheKey deltaZstd uncompressedSize hasBlobRefs ttl)

/-- What `put_cached_delta` does behind its first checks. -/
def writeDelta (codec : Codec Bytes) (config : Config) (root : Option (RootFiles Bytes))
    (delta : ModuleExecutionDelta) (cacheKey : String) (ttl : Nat) :
    StoreM Bytes (Except Refusal CacheWriteResult) := do
  let (deltaDict, spilled) ←
    maybeSpillDetails codec config { delta with cacheKey := some cacheKey }.toDict cacheKey
  let changed ←
    storeFiles codec (root.getD fun _ => none) cacheKey delta.fileObservableSpecs
  if changed then do
    unreferenceBlobRefs cacheKey (extractBlobRefs deltaDict)
    return .error .fileHashMismatch
  else do
    let hasBlobRefs := spilled || !delta.fileObservableSpecs.isEmpty
    let deltaJson := codec.dumps (.dict deltaDict)
    let deltaZstd := codec.compress deltaJson
    if config.maxCompressedBytes < codec.size deltaZstd then do
      if hasBlobRefs then unreferenceBlobRefs cacheKey (extractBlobRefs deltaDict)
      return .error .sizeCap
    else do
      insertRow cacheKey deltaZstd (codec.size deltaJson) hasBlobRefs ttl
      return .ok ⟨codec.size deltaJson, codec.size deltaZstd⟩

/-- How a call of `put_cached_delta` ends; both refusals and exceptions return `None`. -/
inductive PutOutcome where
  | written (result : CacheWriteResult)
  | refused (refusal : Refusal)
  | raised
  deriving DecidableEq

def putCachedDelta (codec : Codec Bytes) (config : Config) (module : Module)
    (root : Option (RootFiles Bytes)) (delta : ModuleExecutionDelta) (faults : List Bool)
    (s : Store Bytes) : PutOutcome × Store Bytes :=
  match refusal? codec config module root delta, module.cacheTtl with
  | some refusal, _ => (.refused refusal, s)
  | none, none => (.refused .noCacheTtl, s)
  | none, some ttl =>
    match writeDelta codec config root delta (delta.cacheKeyFor module) ttl ⟨s, faults⟩ with
    | .ok (.ok result) session => (.written result, session.store)
    | .ok (.error refusal) session => (.refused refusal, session.store)
    | .error () session => (.raised, session.store)

/-! ## §5 `get_cached_delta` -/

inductive MissReason where
  | notFound
  | decodeError
  | legacyNoDetails
  | blobMissing
  deriving DecidableEq

def blobOf (s : Store Bytes) : Value → Except MissReason Bytes
  | .str sha =>
    if sha.length = 64 then
      match s.blobs sha with
      | none => .error .blobMissing
      | some content => .ok content
    else .error .decodeError
  | _ => .error .decodeError

/-- The name in the details of an analysis entry that look like a pointer. -/
def pointerOf (analysis : Dict) : Option Value :=
  match analysis.get "details" with
  | some (.dict details) => Dict.get "__blob_ref__" details
  | _ => none

def inlineBlobRefs (codec : Codec Bytes) (s : Store Bytes) (deltaDict : Dict) :
    Except MissReason Dict :=
  match analysisOf deltaDict with
  | none => .ok deltaDict
  | some analysis =>
    match pointerOf analysis with
    | none => .ok deltaDict
    | some sha =>
      match blobOf s sha with
      | .error reason => .error reason
      | .ok content =>
        match codec.loads content with
        | none => .error .decodeError
        | some details => .ok (deltaDict.set "analysis" (.dict (analysis.set "details" details)))

/-- Why a file spec of a delta that was found is not usable. -/
def fileSpecMiss (s : Store Bytes) (spec : ObservableSpec) : Option MissReason :=
  match spec.filePath with
  | none | some "" => some .decodeError
  | some _ =>
    if spec.value.length ≠ 64 then some .decodeError
    else if (s.blobs spec.value).isSome then none
    else some .blobMissing

def deltaOfDict (codec : Codec Bytes) (s : Store Bytes) (hasBlobRefs : Bool) (deltaDict : Dict) :
    Except MissReason ModuleExecutionDelta :=
  if (analysisOf deltaDict).any fun analysis => (analysis.get "details").isNone then
    .error .legacyNoDetails
  else
    match if hasBlobRefs then inlineBlobRefs codec s deltaDict else .ok deltaDict with
    | .error reason => .error reason
    | .ok deltaDict =>
      match ModuleExecutionDelta.fromDict deltaDict with
      | none => .error .decodeError
      | some delta =>
        match delta.fileObservableSpecs.findSome? (fileSpecMiss s) with
        | some reason => .error reason
        | none => .ok delta

def CacheRow.delta (codec : Codec Bytes) (s : Store Bytes) (row : CacheRow Bytes) :
    Except MissReason ModuleExecutionDelta :=
  match ((codec.decompress row.deltaZstd).bind codec.loads).bind dict? with
  | none => .error .decodeError
  | some deltaDict => deltaOfDict codec s row.hasBlobRefs deltaDict

def Store.unexpired (s : Store Bytes) (cacheKey : String) : List (CacheRow Bytes) :=
  s.rows.filter fun row => row.cacheKey = cacheKey ∧ s.seconds < row.expiresAt

/-- `get_cached_delta`, with an enabled cache: the delta of the row with the latest date. -/
def getCachedDelta (codec : Codec Bytes) (s : Store Bytes) (cacheKey : String) :
    Except MissReason ModuleExecutionDelta :=
  match (s.unexpired cacheKey).mergeSort (fun row row' => row'.createdAt ≤ row.createdAt) with
  | [] => .error .notFound
  | row :: _ => row.delta codec s

end Ace3.Cache
