import Ace3.Analysis.Observable
import Ace3.Lib.Catalog
import Ace3.Lib.Slices
import Mathlib.Data.Finset.Sort
import Mathlib.Data.Finset.Union
import Mathlib.Data.Prod.Lex

/-!
# The Search Index of an Alert

`saq/database/util/index.py`: the rows of an alert in the index tables are reconciled with its
analysis tree. Statements are functions on the tables; what the unique keys of the catalogs take
for equal is what `tag_key` and `observable_key` do.

`str.casefold`, the hashes and `json.dumps` are parameters.
-/

namespace Ace3.Database

open Analysis (DetectionPoint Details Observable)
open Lib

/-! ## §1 Keys -/

abbrev Digest := List UInt8

/-- The folded type of an observable, and the digest of its value. -/
abbrev ObservableKey := String × Digest

structure IndexRuntime where
  casefold : String → String
  /-- The sha256 of a value. -/
  sha256 : String → Digest
  sha256Str : String → String
  /-- `json.dumps(details, sort_keys=True, default=str)`, unless the details are falsy. -/
  dumps : Details → Option String

section Keys

variable (rt : IndexRuntime)

def tagKey (name : String) : String := rt.casefold name

def observableKey (observableType : String) (sha256 : Digest) : ObservableKey :=
  (rt.casefold observableType, sha256)

/-- The key of an observable of the tree, with its `sha256_bytes`. -/
def keyOf (observable : Observable) : ObservableKey :=
  observableKey rt observable.type (rt.sha256 observable.value)

def contentHash (detection : DetectionPoint) : String :=
  rt.sha256Str (detection.signatureUuid ++ "\n" ++ detection.description ++ "\n" ++
    (rt.dumps detection.details).getD "")

end Keys

/-! ## §2 What the tree calls for -/

structure IndexedAnalysis where
  tags : List String
  detections : List DetectionPoint
  deriving DecidableEq

/-- What the index reads of a `RootAnalysis`. -/
structure IndexedTree where
  allAnalysis : List IndexedAnalysis
  allObservables : List Observable
  deriving DecidableEq

namespace IndexedTree

def allTags (tree : IndexedTree) : List String :=
  (tree.allAnalysis.flatMap (·.tags) ++ tree.allObservables.flatMap (·.tags)).dedup

def allDetectionPoints (tree : IndexedTree) : List DetectionPoint :=
  tree.allAnalysis.flatMap (·.detections) ++ tree.allObservables.flatMap (·.detections)

def indexedObservables (tree : IndexedTree) : List Observable :=
  tree.allObservables.filter (!·.ignored)

end IndexedTree

abbrev Dict (κ α : Type) := AList fun _ : κ => α

/-- `dict.setdefault`. -/
def setDefault {κ α : Type} [DecidableEq κ] (dict : Dict κ α) (k : κ) (value : α) : Dict κ α :=
  if k ∈ dict then dict else dict.insert k value

structure DesiredIndex where
  observables : Dict ObservableKey Observable
  tags : Dict String String
  observableTags : Finset (ObservableKey × String)
  detectionPoints : Dict String DetectionPoint

def buildDesiredIndex (rt : IndexRuntime) (tree : IndexedTree) : DesiredIndex where
  observables := tree.indexedObservables.foldl (fun dict o => setDefault dict (keyOf rt o) o) ∅
  tags := tree.allTags.foldl (fun dict name => dict.insert (tagKey rt name) name) ∅
  observableTags := (tree.indexedObservables.flatMap fun o =>
    o.tags.map fun tag => (keyOf rt o, tagKey rt tag)).toFinset
  detectionPoints :=
    tree.allDetectionPoints.foldl (fun dict dp => dict.insert (contentHash rt dp) dp) ∅

/-! ## §3 Tables -/

/-- A row of `observables`. -/
structure CatalogObservable where
  type : String
  value : String
  sha256 : Digest
  deriving DecidableEq

def CatalogObservable.key (rt : IndexRuntime) (row : CatalogObservable) : ObservableKey :=
  observableKey rt row.type row.sha256

/-- A row of `detection_points`, without its alert and content hash. -/
structure DetectionRow where
  description : String
  details : Option String
  queue : Option String
  signatureUuid : String
  signatureVersion : String
  deriving DecidableEq

/-- The index tables. A row of a junction table is its alert and what it maps the alert to. -/
structure IndexDb (rt : IndexRuntime) where
  observables : Catalog (CatalogObservable.key rt)
  tags : Catalog (tagKey rt)
  observableMapping : Finset (Nat × Nat)
  tagMapping : Finset (Nat × Nat)
  observableTagIndex : Finset (Nat × (Nat ×ₗ Nat))
  detectionPoints : Dict (Nat × String) DetectionRow

structure IndexSyncResult where
  observablesCreated : Nat := 0
  tagsCreated : Nat := 0
  observableMappingsAdded : Nat := 0
  observableMappingsRemoved : Nat := 0
  tagMappingsAdded : Nat := 0
  tagMappingsRemoved : Nat := 0
  observableTagIndexAdded : Nat := 0
  observableTagIndexRemoved : Nat := 0
  detectionPointsWritten : Nat := 0
  detectionPointsRemoved : Nat := 0
  unresolvedTags : Nat := 0
  unresolvedObservables : Nat := 0
  deriving DecidableEq

def IndexSyncResult.totalWrites (result : IndexSyncResult) : Nat :=
  result.observablesCreated + result.tagsCreated +
    result.observableMappingsAdded + result.observableMappingsRemoved +
    result.tagMappingsAdded + result.tagMappingsRemoved +
    result.observableTagIndexAdded + result.observableTagIndexRemoved +
    result.detectionPointsWritten + result.detectionPointsRemoved

def chunkSize : Nat := 500

def chunked {α : Type} (items : List α) : List (List α) :=
  slices chunkSize items.length items

/-! ## §4 Reading the current rows -/

def mapped {β : Type} [DecidableEq β] (junction : Finset (Nat × β)) (alertId : Nat) : Finset β :=
  (junction.filter (·.1 = alertId)).image (·.2)

def readCurrentObservables {rt : IndexRuntime} (db : IndexDb rt) (alertId : Nat) :
    Dict ObservableKey Nat :=
  let observableIds := (mapped db.observableMapping alertId).sort (· ≤ ·)
  (chunked observableIds).foldl
    (fun result chunk => Catalog.fill (CatalogObservable.key rt) result
      (db.observables.rows.filter (·.1 ∈ chunk))) ∅

def readCurrentTags {rt : IndexRuntime} (db : IndexDb rt) (alertId : Nat) : Dict String Nat :=
  Catalog.fill (tagKey rt) ∅ (db.tags.rows.filter fun row => (alertId, row.1) ∈ db.tagMapping)

def readCurrentObservableTags {rt : IndexRuntime} (db : IndexDb rt) (alertId : Nat) :
    Finset (Nat ×ₗ Nat) :=
  mapped db.observableTagIndex alertId

/-! ## §5 Resolving ids -/

section Resolve

variable {α β κ : Type} [DecidableEq κ] {key : α → κ}

/-- `_select_tag_ids` and `_select_observable_ids`. -/
def selectIds (catalog : Catalog key) (values : List α) (resolved : Dict κ Nat) : Dict κ Nat :=
  (chunked (values.map key)).foldl
    (fun resolved keys => Catalog.fill key resolved (catalog.selectKeys keys)) resolved

/-- What `resolve_tag_ids` and `resolve_observable_ids` share: the ids of the items, with new
rows for those that have none, and how many rows are new. -/
def resolveIds (catalog : Catalog key) (value : β → α) (items : List ((_ : κ) × β)) :
    Catalog key × Dict κ Nat × Nat :=
  if items.isEmpty then (catalog, ∅, 0)
  else
    let resolved := selectIds catalog (items.map fun item => value item.2) ∅
    let missing := (items.filter fun item => item.1 ∉ resolved).map fun item => value item.2
    if missing.isEmpty then (catalog, resolved, 0)
    else
      let catalog := (chunked missing).foldl (fun catalog chunk =>
        chunk.foldl Catalog.insertIgnore catalog) catalog
      let before := resolved.keys.length
      let resolved := selectIds catalog missing resolved
      (catalog, resolved, resolved.keys.length - before)

end Resolve

def resolveTagIds {rt : IndexRuntime} (catalog : Catalog (tagKey rt))
    (tags : List ((_ : String) × String)) : Catalog (tagKey rt) × Dict String Nat × Nat :=
  resolveIds catalog id tags

def resolveObservableIds {rt : IndexRuntime} (catalog : Catalog (CatalogObservable.key rt))
    (observables : List ((_ : ObservableKey) × Observable)) :
    Catalog (CatalogObservable.key rt) × Dict ObservableKey Nat × Nat :=
  resolveIds catalog (fun o => ⟨o.type, o.value, rt.sha256 o.value⟩) observables

/-! ## §6 Writing the difference -/

section Diff

variable {β : Type} [LinearOrder β]

def deleteMapped (alertId : Nat) (junction : Finset (Nat × β)) (values : List β) :
    Finset (Nat × β) :=
  junction.filter fun row => ¬ (row.1 = alertId ∧ row.2 ∈ values)

/-- `INSERT IGNORE INTO ...`: rows that are there are ignored, and so are rows that refer to a
catalog row that does not exist. -/
def insertMapped (refers : β → Bool) (alertId : Nat) (junction : Finset (Nat × β))
    (values : List β) : Finset (Nat × β) :=
  junction ∪ ((values.filter refers).map (alertId, ·)).toFinset

/-- What `apply_id_diff` and `sync_observable_tag_index` share: the difference is written, with
how many rows were added and removed. -/
def applyDiff (refers : β → Bool) (junction : Finset (Nat × β)) (alertId : Nat)
    (desired current : Finset β) : Finset (Nat × β) × Nat × Nat :=
  let added := (desired \ current).sort (· ≤ ·)
  let removed := (current \ desired).sort (· ≤ ·)
  let junction := (chunked removed).foldl (deleteMapped alertId) junction
  let junction := (chunked added).foldl (insertMapped refers alertId) junction
  (junction, added.length, removed.length)

end Diff

def applyIdDiff (refers : Nat → Bool) (junction : Finset (Nat × Nat)) (alertId : Nat)
    (desired current : Finset Nat) : Finset (Nat × Nat) × Nat × Nat :=
  applyDiff refers junction alertId desired current

def syncObservableTagIndex (refers : Nat ×ₗ Nat → Bool)
    (junction : Finset (Nat × (Nat ×ₗ Nat))) (alertId : Nat)
    (desired current : Finset (Nat ×ₗ Nat)) : Finset (Nat × (Nat ×ₗ Nat)) × Nat × Nat :=
  applyDiff refers junction alertId desired current

def desiredPairs (desired : Finset (ObservableKey × String))
    (observableIds : Dict ObservableKey Nat) (tagIds : Dict String Nat) : Finset (Nat ×ₗ Nat) :=
  desired.biUnion fun (observable, tag) =>
    match observableIds.lookup observable, tagIds.lookup tag with
    | some observableId, some tagId => {toLex (observableId, tagId)}
    | _, _ => ∅

def DetectionRow.ofPoint (rt : IndexRuntime) (dp : DetectionPoint) : DetectionRow :=
  ⟨dp.description, rt.dumps dp.details, dp.queue, dp.signatureUuid, dp.signatureVersion⟩

def currentDetection (table : Dict (Nat × String) DetectionRow) (alertId : Nat)
    (contentHash : String) : Option (Option String × String) :=
  (table.lookup (alertId, contentHash)).map fun row => (row.queue, row.signatureVersion)

def deleteDetections (alertId : Nat) (table : Dict (Nat × String) DetectionRow)
    (contentHashes : List String) : Dict (Nat × String) DetectionRow :=
  contentHashes.foldl (fun table contentHash => table.erase (alertId, contentHash)) table

/-- `INSERT INTO detection_points ... ON DUPLICATE KEY UPDATE ...`. -/
def upsertDetections (rt : IndexRuntime) (alertId : Nat)
    (table : Dict (Nat × String) DetectionRow) (entries : List ((_ : String) × DetectionPoint)) :
    Dict (Nat × String) DetectionRow :=
  entries.foldl (fun table entry =>
    table.insert (alertId, entry.1) (DetectionRow.ofPoint rt entry.2)) table

def syncDetectionPoints (rt : IndexRuntime) (table : Dict (Nat × String) DetectionRow)
    (alertId : Nat) (desired : Dict String DetectionPoint) :
    Dict (Nat × String) DetectionRow × Nat × Nat :=
  let current := (table.keys.filter (·.1 = alertId)).map (·.2)
  let removed := (current.filter (· ∉ desired)).insertionSort (· ≤ ·)
  let toWrite := (desired.entries.filter fun entry =>
    currentDetection table alertId entry.1 ≠
      some (entry.2.queue, entry.2.signatureVersion)).insertionSort (·.1 ≤ ·.1)
  let table := (chunked removed).foldl (deleteDetections alertId) table
  let table := (chunked toWrite).foldl (upsertDetections rt alertId) table
  (table, toWrite.length, removed.length)

def syncAlertIndex {rt : IndexRuntime} (db : IndexDb rt) (alertId : Nat) (tree : IndexedTree) :
    IndexDb rt × IndexSyncResult :=
  let desired := buildDesiredIndex rt tree
  let currentObservables := readCurrentObservables db alertId
  let currentTags := readCurrentTags db alertId
  let currentPairs := readCurrentObservableTags db alertId
  let newObservables := desired.observables.entries.filter (·.1 ∉ currentObservables)
  let newTags := desired.tags.entries.filter (·.1 ∉ currentTags)
  let (observables, resolvedObservables, observablesCreated) :=
    resolveObservableIds db.observables newObservables
  let observableIds := resolvedObservables ∪ currentObservables
  let (tags, resolvedTags, tagsCreated) := resolveTagIds db.tags newTags
  let tagIds := resolvedTags ∪ currentTags
  let (observableMapping, observablesAdded, observablesRemoved) :=
    applyIdDiff observables.toTable.hasId db.observableMapping alertId
      (desired.observables.keys.filterMap observableIds.lookup).toFinset
      (currentObservables.entries.map (·.2)).toFinset
  let (tagMapping, tagsAdded, tagsRemoved) :=
    applyIdDiff tags.toTable.hasId db.tagMapping alertId
      (desired.tags.keys.filterMap tagIds.lookup).toFinset
      (currentTags.entries.map (·.2)).toFinset
  let (observableTagIndex, pairsAdded, pairsRemoved) :=
    syncObservableTagIndex
      (fun pair => observables.toTable.hasId pair.1 && tags.toTable.hasId pair.2)
      db.observableTagIndex alertId
      (desiredPairs desired.observableTags observableIds tagIds) currentPairs
  let (detectionPoints, written, removed) :=
    syncDetectionPoints rt db.detectionPoints alertId desired.detectionPoints
  (⟨observables, tags, observableMapping, tagMapping, observableTagIndex, detectionPoints⟩,
    { observablesCreated, tagsCreated
      observableMappingsAdded := observablesAdded
      observableMappingsRemoved := observablesRemoved
      tagMappingsAdded := tagsAdded
      tagMappingsRemoved := tagsRemoved
      observableTagIndexAdded := pairsAdded
      observableTagIndexRemoved := pairsRemoved
      detectionPointsWritten := written
      detectionPointsRemoved := removed
      unresolvedTags := desired.tags.keys.countP (· ∉ tagIds)
      unresolvedObservables := desired.observables.keys.countP (· ∉ observableIds) })

end Ace3.Database
