import Ace3.Export.Convergence
import Ace3.Observables.CanonicalValues
import Ace3.Observables.DetectionTable

/-!
# What a Detection Fires For

A detection passes from the table into the redis cache, under a key of its type and its value, and
`ObservableDetectionAnalyzer` (`saq/modules/observable_detection.py`) looks an observable up under
the key of its own type and value.
-/

namespace Ace3.Observables

open List Function
open Export Lib

/-! ## §1 The analyzer -/

def detectionKey (type value : String) : String := type ++ ":" ++ value

/-- What an `ObservableDetectionAnalysis` has found, and what it has added to the observable. -/
structure ObservableDetectionAnalysis where
  forDetection : Bool
  detectionPoint : Option String
  tag : Option String
  deriving DecidableEq

/-- `ObservableDetectionAnalyzer.execute_analysis` on the live database. -/
def executeAnalysis {φ : Type} (live : RedisDb φ) (observable : CreatedObservable) :
    ObservableDetectionAnalysis :=
  let key := detectionKey observable.type (String.ofList observable.value)
  if (live key).isSome then
    ⟨true, some ("Observable " ++ key ++ " is enabled for detection"),
      some ("detect_" ++ observable.type)⟩
  else ⟨false, none, none⟩

/-- The classes that inherit from `CaselessObservable`. -/
def RegisteredType.caseless : RegisteredType → Bool
  | .emailAddress | .emailDelivery | .user | .hostname | .asset | .fqdn | .filePath | .fileName
  | .md5 | .sha1 | .sha256 => true
  | _ => false

def compareValue (normalizeCaseless : Text → Text) (type : String) (value other : Text) : Bool :=
  match RegisteredType.ofName? type with
  | some registered =>
    if registered.caseless then normalizeCaseless value = normalizeCaseless other
    else value = other
  | none => value = other

/-! ## §2 What is stored -/

variable {settings : DetectionSettings} {observableType : String} {observableValue : Text}

theorem createObservable_type {libs : Libraries} {observable : CreatedObservable}
    (h : createObservable libs observableType observableValue = .ok (some observable)) :
    observable.type = observableType := by
  simp only [createObservable] at h
  split at h
  · rw [← Option.some.inj (Except.ok.inj h)]
  · cases h
  · cases h

theorem identityFromObservable_spec {observable : CreatedObservable}
    {identity : DetectionIdentity settings}
    (h : identityFromObservable settings observable = .ok identity) :
    identity.type = observable.type ∧ identity.value = observable.value := by
  unfold identityFromObservable at h
  split_ifs at h
  split at h
  · exact nomatch h
  · rw [← Except.ok.inj h]
    exact ⟨rfl, rfl⟩

/-- The identity of a detection has the value that `create_observable` gives; that of a file
detection is stripped and in lower case. -/
theorem resolveDetectionIdentity_spec {identity : DetectionIdentity settings}
    (h : resolveDetectionIdentity settings observableType observableValue = .ok identity) :
    identity.type = observableType ∧
      (observableType ≠ "file" →
        createObservable settings.libs observableType observableValue =
          .ok (some ⟨observableType, identity.value⟩)) ∧
      (observableType = "file" →
        identity.value = settings.libs.lowering.lower (strip observableValue)) := by
  unfold resolveDetectionIdentity at h
  split_ifs at h with hfile
  · unfold fileDetectionIdentity at h
    dsimp only at h
    split at h
    · exact nomatch h
    · split_ifs at h
      rw [← Except.ok.inj h]
      exact ⟨hfile.symm, fun hne => absurd hfile hne, fun _ => rfl⟩
  · split at h
    · exact nomatch h
    · exact nomatch h
    · next observable hcreated =>
      obtain ⟨htype, hvalue⟩ := identityFromObservable_spec h
      have hobservable := createObservable_type hcreated
      refine ⟨htype.trans hobservable, fun _ => ?_, fun heq => absurd heq hfile⟩
      rw [hcreated, hvalue, ← hobservable]

namespace DetectionTable

variable {table after : DetectionTable settings} {row : DetectionRow}
  {defaultExpiration expiresOn : Option ℕ}

theorem find_spec {type : String} {valueSha256 : List ℕ}
    (h : table.find type valueSha256 = some row) : row ∈ table.rows ∧
      settings.key row.type row.valueSha256 = settings.key type valueSha256 :=
  ⟨List.mem_of_find?_eq_some h, by simpa using List.find?_some h⟩

theorem upsert_spec {identity : DetectionIdentity settings}
    (h : table.upsert identity defaultExpiration expiresOn = .ok (row, after)) :
    row ∈ after.rows ∧ row.valueSha256 = identity.valueSha256 := by
  unfold upsert at h
  split at h
  · next found hfound =>
    obtain ⟨hmem, hkey⟩ := find_spec hfound
    have hsha256 : found.valueSha256 = identity.valueSha256 := congrArg Prod.snd hkey
    split at h
    · obtain ⟨rfl, rfl⟩ := Prod.mk.inj (Except.ok.inj h)
      exact ⟨hmem, hsha256⟩
    · obtain ⟨rfl, rfl⟩ := Prod.mk.inj (Except.ok.inj h)
      exact ⟨mem_map_of_mem hmem, by rw [expireRow_valueSha256, hsha256]⟩
  · split_ifs at h
    obtain ⟨rfl, rfl⟩ := Prod.mk.inj (Except.ok.inj h)
    exact ⟨mem_append_right _ (mem_singleton_self _), rfl⟩

/-- A detection that is stored under the given type has the value that `create_observable` gives;
one of a file has the same bytes. -/
theorem createObservableDetection_spec
    (h : table.createObservableDetection observableType observableValue defaultExpiration
      expiresOn = .ok (row, after)) (htype : row.type = observableType) :
    row ∈ after.rows ∧
      (observableType ≠ "file" →
        createObservable settings.libs observableType observableValue =
          .ok (some ⟨observableType, row.value⟩)) ∧
      (observableType = "file" →
        fromhex row.value = fromhex (settings.libs.lowering.lower (strip observableValue))) := by
  simp only [createObservableDetection, bind, Except.bind] at h
  split at h
  · exact nomatch h
  · next identity hidentity =>
    obtain ⟨hmem, hsha256⟩ := upsert_spec h
    obtain ⟨hidentityType, hvalue, hfileValue⟩ := resolveDetectionIdentity_spec hidentity
    have hrow := after.hashed row hmem
    -- the two values have one hash
    have hsame : settings.sha256Bytes observableType row.value =
        settings.sha256Bytes observableType identity.value := by
      rw [← htype, hrow, hsha256, ← identity.hashed, hidentityType, htype]
    refine ⟨hmem, fun hne => ?_, fun hfile => ?_⟩
    · simp only [DetectionSettings.sha256Bytes, if_neg hne, Option.some.injEq] at hsame
      rw [hvalue hne, settings.sha256_injective hsame]
    · simp only [DetectionSettings.sha256Bytes, if_pos hfile] at hsame
      rw [hsame, hfileValue hfile]

/-! ## §3 What becomes of a row -/

/-- Ids are not used again, and a row that is still there has its type and its value. -/
structure Keeps (table after : DetectionTable settings) : Prop where
  nextId : table.nextId ≤ after.nextId
  rows : ∀ stored ∈ after.rows, stored.id < table.nextId →
    ∃ row ∈ table.rows, row.id = stored.id ∧ row.type = stored.type ∧ row.value = stored.value

theorem Keeps.refl (table : DetectionTable settings) : table.Keeps table :=
  ⟨Nat.le_refl _, fun stored hstored _ => ⟨stored, hstored, rfl, rfl, rfl⟩⟩

theorem Keeps.trans {middle : DetectionTable settings} (h : table.Keeps middle)
    (h' : middle.Keeps after) : table.Keeps after where
  nextId := h.nextId.trans h'.nextId
  rows stored hstored hid := by
    obtain ⟨row, hrow, hrowId, htype, hvalue⟩ :=
      h'.rows stored hstored (hid.trans_le h.nextId)
    obtain ⟨first, hfirst, hfirstId, htype', hvalue'⟩ := h.rows row hrow (hrowId ▸ hid)
    exact ⟨first, hfirst, hfirstId.trans hrowId, htype'.trans htype, hvalue'.trans hvalue⟩

theorem keeps_setExpiration (id : ℕ) (expiresOn : Option ℕ) :
    table.Keeps (table.setExpiration id expiresOn) where
  nextId := Nat.le_refl _
  rows stored hstored _ := by
    obtain ⟨row, hrow, rfl⟩ := mem_map.mp hstored
    exact ⟨row, hrow, by simp, by simp, by simp⟩

theorem keeps_delete (selects : DetectionRow → Bool) : table.Keeps (table.delete selects) where
  nextId := Nat.le_refl _
  rows stored hstored _ := ⟨stored, mem_of_mem_filter hstored, rfl, rfl, rfl⟩

theorem keeps_upsert {identity : DetectionIdentity settings}
    (h : table.upsert identity defaultExpiration expiresOn = .ok (row, after)) :
    table.Keeps after := by
  unfold upsert at h
  split at h
  · split at h
    · obtain ⟨-, rfl⟩ := Prod.mk.inj (Except.ok.inj h)
      exact .refl table
    · obtain ⟨-, rfl⟩ := Prod.mk.inj (Except.ok.inj h)
      exact keeps_setExpiration _ _
  · split_ifs at h
    obtain ⟨-, rfl⟩ := Prod.mk.inj (Except.ok.inj h)
    refine ⟨Nat.le_succ _, fun stored hstored hid => ?_⟩
    rcases mem_append.mp hstored with hstored | hstored
    · exact ⟨stored, hstored, rfl, rfl, rfl⟩
    · -- the new row has the next id
      rw [mem_singleton.mp hstored] at hid
      exact absurd hid (Nat.lt_irrefl _)

theorem keeps_apply (table : DetectionTable settings) (operation : DetectionOperation) :
    table.Keeps (table.apply operation) := by
  cases operation with
  | create observableType observableValue defaultExpiration expiresOn =>
    simp only [apply]
    split
    · next row after h =>
      simp only [createObservableDetection, bind, Except.bind] at h
      split at h
      · exact nomatch h
      · exact keeps_upsert h
    · exact .refl table
  | enable observable defaultExpiration =>
    simp only [apply]
    split
    · next row after h =>
      simp only [enableObservableDetection, bind, Except.bind] at h
      split at h
      · exact nomatch h
      · exact keeps_upsert h
    · exact .refl table
  | disable observable =>
    simp only [apply]
    split
    · next after h =>
      simp only [disableObservableDetection, bind, Except.bind] at h
      split at h
      · exact nomatch h
      · rw [← Except.ok.inj h]
        exact keeps_delete _
    · exact .refl table
  | delete detectionId => exact keeps_delete _
  | setExpiration detectionId expiresOn => exact keeps_setExpiration _ _

theorem keeps_foldl_apply (operations : List DetectionOperation)
    (table : DetectionTable settings) : table.Keeps (operations.foldl apply table) := by
  induction operations generalizing table with
  | nil => exact .refl table
  | cons operation operations ih => exact (keeps_apply table operation).trans (ih _)

theorem eq_of_id_eq {row' : DetectionRow} (hrow : row ∈ table.rows) (hrow' : row' ∈ table.rows)
    (hid : row.id = row'.id) : row = row' :=
  inj_on_of_nodup_map table.ids hrow hrow' hid

theorem eq_of_value_eq {row' : DetectionRow} (hrow : row ∈ table.rows)
    (hrow' : row' ∈ table.rows) (htype : row.type = row'.type) (hvalue : row.value = row'.value) :
    row = row' := by
  have hsha256 : some row.valueSha256 = some row'.valueSha256 := by
    rw [← table.hashed row hrow, ← table.hashed row' hrow', htype, hvalue]
  refine inj_on_of_nodup_map table.keys hrow hrow' ?_
  rw [htype, Option.some.inj hsha256]

/-! ## §4 Through the cache -/

theorem mem_getActiveDetectionsByType_iff (now : ℕ) {type : String} {entry : ℕ × String} :
    (∃ listed, (type, listed) ∈ table.getActiveDetectionsByType now ∧ entry ∈ listed) ↔
      ∃ row ∈ table.rows, row.active now = true ∧ row.type = type ∧
        entry = (row.id, String.ofList row.value) := by
  have hfold : ∀ (rows : List DetectionRow)
      (detections : OrderedDict String (List (ℕ × String))),
      entry ∈ ((rows.foldl (fun detections row => detections.set row.type
        ((detections.get? row.type).getD [] ++ [(row.id, String.ofList row.value)]))
          detections).get? type).getD [] ↔
        entry ∈ (detections.get? type).getD [] ∨
          ∃ row ∈ rows, row.type = type ∧ entry = (row.id, String.ofList row.value) := by
    intro rows
    induction rows with
    | nil => simp
    | cons row rows ih =>
      intro detections
      rw [foldl_cons, ih, OrderedDict.get?_set]
      by_cases htype : type = row.type
      · subst htype
        simp [or_assoc]
      · simp [htype, Ne.symm htype]
  have hmem : (∃ listed, (type, listed) ∈ table.getActiveDetectionsByType now ∧ entry ∈ listed) ↔
      entry ∈ (((table.rows.filter (·.active now)).foldl (fun detections row =>
        detections.set row.type ((detections.get? row.type).getD [] ++
          [(row.id, String.ofList row.value)])) OrderedDict.empty).get? type).getD [] := by
    simp only [getActiveDetectionsByType, ← OrderedDict.get?_eq_some_iff]
    constructor
    · rintro ⟨listed, hlisted, hentry⟩
      rwa [hlisted, Option.getD_some]
    · intro hentry
      cases hlisted : OrderedDict.get? _ type with
      | none => simp [hlisted] at hentry
      | some listed => exact ⟨listed, rfl, by simpa [hlisted] using hentry⟩
  rw [hmem, hfold]
  simp [and_assoc]

variable {φ : Type} {now : ℕ} {run : ExportRun Unit (Option ℕ)}

theorem mem_listOf_iff (digest : List ExportEntry → φ)
    (hrun : run.detections = table.getActiveDetectionsByType now)
    {entry : ExportEntry} : entry ∈ (redisExport digest).listOf run ↔
      ∃ row ∈ table.rows, row.active now = true ∧
        entry = ⟨row.id, row.type, String.ofList row.value⟩ := by
  simp only [ObservableExport.listOf, redisExport, exportList, mem_insertionSort,
    mem_flatMap, mem_map, hrun, Prod.exists]
  constructor
  · rintro ⟨type, listed, hlisted, id, value, hentry, rfl⟩
    obtain ⟨row, hrow, hactive, rfl, heq⟩ :=
      (mem_getActiveDetectionsByType_iff now).mp ⟨listed, hlisted, hentry⟩
    obtain ⟨rfl, rfl⟩ := Prod.mk.inj heq
    exact ⟨row, hrow, hactive, rfl⟩
  · rintro ⟨row, hrow, hactive, rfl⟩
    obtain ⟨listed, hlisted, hentry⟩ :=
      (mem_getActiveDetectionsByType_iff now).mpr ⟨row, hrow, hactive, rfl, rfl⟩
    exact ⟨row.type, listed, hlisted, row.id, _, hentry, rfl⟩

end DetectionTable

/-- The cache after runs of the export, empty at first. -/
def exportedCache {φ : Type} [DecidableEq φ] (digest : List ExportEntry → φ)
    (runs : List (ExportRun Unit (Option ℕ))) : RedisCache φ :=
  runs.foldl (fun cache run => ((redisExport digest).runExport digest run cache).1)
    ⟨fun _ => none, fun _ => none⟩

section Cache

variable {φ : Type} {digest : List ExportEntry → φ} {run : ExportRun Unit (Option ℕ)}

theorem exportedCache_consistent [DecidableEq φ] (runs : List (ExportRun Unit (Option ℕ))) :
    (exportedCache digest runs).Consistent digest := by
  have hruns : ∀ (runs : List (ExportRun Unit (Option ℕ))) (cache : RedisCache φ),
      cache.Consistent digest →
        (runs.foldl (fun cache run => ((redisExport digest).runExport digest run cache).1)
          cache).Consistent digest := by
    intro runs
    induction runs with
    | nil => exact fun _ h => h
    | cons run runs ih => exact fun cache h => ih _ (redisExport_consistent h run)
  exact hruns runs _ (RedisCache.consistent_of_empty rfl)

theorem live_of_run [DecidableEq φ] (hdigest : Injective digest)
    (runs : List (ExportRun Unit (Option ℕ)))
    (hresult : ((redisExport digest).runExport digest run (exportedCache digest runs)).2 ≠
      .failed) :
    (exportedCache digest (runs ++ [run])).live =
      RedisCache.filled digest ((redisExport digest).listOf run) := by
  have hupToDate := redisExport_upToDate hdigest (exportedCache_consistent runs) run hresult
  rw [exportedCache, foldl_append, foldl_cons, foldl_nil]
  exact hupToDate.trans (RedisCache.live_publish_none _ _)

theorem detectionKey_inj {type value type' value' : String} (h : ':' ∉ type.toList)
    (h' : ':' ∉ type'.toList) :
    detectionKey type value = detectionKey type' value' ↔ type = type' ∧ value = value' := by
  constructor
  · intro heq
    have hchars : type.toList ++ ':' :: value.toList = type'.toList ++ ':' :: value'.toList := by
      have := congrArg String.toList heq
      simpa [detectionKey, String.toList_append] using this
    have hsplit := congrArg (split ':' 1) hchars
    rw [split_one_append h, split_one_append h'] at hsplit
    obtain ⟨htype, hvalue⟩ : type.toList = type'.toList ∧ value.toList = value'.toList := by
      simpa using hsplit
    exact ⟨String.toList_inj.mp htype, String.toList_inj.mp hvalue⟩
  · rintro ⟨rfl, rfl⟩
    rfl

theorem detectionKey_ne_fingerprintKey (type value : String) :
    detectionKey type value ≠ RedisCache.fingerprintKey := by
  intro heq
  have hcolon : ':' ∈ (detectionKey type value).toList := by
    simp [detectionKey, String.toList_append]
  rw [heq] at hcolon
  exact absurd hcolon (by decide)

theorem filled_detectionKey_iff {table : DetectionTable settings} {now : ℕ}
    (hrun : run.detections = table.getActiveDetectionsByType now)
    (hcolon : ∀ row ∈ table.rows, ':' ∉ row.type.toList) {observable : CreatedObservable}
    (hobservable : ':' ∉ observable.type.toList) (found : RedisValue φ) :
    RedisCache.filled digest ((redisExport digest).listOf run)
        (detectionKey observable.type (String.ofList observable.value)) = some found ↔
      ∃ row ∈ table.rows, row.active now = true ∧ row.type = observable.type ∧
        row.value = observable.value ∧ found = .id row.id := by
  have hkey : ∀ row ∈ table.rows,
      detectionKey row.type (String.ofList row.value) =
        detectionKey observable.type (String.ofList observable.value) ↔
          row.type = observable.type ∧ row.value = observable.value := by
    intro row hrow
    rw [detectionKey_inj (hcolon row hrow) hobservable, String.ofList_inj]
  rw [RedisCache.filled_of_ne (detectionKey_ne_fingerprintKey _ _), Option.map_eq_some_iff]
  constructor
  · rintro ⟨entry, hentry, rfl⟩
    obtain ⟨row, hrow, hactive, rfl⟩ := (DetectionTable.mem_listOf_iff digest hrun).mp
      (mem_reverse.mp (List.mem_of_find?_eq_some hentry))
    have hsame : detectionKey row.type (String.ofList row.value) =
        detectionKey observable.type (String.ofList observable.value) := by
      have := List.find?_some hentry
      exact of_decide_eq_true this
    obtain ⟨htype, hvalue⟩ := (hkey row hrow).mp hsame
    exact ⟨row, hrow, hactive, htype, hvalue, rfl⟩
  · rintro ⟨row, hrow, hactive, htype, hvalue, rfl⟩
    have hlisted := (DetectionTable.mem_listOf_iff digest hrun).mpr
      ⟨row, hrow, hactive, rfl⟩
    cases hfind : ((redisExport digest).listOf run).reverse.find? fun entry =>
        entry.type ++ ":" ++ entry.value =
          detectionKey observable.type (String.ofList observable.value) with
    | none =>
      have := List.find?_eq_none.mp hfind _ (mem_reverse.mpr hlisted)
      exact absurd (decide_eq_true ((hkey row hrow).mpr ⟨htype, hvalue⟩)) this
    | some entry =>
      -- no other row has the type and the value
      obtain ⟨other, hother, -, rfl⟩ := (DetectionTable.mem_listOf_iff digest hrun).mp
        (mem_reverse.mp (List.mem_of_find?_eq_some hfind))
      have hsame : detectionKey other.type (String.ofList other.value) =
          detectionKey observable.type (String.ofList observable.value) := by
        have := List.find?_some hfind
        exact of_decide_eq_true this
      obtain ⟨htype', hvalue'⟩ := (hkey other hother).mp hsame
      have := DetectionTable.eq_of_value_eq hother hrow (htype'.trans htype.symm)
        (hvalue'.trans hvalue.symm)
      exact ⟨_, rfl, by rw [this]⟩

end Cache

/-! ## §5 What fires -/

/-- A detection that was created, once it is exported: it is found for an observable exactly when
the observable has its type and, letter by letter, the value that `create_observable` gave; and an
observable gets a detection point exactly when an active detection has its type and value. -/
theorem detection_fires_iff {φ : Type} [DecidableEq φ] {digest : List ExportEntry → φ}
    (hdigest : Injective digest) {before created : DetectionTable settings}
    {row stored : DetectionRow} {defaultExpiration expiresOn : Option ℕ}
    (hcreated : before.createObservableDetection observableType observableValue defaultExpiration
      expiresOn = .ok (row, created))
    (htype : row.type = observableType) (operations : List DetectionOperation)
    (hstored : stored ∈ (operations.foldl DetectionTable.apply created).rows)
    (hid : stored.id = row.id)
    (hcolon : ∀ row ∈ (operations.foldl DetectionTable.apply created).rows,
      ':' ∉ row.type.toList)
    {now : ℕ} (hactive : stored.active now = true)
    (runs : List (ExportRun Unit (Option ℕ))) {run : ExportRun Unit (Option ℕ)}
    (hrun : run.detections =
      (operations.foldl DetectionTable.apply created).getActiveDetectionsByType now)
    (hresult : ((redisExport digest).runExport digest run (exportedCache digest runs)).2 ≠
      .failed) :
    (observableType ≠ "file" →
      createObservable settings.libs observableType observableValue =
        .ok (some ⟨observableType, stored.value⟩)) ∧
    (observableType = "file" →
      fromhex stored.value = fromhex (settings.libs.lowering.lower (strip observableValue))) ∧
    ∀ observable : CreatedObservable, ':' ∉ observable.type.toList →
      ((exportedCache digest (runs ++ [run])).live
          (detectionKey observable.type (String.ofList observable.value)) =
            some (.id stored.id) ↔
        observable.type = observableType ∧ observable.value = stored.value) ∧
      ((executeAnalysis (exportedCache digest (runs ++ [run])).live
          observable).detectionPoint.isSome = true ↔
        ∃ row ∈ (operations.foldl DetectionTable.apply created).rows,
          row.active now = true ∧ row.type = observable.type ∧ row.value = observable.value) := by
  obtain ⟨hmem, hvalue, hfile⟩ :=
    DetectionTable.createObservableDetection_spec hcreated htype
  -- the row is still the one that was created
  obtain ⟨first, hfirst, hfirstId, hfirstType, hfirstValue⟩ :=
    (DetectionTable.keeps_foldl_apply operations created).rows stored hstored
      (hid ▸ created.id_lt row hmem)
  obtain rfl : first = row := DetectionTable.eq_of_id_eq hfirst hmem (hfirstId.trans hid)
  rw [live_of_run hdigest runs hresult, ← hfirstValue]
  refine ⟨hvalue, hfile, fun observable hobservable => ⟨?_, ?_⟩⟩
  · rw [filled_detectionKey_iff hrun hcolon hobservable]
    constructor
    · rintro ⟨other, hother, -, hotherType, hotherValue, hfound⟩
      obtain rfl : stored = other :=
        DetectionTable.eq_of_id_eq hstored hother (RedisValue.id.inj hfound)
      exact ⟨(hotherType.symm.trans hfirstType.symm).trans htype,
        hotherValue.symm.trans hfirstValue.symm⟩
    · rintro ⟨hsameType, hsameValue⟩
      exact ⟨stored, hstored, hactive, (hfirstType.symm.trans htype).trans hsameType.symm,
        hfirstValue.symm.trans hsameValue.symm, rfl⟩
  · have hfires : ∀ live : RedisDb φ,
        (executeAnalysis live observable).detectionPoint.isSome = true ↔
          ∃ found, live (detectionKey observable.type (String.ofList observable.value)) =
            some found := by
      intro live
      simp only [executeAnalysis]
      split_ifs with h
      · exact iff_of_true rfl (Option.isSome_iff_exists.mp h)
      · exact iff_of_false (by simp) fun hfound => h (Option.isSome_iff_exists.mpr hfound)
    rw [hfires]
    simp only [filled_detectionKey_iff hrun hcolon hobservable]
    constructor
    · rintro ⟨_, other, hother, hotherActive, hotherType, hotherValue, -⟩
      exact ⟨other, hother, hotherActive, hotherType, hotherValue⟩
    · rintro ⟨other, hother, hotherActive, hotherType, hotherValue⟩
      exact ⟨_, other, hother, hotherActive, hotherType, hotherValue, rfl⟩

def plainSettings : DetectionSettings where
  libs := plainLibraries
  sha256 := List.map Char.toNat
  sha256_injective := map_injective_iff.mpr fun _ _ h => Char.toNat_inj.mp h
  collate type := String.ofList (type.toList.map Char.toLower)

/-- A detection of a host name in capitals, the table after it, and the run that exports it. -/
def hostnameTable : DetectionTable plainSettings :=
  DetectionTable.empty.apply (.create "hostname" "HOST1".toList none none)

def hostnameRow : DetectionRow :=
  ⟨1, "hostname", "HOST1".toList, "HOST1".toList.map Char.toNat, none⟩

def hostnameRun : ExportRun Unit (Option ℕ) :=
  ⟨(), hostnameTable.getActiveDetectionsByType 0, false, false, none, .written⟩

/-- The detection is found for the host name in capitals. -/
theorem hostname_fires :
    (exportedCache (φ := List ExportEntry) id ([] ++ [hostnameRun])).live
        (detectionKey "hostname" (String.ofList "HOST1".toList)) = some (.id 1) := by
  have hdigest : Injective (id : List ExportEntry → List ExportEntry) :=
    injective_id
  have hcreated : (DetectionTable.empty : DetectionTable plainSettings).createObservableDetection
      "hostname" "HOST1".toList none none = .ok (hostnameRow, hostnameTable) := rfl
  have hstored : hostnameRow ∈
      (([] : List DetectionOperation).foldl DetectionTable.apply hostnameTable).rows := by decide
  have hactive : hostnameRow.active 0 = true := rfl
  have hrun : hostnameRun.detections =
      (([] : List DetectionOperation).foldl DetectionTable.apply
        hostnameTable).getActiveDetectionsByType 0 := rfl
  have hfires := (detection_fires_iff hdigest hcreated rfl [] hstored rfl (by decide) hactive []
    hrun (by decide)).2.2 ⟨"hostname", "HOST1".toList⟩ (by decide)
  exact hfires.1.mpr ⟨rfl, rfl⟩

/-- A detection of a type that is not registered, with a colon in its value. -/
def colonTable : DetectionTable plainSettings :=
  DetectionTable.empty.apply (.create "port" "tcp:80".toList none none)

def colonRun : ExportRun Unit (Option ℕ) :=
  ⟨(), colonTable.getActiveDetectionsByType 0, false, false, none, .written⟩

/-- A host name in small letters is equal to the one in capitals in its class, and does not fire;
and an observable of another type fires when the two keys are the same text. -/
theorem hostname_in_small_letters_not_fired :
    (createObservable plainSettings.libs "hostname" "HOST1".toList =
        .ok (some ⟨"hostname", "HOST1".toList⟩) ∧
      hostnameTable.rows = [hostnameRow] ∧
      compareValue (List.map Char.toLower) "hostname" "host1".toList "HOST1".toList = true ∧
      executeAnalysis (exportedCache (φ := List ExportEntry) id [hostnameRun]).live
        ⟨"hostname", "host1".toList⟩ = ⟨false, none, none⟩ ∧
      ¬ ∀ observable : CreatedObservable,
        (executeAnalysis (exportedCache (φ := List ExportEntry) id [hostnameRun]).live
            observable).detectionPoint.isSome = true ↔
          observable.type = "hostname" ∧
            compareValue (List.map Char.toLower) "hostname" observable.value
              "HOST1".toList = true) ∧
    (executeAnalysis (exportedCache (φ := List ExportEntry) id [colonRun]).live
      ⟨"port:tcp", "80".toList⟩).detectionPoint.isSome = true := by
  refine ⟨⟨by decide, by decide, by decide, by decide, fun h => ?_⟩, by decide⟩
  have hfires := (h ⟨"hostname", "host1".toList⟩).mpr ⟨rfl, by decide⟩
  exact absurd hfires (by decide)

end Ace3.Observables
