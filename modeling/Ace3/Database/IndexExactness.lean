import Ace3.Database.IndexSync

/-!
# Exactness of the Index Synchronization

After `sync_alert_index`, the rows of the alert are those its tree calls for, the rows of other
alerts are what they were, and to synchronize again writes nothing.
-/

namespace Ace3.Database

open List
open Analysis (DetectionPoint Details Observable)
open Lib

/-! ## §1 Dictionaries -/

@[simp] theorem flatten_chunked {α : Type} (items : List α) : (chunked items).flatten = items :=
  flatten_slices (by decide) _ items (Nat.le_refl _)

theorem foldl_chunked {α σ : Type} {statement : σ → List α → σ}
    (hnil : ∀ s, statement s [] = s)
    (happend : ∀ s first second,
      statement s (first ++ second) = statement (statement s first) second)
    (items : List α) (s : σ) : (chunked items).foldl statement s = statement s items := by
  rw [foldl_flatten hnil happend, flatten_chunked]

section Dict

variable {κ α : Type} [DecidableEq κ]

theorem lookup_foldl_insert (key : α → κ) (items : List α) (dict : Dict κ α) (k : κ) :
    (items.foldl (fun dict item => dict.insert (key item) item) dict).lookup k =
      (items.reverse.find? (key · = k)).or (dict.lookup k) := by
  induction items generalizing dict with
  | nil => rfl
  | cons item items ih =>
    rw [foldl_cons, ih, reverse_cons, List.find?_append, Option.or_assoc]
    by_cases hk : key item = k
    · subst hk
      simp
    · simp [hk, AList.lookup_insert_ne (Ne.symm hk)]

theorem lookup_foldl_setDefault (key : α → κ) (items : List α) (dict : Dict κ α) (k : κ) :
    (items.foldl (fun dict item => setDefault dict (key item) item) dict).lookup k =
      (dict.lookup k).or (items.find? (key · = k)) := by
  induction items generalizing dict with
  | nil => simp
  | cons item items ih =>
    rw [foldl_cons, ih, setDefault]
    by_cases hk : key item = k
    · subst hk
      split
      next hmem =>
        obtain ⟨value, hvalue⟩ := Option.isSome_iff_exists.mp (AList.lookup_isSome.mpr hmem)
        simp [hvalue]
      next hmem => simp [AList.lookup_eq_none.mpr hmem]
    · split
      next => simp [hk]
      next => simp [hk, AList.lookup_insert_ne (Ne.symm hk)]

end Dict

section Desired

variable {rt : IndexRuntime} {tree : IndexedTree}

variable {k : ObservableKey}

theorem mem_desired_observables :
    k ∈ (buildDesiredIndex rt tree).observables ↔
      ∃ o ∈ tree.indexedObservables, keyOf rt o = k := by
  rw [← AList.lookup_isSome, buildDesiredIndex, lookup_foldl_setDefault]
  simp

theorem keyOf_desired {o : Observable}
    (h : (buildDesiredIndex rt tree).observables.lookup k = some o) : keyOf rt o = k := by
  rw [buildDesiredIndex, lookup_foldl_setDefault, AList.lookup_empty, Option.none_or] at h
  have hfound := List.find?_some h
  exact of_decide_eq_true hfound

theorem mem_desired_tags {k : String} :
    k ∈ (buildDesiredIndex rt tree).tags ↔ ∃ tag ∈ tree.allTags, tagKey rt tag = k := by
  rw [← AList.lookup_isSome, buildDesiredIndex, lookup_foldl_insert]
  simp

theorem tagKey_desired {k tag : String}
    (h : (buildDesiredIndex rt tree).tags.lookup k = some tag) : tagKey rt tag = k := by
  rw [buildDesiredIndex, lookup_foldl_insert, AList.lookup_empty, Option.or_none] at h
  have hfound := List.find?_some h
  exact of_decide_eq_true hfound

def IndexedTree.detectionOf (rt : IndexRuntime) (tree : IndexedTree) (hash : String) :
    Option DetectionPoint :=
  tree.allDetectionPoints.reverse.find? (contentHash rt · = hash)

theorem lookup_desired_detectionPoints (hash : String) :
    (buildDesiredIndex rt tree).detectionPoints.lookup hash = tree.detectionOf rt hash := by
  rw [buildDesiredIndex, lookup_foldl_insert, IndexedTree.detectionOf]
  simp

theorem mem_desired_observableTags {tag : String} :
    (k, tag) ∈ (buildDesiredIndex rt tree).observableTags ↔
      ∃ o ∈ tree.indexedObservables, ∃ name ∈ o.tags, keyOf rt o = k ∧ tagKey rt name = tag := by
  simp [buildDesiredIndex]

end Desired

/-! ## §2 The current rows -/

@[simp] theorem mem_mapped {β : Type} [DecidableEq β] {junction : Finset (Nat × β)}
    {alertId : Nat} {b : β} : b ∈ mapped junction alertId ↔ (alertId, b) ∈ junction := by
  simp [mapped]

/-- A dictionary holds the rows of a catalog that a junction table maps an alert to. -/
def HoldsMapped {α κ : Type} [DecidableEq κ] {key : α → κ} (catalog : Catalog key)
    (junction : Finset (Nat × Nat)) (alertId : Nat) (current : Dict κ Nat) : Prop :=
  ∀ k id, current.lookup k = some id ↔ catalog.idOf k = some id ∧ (alertId, id) ∈ junction

section Current

variable {α κ : Type} [DecidableEq κ] {key : α → κ} {catalog : Catalog key}
  {junction : Finset (Nat × Nat)} {alertId : Nat}

theorem holdsMapped_fill {rows : List (Nat × α)}
    (hrows : ∀ row, row ∈ rows ↔ row ∈ catalog.rows ∧ (alertId, row.1) ∈ junction) :
    HoldsMapped catalog junction alertId (Catalog.fill key ∅ rows) := by
  intro k id
  rw [Catalog.lookup_fill fun row hrow => ((hrows row).mp hrow).1]
  constructor
  · intro h
    split at h
    next hk =>
      obtain ⟨row, hrow, hkey⟩ := mem_map.mp hk
      obtain ⟨value, hvalue, hkey'⟩ := Catalog.idOf_eq_some.mp h
      have hsame := catalog.key_inj _ ((hrows row).mp hrow).1 _ hvalue (hkey.trans hkey'.symm)
      obtain rfl : row.1 = id := congrArg Prod.fst hsame
      exact ⟨h, ((hrows row).mp hrow).2⟩
    next => simp at h
  · rintro ⟨h, hmapped⟩
    obtain ⟨value, hvalue, hkey⟩ := Catalog.idOf_eq_some.mp h
    rw [if_pos (mem_map.mpr ⟨_, (hrows _).mpr ⟨hvalue, hmapped⟩, hkey⟩)]
    exact h

theorem HoldsMapped.values {current : Dict κ Nat}
    (h : HoldsMapped catalog junction alertId current)
    (hrefers : ∀ row ∈ junction, catalog.toTable.hasId row.2) :
    (current.entries.map (·.2)).toFinset = mapped junction alertId := by
  ext id
  rw [mem_toFinset, Catalog.mem_values, mem_mapped]
  constructor
  · rintro ⟨k, hk⟩
    exact ((h k id).mp hk).2
  · intro hmapped
    obtain ⟨k, hk⟩ := Catalog.exists_idOf (hrefers _ hmapped)
    exact ⟨k, (h k id).mpr ⟨hk, hmapped⟩⟩

end Current

section Read

variable {rt : IndexRuntime} (db : IndexDb rt) (alertId : Nat)

theorem readCurrentObservables_holdsMapped :
    HoldsMapped db.observables db.observableMapping alertId
      (readCurrentObservables db alertId) := by
  rw [readCurrentObservables, Catalog.foldl_fill]
  refine holdsMapped_fill fun row => ?_
  have hflatten := flatten_chunked ((mapped db.observableMapping alertId).sort (· ≤ ·))
  have hmem : (∃ chunk ∈ chunked ((mapped db.observableMapping alertId).sort (· ≤ ·)),
      row.1 ∈ chunk) ↔ (alertId, row.1) ∈ db.observableMapping := by
    rw [← mem_flatten, hflatten, Finset.mem_sort, mem_mapped]
  simp only [mem_flatMap, mem_filter, decide_eq_true_eq, ← hmem]
  exact ⟨fun ⟨chunk, hchunk, hrow, hid⟩ => ⟨hrow, chunk, hchunk, hid⟩,
    fun ⟨hrow, chunk, hchunk, hid⟩ => ⟨chunk, hchunk, hrow, hid⟩⟩

theorem readCurrentTags_holdsMapped :
    HoldsMapped db.tags db.tagMapping alertId (readCurrentTags db alertId) :=
  holdsMapped_fill fun row => by simp

end Read

/-! ## §3 Resolving ids -/

section Resolve

variable {α β κ : Type} [DecidableEq κ] {key : α → κ}

theorem lookup_selectIds (catalog : Catalog key) (values : List α) (resolved : Dict κ Nat)
    (k : κ) : (selectIds catalog values resolved).lookup k =
      if k ∈ values.map key then (catalog.idOf k).or (resolved.lookup k)
      else resolved.lookup k := by
  rw [selectIds, Catalog.lookup_foldl_fill, flatten_chunked]

/-- The catalog has the old rows and one for each item, and the ids of the items are resolved. -/
structure Resolves (catalog : Catalog key) (items : List ((_ : κ) × β))
    (r : Catalog key × Dict κ Nat × Nat) : Prop where
  grows : catalog.Grows r.1
  lookup : ∀ k, r.2.1.lookup k = if k ∈ items.map (·.1) then r.1.idOf k else none
  isSome : ∀ item ∈ items, (r.1.idOf item.1).isSome

theorem resolves_insert (catalog : Catalog key) {items : List ((_ : κ) × β)}
    {resolved : Dict κ Nat} {missing : List α} (created : Nat)
    (hresolved : ∀ k, resolved.lookup k = if k ∈ items.map (·.1) then catalog.idOf k else none)
    (hmissing : ∀ k, k ∈ missing.map key ↔ k ∈ items.map (·.1) ∧ k ∉ resolved) :
    Resolves catalog items (missing.foldl Catalog.insertIgnore catalog,
      selectIds (missing.foldl Catalog.insertIgnore catalog) missing resolved, created) := by
  have hgrows := Catalog.grows_foldl_insertIgnore catalog missing
  have hisSome : ∀ k ∈ items.map (·.1),
      ((missing.foldl Catalog.insertIgnore catalog).idOf k).isSome := by
    intro k hk
    by_cases hmem : k ∈ resolved
    · rw [← AList.lookup_isSome, hresolved, if_pos hk] at hmem
      obtain ⟨id, hid⟩ := Option.isSome_iff_exists.mp hmem
      exact Option.isSome_iff_exists.mpr ⟨id, hgrows.idOf hid⟩
    · obtain ⟨value, hvalue, rfl⟩ := mem_map.mp ((hmissing k).mpr ⟨hk, hmem⟩)
      exact Catalog.idOf_foldl_insertIgnore catalog hvalue
  refine ⟨hgrows, fun k => ?_, fun item hitem => hisSome _ (mem_map_of_mem hitem)⟩
  simp only [lookup_selectIds, hmissing, hresolved]
  by_cases hk : k ∈ items.map (·.1)
  · obtain ⟨id, hid⟩ := Option.isSome_iff_exists.mp (hisSome k hk)
    by_cases hmem : k ∈ resolved
    · -- the row was there before
      rw [← AList.lookup_isSome, hresolved, if_pos hk] at hmem
      obtain ⟨id, hid⟩ := Option.isSome_iff_exists.mp hmem
      simp [hk, hid, hgrows.idOf hid]
    · simp only [hk, hmem, not_false_eq_true, and_self, if_true, hid, Option.some_or]
  · simp [hk]

theorem resolveIds_resolves (catalog : Catalog key) (value : β → α)
    {items : List ((_ : κ) × β)} (hkeys : ∀ item ∈ items, key (value item.2) = item.1) :
    Resolves catalog items (resolveIds catalog value items) := by
  have hmap : ∀ {items : List ((_ : κ) × β)}, (∀ item ∈ items, key (value item.2) = item.1) →
      (items.map fun item => value item.2).map key = items.map (·.1) := by
    intro items hkeys
    rw [map_map]
    exact map_congr_left hkeys
  have hresolved : ∀ k, (selectIds catalog (items.map fun item => value item.2) ∅).lookup k =
      if k ∈ items.map (·.1) then catalog.idOf k else none := by
    intro k
    rw [lookup_selectIds, hmap hkeys]
    simp
  unfold resolveIds
  split
  next hitems =>
    rw [List.isEmpty_iff.mp hitems]
    exact ⟨.refl _, fun k => by simp, by simp⟩
  next =>
    simp only
    split
    next hmissing =>
      refine ⟨.refl _, hresolved, fun item hitem => ?_⟩
      simp only [List.isEmpty_iff, map_eq_nil_iff, filter_eq_nil_iff,
        decide_eq_true_eq, not_not] at hmissing
      have hmem := AList.lookup_isSome.mpr (hmissing item hitem)
      rwa [hresolved, if_pos (mem_map_of_mem hitem)] at hmem
    next =>
      rw [foldl_chunked (fun _ => rfl) (fun _ _ _ => foldl_append ..)]
      refine resolves_insert catalog _ hresolved fun k => ?_
      rw [hmap fun item hitem => hkeys item (mem_of_mem_filter hitem)]
      simp only [mem_map, mem_filter, decide_eq_true_eq]
      constructor
      · rintro ⟨item, ⟨hitem, hmem⟩, rfl⟩
        exact ⟨⟨item, hitem, rfl⟩, hmem⟩
      · rintro ⟨⟨item, hitem, rfl⟩, hmem⟩
        exact ⟨item, ⟨hitem, hmem⟩, rfl⟩

end Resolve

/-! ## §4 Writing the difference -/

section Diff

variable {β : Type} [LinearOrder β] {refers : β → Bool} {alertId : Nat}

theorem foldl_deleteMapped (junction : Finset (Nat × β)) (values : List β) :
    (chunked values).foldl (deleteMapped alertId) junction =
      deleteMapped alertId junction values := by
  refine foldl_chunked (fun s => ?_) (fun s first second => ?_) values junction
  · simp [deleteMapped]
  · ext row
    simp only [deleteMapped, Finset.mem_filter, mem_append]
    tauto

theorem foldl_insertMapped (junction : Finset (Nat × β)) (values : List β) :
    (chunked values).foldl (insertMapped refers alertId) junction =
      insertMapped refers alertId junction values := by
  refine foldl_chunked (fun s => ?_) (fun s first second => ?_) values junction
  · simp [insertMapped]
  · simp [insertMapped, Finset.union_assoc]

theorem mem_applyDiff {junction : Finset (Nat × β)} {desired : Finset β}
    (hrefers : ∀ b ∈ desired, refers b) (row : Nat × β) :
    row ∈ (applyDiff refers junction alertId desired (mapped junction alertId)).1 ↔
      if row.1 = alertId then row.2 ∈ desired else row ∈ junction := by
  obtain ⟨alert, b⟩ := row
  simp only [applyDiff, foldl_deleteMapped, foldl_insertMapped, insertMapped, deleteMapped,
    Finset.mem_union, Finset.mem_filter, Finset.mem_sort, Finset.mem_sdiff, mem_mapped,
    mem_toFinset, mem_map, mem_filter, Prod.mk.injEq]
  by_cases halert : alert = alertId
  · subst halert
    simp only [true_and, if_true, not_and, not_not]
    constructor
    · rintro (⟨hrow, hkept⟩ | ⟨_, ⟨⟨hdesired, -⟩, -⟩, rfl⟩)
      · exact hkept hrow
      · exact hdesired
    · intro hdesired
      by_cases hrow : (alert, b) ∈ junction
      · exact .inl ⟨hrow, fun _ => hdesired⟩
      · exact .inr ⟨b, ⟨⟨hdesired, hrow⟩, hrefers b hdesired⟩, rfl⟩
  · simp [halert, Ne.symm halert]

theorem applyDiff_self (junction : Finset (Nat × β)) (desired : Finset β) :
    applyDiff refers junction alertId desired desired = (junction, 0, 0) := by
  simp [applyDiff, chunked, slices]

end Diff

/-! ## §5 Detection points -/

section Detections

variable {rt : IndexRuntime} {alertId : Nat}

theorem lookup_deleteDetections (alertId : Nat) (table : Dict (Nat × String) DetectionRow)
    (hashes : List String) (k : Nat × String) :
    (deleteDetections alertId table hashes).lookup k =
      if k.1 = alertId ∧ k.2 ∈ hashes then none else table.lookup k := by
  induction hashes generalizing table with
  | nil => simp [deleteDetections]
  | cons hash hashes ih =>
    rw [deleteDetections, foldl_cons]
    refine (ih (table.erase (alertId, hash))).trans ?_
    by_cases hk : k = (alertId, hash)
    · subst hk
      simp
    · rw [AList.lookup_erase_ne hk]
      have hne : ¬ (k.1 = alertId ∧ k.2 = hash) := fun h => hk (Prod.ext h.1 h.2)
      simp only [mem_cons, and_or_left, hne, false_or]

theorem lookup_upsertDetections_of_ne (table : Dict (Nat × String) DetectionRow)
    {entries : List ((_ : String) × DetectionPoint)} {k : Nat × String}
    (hk : ∀ entry ∈ entries, k ≠ (alertId, entry.1)) :
    (upsertDetections rt alertId table entries).lookup k = table.lookup k := by
  induction entries generalizing table with
  | nil => rfl
  | cons entry entries ih =>
    rw [upsertDetections, foldl_cons]
    refine (ih _ fun entry' hentry' => hk entry' (.tail _ hentry')).trans ?_
    exact AList.lookup_insert_ne (hk entry (.head _))

theorem lookup_upsertDetections_of_mem (table : Dict (Nat × String) DetectionRow)
    {entries : List ((_ : String) × DetectionPoint)}
    (hunique : ∀ entry ∈ entries, ∀ entry' ∈ entries, entry.1 = entry'.1 → entry = entry')
    {hash : String} {dp : DetectionPoint} (hmem : ⟨hash, dp⟩ ∈ entries) :
    (upsertDetections rt alertId table entries).lookup (alertId, hash) =
      some (DetectionRow.ofPoint rt dp) := by
  induction entries generalizing table with
  | nil => simp at hmem
  | cons entry entries ih =>
    have hrest : ∀ entry ∈ entries, ∀ entry' ∈ entries, entry.1 = entry'.1 → entry = entry' :=
      fun e he e' he' => hunique e (.tail _ he) e' (.tail _ he')
    rw [upsertDetections, foldl_cons]
    by_cases hmem' : (⟨hash, dp⟩ : (_ : String) × DetectionPoint) ∈ entries
    · exact ih _ hrest hmem'
    · obtain rfl : ⟨hash, dp⟩ = entry := (mem_cons.mp hmem).resolve_right hmem'
      refine (lookup_upsertDetections_of_ne _ fun entry' hentry' hk => hmem' ?_).trans
        (AList.lookup_insert _)
      have hsame := hunique _ (.head _) entry' (.tail _ hentry') (congrArg Prod.snd hk)
      exact hsame ▸ hentry'

variable {table : Dict (Nat × String) DetectionRow} {desired : Dict String DetectionPoint}

/-- If the rows that are not desired are deleted, and the desired points are written whose queue
or version is not there, then the alert has the queues and versions of the desired points. -/
theorem currentDetection_write {removed : List String}
    {toWrite : List ((_ : String) × DetectionPoint)}
    (hremoved : ∀ hash, hash ∈ removed ↔ (alertId, hash) ∈ table ∧ hash ∉ desired)
    (htoWrite : ∀ entry, entry ∈ toWrite ↔ desired.lookup entry.1 = some entry.2 ∧
      currentDetection table alertId entry.1 ≠ some (entry.2.queue, entry.2.signatureVersion))
    (hash : String) :
    currentDetection
        (upsertDetections rt alertId (deleteDetections alertId table removed) toWrite) alertId hash =
      (desired.lookup hash).map fun dp => (dp.queue, dp.signatureVersion) := by
  have hdeleted := lookup_deleteDetections alertId table removed (alertId, hash)
  simp only [hremoved, true_and] at hdeleted
  have hkept : (∀ entry ∈ toWrite, hash ≠ entry.1) →
      (upsertDetections rt alertId (deleteDetections alertId table removed) toWrite).lookup
          (alertId, hash) =
        if (alertId, hash) ∈ table ∧ hash ∉ desired then none
        else table.lookup (alertId, hash) := fun hne =>
    (lookup_upsertDetections_of_ne _ fun entry hentry hk =>
      hne entry hentry (congrArg Prod.snd hk)).trans hdeleted
  cases hdesired : desired.lookup hash with
  | none =>
    have hnot := AList.lookup_eq_none.mp hdesired
    rw [currentDetection, hkept]
    · by_cases htable : (alertId, hash) ∈ table
      · simp [htable, hnot]
      · simp [htable, AList.lookup_eq_none.mpr htable]
    · rintro entry hentry rfl
      exact absurd ((htoWrite entry).mp hentry).1 (by simp [hdesired])
  | some dp =>
    have hmem : hash ∈ desired := AList.lookup_isSome.mp (by simp [hdesired])
    by_cases hdrift : currentDetection table alertId hash = some (dp.queue, dp.signatureVersion)
    · rw [currentDetection, hkept]
      · rw [if_neg fun h => h.2 hmem]
        exact hdrift
      · rintro entry hentry rfl
        obtain ⟨hlookup, hne⟩ := (htoWrite entry).mp hentry
        obtain rfl : dp = entry.2 := Option.some.inj (hdesired.symm.trans hlookup)
        exact hne hdrift
    · have hunique : ∀ entry ∈ toWrite, ∀ entry' ∈ toWrite, entry.1 = entry'.1 →
          entry = entry' := by
        rintro ⟨hash, dp⟩ hentry ⟨hash', dp'⟩ hentry' rfl
        have hsame := ((htoWrite _).mp hentry).1.symm.trans ((htoWrite _).mp hentry').1
        simpa using hsame
      rw [currentDetection, lookup_upsertDetections_of_mem _ hunique
        ((htoWrite ⟨hash, dp⟩).mpr ⟨hdesired, hdrift⟩)]
      rfl

theorem mem_removed (hash : String) :
    hash ∈ (((table.keys.filter (·.1 = alertId)).map (·.2)).filter (· ∉ desired)).insertionSort
        (· ≤ ·) ↔ (alertId, hash) ∈ table ∧ hash ∉ desired := by
  simp only [mem_insertionSort, mem_filter, mem_map, decide_eq_true_eq]
  constructor
  · rintro ⟨⟨⟨_, _⟩, ⟨hk, rfl⟩, rfl⟩, hnot⟩
    exact ⟨AList.mem_keys.mpr hk, hnot⟩
  · rintro ⟨hk, hnot⟩
    exact ⟨⟨(alertId, hash), ⟨AList.mem_keys.mp hk, rfl⟩, rfl⟩, hnot⟩

theorem mem_toWrite (entry : (_ : String) × DetectionPoint) :
    entry ∈ (desired.entries.filter fun entry => currentDetection table alertId entry.1 ≠
          some (entry.2.queue, entry.2.signatureVersion)).insertionSort (·.1 ≤ ·.1) ↔
      desired.lookup entry.1 = some entry.2 ∧
        currentDetection table alertId entry.1 ≠
          some (entry.2.queue, entry.2.signatureVersion) := by
  rw [mem_insertionSort, mem_filter, decide_eq_true_eq]
  exact and_congr_left fun _ => AList.mem_lookup_iff.symm

theorem foldl_deleteDetections (hashes : List String) :
    (chunked hashes).foldl (deleteDetections alertId) table =
      deleteDetections alertId table hashes :=
  foldl_chunked (fun _ => rfl) (fun _ _ _ => foldl_append ..) hashes table

theorem foldl_upsertDetections (entries : List ((_ : String) × DetectionPoint)) :
    (chunked entries).foldl (upsertDetections rt alertId) table =
      upsertDetections rt alertId table entries :=
  foldl_chunked (fun _ => rfl) (fun _ _ _ => foldl_append ..) entries table

theorem currentDetection_syncDetectionPoints (hash : String) :
    currentDetection (syncDetectionPoints rt table alertId desired).1 alertId hash =
      (desired.lookup hash).map fun dp => (dp.queue, dp.signatureVersion) := by
  simp only [syncDetectionPoints, foldl_deleteDetections, foldl_upsertDetections]
  exact currentDetection_write mem_removed mem_toWrite hash

theorem lookup_syncDetectionPoints_of_ne {k : Nat × String} (hk : k.1 ≠ alertId) :
    (syncDetectionPoints rt table alertId desired).1.lookup k = table.lookup k := by
  simp only [syncDetectionPoints, foldl_deleteDetections, foldl_upsertDetections]
  rw [lookup_upsertDetections_of_ne _ fun entry _ h => hk (congrArg Prod.fst h),
    lookup_deleteDetections, if_neg fun h => hk h.1]

theorem syncDetectionPoints_self
    (h : ∀ hash, currentDetection table alertId hash =
      (desired.lookup hash).map fun dp => (dp.queue, dp.signatureVersion)) :
    syncDetectionPoints rt table alertId desired = (table, 0, 0) := by
  have hremoved : (((table.keys.filter (·.1 = alertId)).map (·.2)).filter
      (· ∉ desired)).insertionSort (· ≤ ·) = [] := by
    refine eq_nil_iff_forall_not_mem.mpr fun hash hmem => ?_
    obtain ⟨htable, hnot⟩ := mem_removed hash |>.mp hmem
    obtain ⟨row, hrow⟩ := Option.isSome_iff_exists.mp (AList.lookup_isSome.mpr htable)
    have hhash := h hash
    simp [currentDetection, hrow, AList.lookup_eq_none.mpr hnot] at hhash
  have htoWrite : (desired.entries.filter fun entry => currentDetection table alertId entry.1 ≠
      some (entry.2.queue, entry.2.signatureVersion)).insertionSort (·.1 ≤ ·.1) = [] := by
    refine eq_nil_iff_forall_not_mem.mpr fun entry hmem => ?_
    obtain ⟨hlookup, hne⟩ := mem_toWrite entry |>.mp hmem
    exact hne (by rw [h, hlookup]; rfl)
  simp only [syncDetectionPoints, hremoved, htoWrite, foldl_deleteDetections,
    foldl_upsertDetections]
  rfl

end Detections

/-! ## §6 The synchronization -/

section Half

variable {α β κ : Type} [DecidableEq κ] {key : α → κ} {catalog : Catalog key}
  {junction : Finset (Nat × Nat)} {alertId : Nat} {current : Dict κ Nat} {desired : Dict κ β}
  {value : β → α}

theorem grows_resolveIds (hvalue : ∀ k b, desired.lookup k = some b → key (value b) = k) :
    catalog.Grows (resolveIds catalog value (desired.entries.filter (·.1 ∉ current))).1 :=
  (resolveIds_resolves catalog value fun item hitem => hvalue item.1 item.2
    (AList.mem_lookup_iff.mpr (mem_of_mem_filter hitem))).grows

theorem lookup_resolved (hcurrent : HoldsMapped catalog junction alertId current)
    (hvalue : ∀ k b, desired.lookup k = some b → key (value b) = k) {k : κ} (hk : k ∈ desired) :
    ∃ id, (resolveIds catalog value (desired.entries.filter (·.1 ∉ current))).1.idOf k = some id ∧
      ((resolveIds catalog value (desired.entries.filter (·.1 ∉ current))).2.1 ∪ current).lookup k =
        some id := by
  have hkeys : ∀ item ∈ desired.entries.filter (·.1 ∉ current), key (value item.2) = item.1 :=
    fun item hitem => hvalue _ _ (AList.mem_lookup_iff.mpr (mem_of_mem_filter hitem))
  have hresolves := resolveIds_resolves catalog value hkeys
  obtain ⟨b, hb⟩ := Option.isSome_iff_exists.mp (AList.lookup_isSome.mpr hk)
  by_cases hmem : k ∈ current
  · -- the key is mapped already
    obtain ⟨id, hid⟩ := Option.isSome_iff_exists.mp (AList.lookup_isSome.mpr hmem)
    refine ⟨id, hresolves.grows.idOf ((hcurrent k id).mp hid).1, ?_⟩
    rw [AList.lookup_union_right, hid]
    rw [← AList.lookup_eq_none, hresolves.lookup, if_neg]
    rintro hk'
    obtain ⟨item, hitem, rfl⟩ := mem_map.mp hk'
    simp only [mem_filter, decide_eq_true_eq] at hitem
    exact hitem.2 hmem
  · have hitem : (⟨k, b⟩ : (_ : κ) × β) ∈ desired.entries.filter (·.1 ∉ current) := by
      simpa [hmem] using AList.mem_lookup_iff.mp hb
    obtain ⟨id, hid⟩ := Option.isSome_iff_exists.mp (hresolves.isSome _ hitem)
    have hlookup : (resolveIds catalog value
        (desired.entries.filter (·.1 ∉ current))).2.1.lookup k = some id := by
      rw [hresolves.lookup, if_pos (mem_map_of_mem hitem)]
      exact hid
    refine ⟨id, hid, ?_⟩
    rw [AList.lookup_union_left
      (AList.lookup_isSome.mp (Option.isSome_iff_exists.mpr ⟨id, hlookup⟩)), hlookup]

theorem mem_desiredIds (hcurrent : HoldsMapped catalog junction alertId current)
    (hvalue : ∀ k b, desired.lookup k = some b → key (value b) = k) {id : Nat} :
    id ∈ (desired.keys.filterMap ((resolveIds catalog value
        (desired.entries.filter (·.1 ∉ current))).2.1 ∪ current).lookup).toFinset ↔
      ∃ k ∈ desired, (resolveIds catalog value
        (desired.entries.filter (·.1 ∉ current))).1.idOf k = some id := by
  simp only [mem_toFinset, mem_filterMap, ← AList.mem_keys]
  refine exists_congr fun k => and_congr_right fun hk => ?_
  obtain ⟨id', hid, hlookup⟩ := lookup_resolved hcurrent hvalue hk
  rw [hid, hlookup]

theorem mem_junction (hcurrent : HoldsMapped catalog junction alertId current)
    (hvalue : ∀ k b, desired.lookup k = some b → key (value b) = k)
    (hrefers : ∀ row ∈ junction, catalog.toTable.hasId row.2) (row : Nat × Nat) :
    row ∈ (applyIdDiff
        (resolveIds catalog value (desired.entries.filter (·.1 ∉ current))).1.toTable.hasId junction
        alertId
        (desired.keys.filterMap ((resolveIds catalog value
          (desired.entries.filter (·.1 ∉ current))).2.1 ∪ current).lookup).toFinset
        (current.entries.map (·.2)).toFinset).1 ↔
      if row.1 = alertId then
        ∃ k ∈ desired, (resolveIds catalog value
          (desired.entries.filter (·.1 ∉ current))).1.idOf k = some row.2
      else row ∈ junction := by
  rw [hcurrent.values hrefers, applyIdDiff, mem_applyDiff]
  · simp only [mem_desiredIds hcurrent hvalue]
  · intro id hid
    obtain ⟨k, -, hk⟩ := (mem_desiredIds hcurrent hvalue).mp hid
    exact Catalog.hasId_of_idOf hk

theorem resolveIds_self (hall : ∀ k ∈ desired, k ∈ current) :
    resolveIds catalog value (desired.entries.filter (·.1 ∉ current)) = (catalog, ∅, 0) := by
  have hnone : desired.entries.filter (·.1 ∉ current) = [] := by
    refine filter_eq_nil_iff.mpr fun entry hentry => ?_
    have hmem := hall entry.1 (AList.lookup_isSome.mp
      (Option.isSome_iff_exists.mpr ⟨_, AList.mem_lookup_iff.mpr hentry⟩))
    simpa using hmem
  rw [hnone]
  rfl

theorem mem_current (hcurrent : HoldsMapped catalog junction alertId current) {k : κ}
    (hisSome : (catalog.idOf k).isSome)
    (hmapped : ∀ id, catalog.idOf k = some id → (alertId, id) ∈ junction) : k ∈ current := by
  obtain ⟨id, hid⟩ := Option.isSome_iff_exists.mp hisSome
  exact AList.lookup_isSome.mp
    (Option.isSome_iff_exists.mpr ⟨id, (hcurrent k id).mpr ⟨hid, hmapped id hid⟩⟩)

theorem applyIdDiff_self {refers : Nat → Bool}
    (hcurrent : HoldsMapped catalog junction alertId current)
    (hrefers : ∀ row ∈ junction, catalog.toTable.hasId row.2)
    (hjunction : ∀ id, (alertId, id) ∈ junction ↔ ∃ k ∈ desired, catalog.idOf k = some id) :
    applyIdDiff refers junction alertId (desired.keys.filterMap current.lookup).toFinset
      (current.entries.map (·.2)).toFinset = (junction, 0, 0) := by
  have hsame : (desired.keys.filterMap current.lookup).toFinset =
      (current.entries.map (·.2)).toFinset := by
    rw [hcurrent.values hrefers]
    ext id
    simp only [mem_toFinset, mem_filterMap, ← AList.mem_keys, mem_mapped]
    constructor
    · rintro ⟨k, -, hk⟩
      exact ((hcurrent k id).mp hk).2
    · intro hmapped
      obtain ⟨k, hk, hid⟩ := (hjunction id).mp hmapped
      exact ⟨k, hk, (hcurrent k id).mpr ⟨hid, hmapped⟩⟩
  rw [hsame]
  exact applyDiff_self ..

end Half

variable {rt : IndexRuntime}

/-- The foreign keys of the mappings: what an alert is mapped to exists. -/
structure IndexDb.Referential (db : IndexDb rt) : Prop where
  observables : ∀ row ∈ db.observableMapping, db.observables.toTable.hasId row.2
  tags : ∀ row ∈ db.tagMapping, db.tags.toTable.hasId row.2

/-- The rows of the alert are those that its tree calls for. -/
structure IndexDb.Exact (db : IndexDb rt) (alertId : Nat) (tree : IndexedTree) : Prop where
  observables : ∀ o ∈ tree.indexedObservables, (db.observables.idOf (keyOf rt o)).isSome
  observableMapping : ∀ id, (alertId, id) ∈ db.observableMapping ↔
    ∃ o ∈ tree.indexedObservables, db.observables.idOf (keyOf rt o) = some id
  tags : ∀ tag ∈ tree.allTags, (db.tags.idOf (tagKey rt tag)).isSome
  tagMapping : ∀ id, (alertId, id) ∈ db.tagMapping ↔
    ∃ tag ∈ tree.allTags, db.tags.idOf (tagKey rt tag) = some id
  observableTagIndex : ∀ observableId tagId,
    (alertId, toLex (observableId, tagId)) ∈ db.observableTagIndex ↔
      ∃ o ∈ tree.indexedObservables, ∃ tag ∈ o.tags,
        db.observables.idOf (keyOf rt o) = some observableId ∧
          db.tags.idOf (tagKey rt tag) = some tagId
  detectionPoints : ∀ hash, currentDetection db.detectionPoints alertId hash =
    (tree.detectionOf rt hash).map fun dp => (dp.queue, dp.signatureVersion)

/-- The rows of other alerts and of the catalogs are still there, and there are no new rows of
other alerts. -/
structure IndexDb.Keeps (db db' : IndexDb rt) (alertId : Nat) : Prop where
  observables : db.observables.Grows db'.observables
  tags : db.tags.Grows db'.tags
  observableMapping : ∀ row, row.1 ≠ alertId →
    (row ∈ db'.observableMapping ↔ row ∈ db.observableMapping)
  tagMapping : ∀ row, row.1 ≠ alertId → (row ∈ db'.tagMapping ↔ row ∈ db.tagMapping)
  observableTagIndex : ∀ row, row.1 ≠ alertId →
    (row ∈ db'.observableTagIndex ↔ row ∈ db.observableTagIndex)
  detectionPoints : ∀ k : Nat × String, k.1 ≠ alertId →
    db'.detectionPoints.lookup k = db.detectionPoints.lookup k

section Sync

variable {db : IndexDb rt} {alertId : Nat} {tree : IndexedTree}

theorem observables_value (k : ObservableKey) (o : Observable)
    (h : (buildDesiredIndex rt tree).observables.lookup k = some o) :
    CatalogObservable.key rt ⟨o.type, o.value, rt.sha256 o.value⟩ = k :=
  keyOf_desired h

theorem grows_observables : db.observables.Grows (syncAlertIndex db alertId tree).1.observables :=
  grows_resolveIds observables_value

theorem grows_tags : db.tags.Grows (syncAlertIndex db alertId tree).1.tags :=
  grows_resolveIds fun _ _ => tagKey_desired

theorem mem_observableMapping (href : db.Referential) (row : Nat × Nat) :
    row ∈ (syncAlertIndex db alertId tree).1.observableMapping ↔
      if row.1 = alertId then
        ∃ k ∈ (buildDesiredIndex rt tree).observables,
          (syncAlertIndex db alertId tree).1.observables.idOf k = some row.2
      else row ∈ db.observableMapping :=
  mem_junction (readCurrentObservables_holdsMapped db alertId) observables_value href.observables
    row

theorem mem_tagMapping (href : db.Referential) (row : Nat × Nat) :
    row ∈ (syncAlertIndex db alertId tree).1.tagMapping ↔
      if row.1 = alertId then
        ∃ k ∈ (buildDesiredIndex rt tree).tags,
          (syncAlertIndex db alertId tree).1.tags.idOf k = some row.2
      else row ∈ db.tagMapping :=
  mem_junction (readCurrentTags_holdsMapped db alertId) (fun _ _ => tagKey_desired) href.tags row

theorem referential_syncAlertIndex (href : db.Referential) :
    (syncAlertIndex db alertId tree).1.Referential := by
  refine ⟨fun row hrow => ?_, fun row hrow => ?_⟩
  · rw [mem_observableMapping href] at hrow
    split at hrow
    · obtain ⟨k, -, hk⟩ := hrow
      exact Catalog.hasId_of_idOf hk
    · exact grows_observables.hasId (href.observables row hrow)
  · rw [mem_tagMapping href] at hrow
    split at hrow
    · obtain ⟨k, -, hk⟩ := hrow
      exact Catalog.hasId_of_idOf hk
    · exact grows_tags.hasId (href.tags row hrow)

theorem mem_desired_of_observableTags {k : ObservableKey} {tag : String}
    (h : (k, tag) ∈ (buildDesiredIndex rt tree).observableTags) :
    k ∈ (buildDesiredIndex rt tree).observables ∧ tag ∈ (buildDesiredIndex rt tree).tags := by
  obtain ⟨o, ho, name, hname, rfl, rfl⟩ := mem_desired_observableTags.mp h
  refine ⟨mem_desired_observables.mpr ⟨o, ho, rfl⟩, mem_desired_tags.mpr ⟨name, ?_, rfl⟩⟩
  simp only [IndexedTree.allTags, mem_dedup, mem_append, mem_flatMap]
  exact .inr ⟨o, mem_of_mem_filter ho, hname⟩

theorem mem_desiredPairs {desired : Finset (ObservableKey × String)}
    {observableIds : Dict ObservableKey Nat} {tagIds : Dict String Nat}
    {observableId tagId : Nat} :
    toLex (observableId, tagId) ∈ desiredPairs desired observableIds tagIds ↔
      ∃ pair ∈ desired, observableIds.lookup pair.1 = some observableId ∧
        tagIds.lookup pair.2 = some tagId := by
  simp only [desiredPairs, Finset.mem_biUnion]
  refine exists_congr fun pair => and_congr_right fun _ => ?_
  cases observableIds.lookup pair.1 <;> cases tagIds.lookup pair.2 <;> simp [eq_comm]

def observableIds (db : IndexDb rt) (alertId : Nat) (tree : IndexedTree) :
    Dict ObservableKey Nat :=
  (resolveObservableIds db.observables ((buildDesiredIndex rt tree).observables.entries.filter
    (·.1 ∉ readCurrentObservables db alertId))).2.1 ∪ readCurrentObservables db alertId

def tagIds (db : IndexDb rt) (alertId : Nat) (tree : IndexedTree) : Dict String Nat :=
  (resolveTagIds db.tags ((buildDesiredIndex rt tree).tags.entries.filter
    (·.1 ∉ readCurrentTags db alertId))).2.1 ∪ readCurrentTags db alertId

theorem lookup_observableIds (db : IndexDb rt) (alertId : Nat) {k : ObservableKey}
    (hk : k ∈ (buildDesiredIndex rt tree).observables) :
    ∃ id, (syncAlertIndex db alertId tree).1.observables.idOf k = some id ∧
      (observableIds db alertId tree).lookup k = some id :=
  lookup_resolved (readCurrentObservables_holdsMapped db alertId) observables_value hk

theorem lookup_tagIds (db : IndexDb rt) (alertId : Nat) {k : String}
    (hk : k ∈ (buildDesiredIndex rt tree).tags) :
    ∃ id, (syncAlertIndex db alertId tree).1.tags.idOf k = some id ∧
      (tagIds db alertId tree).lookup k = some id :=
  lookup_resolved (readCurrentTags_holdsMapped db alertId) (fun _ _ => tagKey_desired) hk

theorem mem_desiredPairs_sync {observableId tagId : Nat} :
    toLex (observableId, tagId) ∈ desiredPairs (buildDesiredIndex rt tree).observableTags
        (observableIds db alertId tree) (tagIds db alertId tree) ↔
      ∃ pair ∈ (buildDesiredIndex rt tree).observableTags,
        (syncAlertIndex db alertId tree).1.observables.idOf pair.1 = some observableId ∧
          (syncAlertIndex db alertId tree).1.tags.idOf pair.2 = some tagId := by
  rw [mem_desiredPairs]
  refine exists_congr fun pair => and_congr_right fun hpair => ?_
  obtain ⟨hobservable, htag⟩ := mem_desired_of_observableTags hpair
  obtain ⟨_, hobservable, hobservable'⟩ :=
    lookup_observableIds db alertId hobservable
  obtain ⟨_, htag, htag'⟩ := lookup_tagIds db alertId htag
  rw [hobservable, hobservable', htag, htag']

theorem mem_observableTagIndex (row : Nat × (Nat ×ₗ Nat)) :
    row ∈ (syncAlertIndex db alertId tree).1.observableTagIndex ↔
      if row.1 = alertId then
        row.2 ∈ desiredPairs (buildDesiredIndex rt tree).observableTags
          (observableIds db alertId tree) (tagIds db alertId tree)
      else row ∈ db.observableTagIndex := by
  refine mem_applyDiff (fun pair hpair => ?_) row
  obtain ⟨_, -, hobservable, htag⟩ := mem_desiredPairs_sync.mp hpair
  exact Bool.and_eq_true_iff.mpr
    ⟨Catalog.hasId_of_idOf hobservable, Catalog.hasId_of_idOf htag⟩

theorem exact_syncAlertIndex (href : db.Referential) :
    (syncAlertIndex db alertId tree).1.Exact alertId tree where
  observables o ho := by
    obtain ⟨id, hid, -⟩ := lookup_observableIds db alertId
      (mem_desired_observables.mpr ⟨o, ho, rfl⟩)
    exact Option.isSome_iff_exists.mpr ⟨id, hid⟩
  observableMapping id := by
    rw [mem_observableMapping href, if_pos rfl]
    simp only [mem_desired_observables, exists_exists_and_eq_and]
  tags tag htag := by
    obtain ⟨id, hid, -⟩ := lookup_tagIds db alertId
      (mem_desired_tags.mpr ⟨tag, htag, rfl⟩)
    exact Option.isSome_iff_exists.mpr ⟨id, hid⟩
  tagMapping id := by
    rw [mem_tagMapping href, if_pos rfl]
    simp only [mem_desired_tags, exists_exists_and_eq_and]
  observableTagIndex observableId tagId := by
    rw [mem_observableTagIndex, if_pos rfl, mem_desiredPairs_sync]
    constructor
    · rintro ⟨pair, hpair, hids⟩
      obtain ⟨o, ho, tag, htag, hkeys⟩ := mem_desired_observableTags.mp hpair
      exact ⟨o, ho, tag, htag, hkeys.1 ▸ hkeys.2 ▸ hids⟩
    · rintro ⟨o, ho, tag, htag, hids⟩
      exact ⟨_, mem_desired_observableTags.mpr ⟨o, ho, tag, htag, rfl, rfl⟩, hids⟩
  detectionPoints hash := by
    rw [← lookup_desired_detectionPoints]
    exact currentDetection_syncDetectionPoints hash

theorem keeps_syncAlertIndex (href : db.Referential) :
    db.Keeps (syncAlertIndex db alertId tree).1 alertId where
  observables := grows_observables
  tags := grows_tags
  observableMapping row hrow := by rw [mem_observableMapping href, if_neg hrow]
  tagMapping row hrow := by rw [mem_tagMapping href, if_neg hrow]
  observableTagIndex row hrow := by rw [mem_observableTagIndex, if_neg hrow]
  detectionPoints _ hk := lookup_syncDetectionPoints_of_ne hk

theorem IndexDb.Exact.syncAlertIndex_eq (href : db.Referential) (hexact : db.Exact alertId tree) :
    syncAlertIndex db alertId tree = (db, {}) := by
  have hcurrentObservables := readCurrentObservables_holdsMapped db alertId
  have hcurrentTags := readCurrentTags_holdsMapped db alertId
  have hobservables : ∀ k ∈ (buildDesiredIndex rt tree).observables,
      k ∈ readCurrentObservables db alertId := by
    intro k hk
    obtain ⟨o, ho, rfl⟩ := mem_desired_observables.mp hk
    exact mem_current hcurrentObservables (hexact.observables o ho) fun id hid =>
      (hexact.observableMapping id).mpr ⟨o, ho, hid⟩
  have htags : ∀ k ∈ (buildDesiredIndex rt tree).tags, k ∈ readCurrentTags db alertId := by
    intro k hk
    obtain ⟨tag, htag, rfl⟩ := mem_desired_tags.mp hk
    exact mem_current hcurrentTags (hexact.tags tag htag) fun id hid =>
      (hexact.tagMapping id).mpr ⟨tag, htag, hid⟩
  have hobservableMapping : ∀ id, (alertId, id) ∈ db.observableMapping ↔
      ∃ k ∈ (buildDesiredIndex rt tree).observables, db.observables.idOf k = some id := by
    intro id
    simp only [hexact.observableMapping, mem_desired_observables, exists_exists_and_eq_and]
  have htagMapping : ∀ id, (alertId, id) ∈ db.tagMapping ↔
      ∃ k ∈ (buildDesiredIndex rt tree).tags, db.tags.idOf k = some id := by
    intro id
    simp only [hexact.tagMapping, mem_desired_tags, exists_exists_and_eq_and]
  have hdetections : ∀ hash, currentDetection db.detectionPoints alertId hash =
      ((buildDesiredIndex rt tree).detectionPoints.lookup hash).map
        fun dp => (dp.queue, dp.signatureVersion) := by
    intro hash
    rw [hexact.detectionPoints, lookup_desired_detectionPoints]
  have hpairs : desiredPairs (buildDesiredIndex rt tree).observableTags
      (readCurrentObservables db alertId) (readCurrentTags db alertId) =
        readCurrentObservableTags db alertId := by
    ext pair
    obtain ⟨⟨observableId, tagId⟩, rfl⟩ := toLex.surjective pair
    rw [mem_desiredPairs, readCurrentObservableTags, mem_mapped, hexact.observableTagIndex]
    constructor
    · rintro ⟨pair, hpair, hobservable, htag⟩
      obtain ⟨o, ho, tag, hmem, hkeys⟩ := mem_desired_observableTags.mp hpair
      have hobservable := ((hcurrentObservables _ _).mp hobservable).1
      have htag := ((hcurrentTags _ _).mp htag).1
      exact ⟨o, ho, tag, hmem, hkeys.1 ▸ hobservable, hkeys.2 ▸ htag⟩
    · rintro ⟨o, ho, tag, hmem, hobservable, htag⟩
      have hpair : (keyOf rt o, tagKey rt tag) ∈ (buildDesiredIndex rt tree).observableTags :=
        mem_desired_observableTags.mpr ⟨o, ho, tag, hmem, rfl, rfl⟩
      obtain ⟨hdesired, hdesired'⟩ := mem_desired_of_observableTags hpair
      exact ⟨_, hpair,
        (hcurrentObservables _ _).mpr
          ⟨hobservable, (hobservableMapping _).mpr ⟨_, hdesired, hobservable⟩⟩,
        (hcurrentTags _ _).mpr ⟨htag, (htagMapping _).mpr ⟨_, hdesired', htag⟩⟩⟩
  have hunresolved : (buildDesiredIndex rt tree).observables.keys.countP
      (· ∉ readCurrentObservables db alertId) = 0 :=
    countP_eq_zero.mpr fun k hk => by simpa using hobservables k (AList.mem_keys.mpr hk)
  have hunresolved' : (buildDesiredIndex rt tree).tags.keys.countP
      (· ∉ readCurrentTags db alertId) = 0 :=
    countP_eq_zero.mpr fun k hk => by simpa using htags k (AList.mem_keys.mpr hk)
  unfold syncAlertIndex
  simp only [resolveObservableIds, resolveTagIds, resolveIds_self hobservables,
    resolveIds_self htags, AList.empty_union,
    applyIdDiff_self hcurrentObservables href.observables hobservableMapping,
    applyIdDiff_self hcurrentTags href.tags htagMapping, syncDetectionPoints_self hdetections]
  rw [hpairs, syncObservableTagIndex, readCurrentObservableTags, applyDiff_self, hunresolved,
    hunresolved']

end Sync

/-- Type names and tags that compare by their characters, and values that are their own hash. -/
def plainRuntime : IndexRuntime :=
  ⟨id, fun value => value.toUTF8.data.toList, id, fun _ => none⟩

/-- A database in which the first alert is mapped to a tag that its tree no longer has. -/
def staleDb : IndexDb plainRuntime where
  observables := ⟨.empty, nofun⟩
  tags := Catalog.insertIgnore ⟨.empty, nofun⟩ "old"
  observableMapping := ∅
  tagMapping := {(1, 1)}
  observableTagIndex := ∅
  detectionPoints := ∅

end Ace3.Database
