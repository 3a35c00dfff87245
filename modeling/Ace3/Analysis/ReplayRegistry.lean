import Ace3.Analysis.CacheReplay
import Mathlib.Data.List.Nodup

/-!
# The Observable Registry in a Replay

What the observable registry of a root does while the first half of a replay adds the new
observables of a delta.
-/

namespace Ace3.Analysis

open List

/-! ## §1 Lookups -/

namespace RootAnalysis

variable {root root' : RootAnalysis} {uuid uuid' : NodeUuid} {o : Observable}

/-- What the observables are recorded under, in order. -/
def identities (root : RootAnalysis) : List ObservableIdentity :=
  root.observables.map (·.toObservableIdentity)

/-- The observables of a root have distinct uuids, which were drawn for it, and no blank values. -/
structure Sound (root : RootAnalysis) : Prop where
  drawn : ∀ i ∈ root.identities, i.uuid.root = root.number ∧ i.uuid.draw < root.draws
  distinct : (root.identities.map (·.uuid)).Nodup
  notBlank : ∀ i ∈ root.identities, ¬ isBlank i.value

def Has (root : RootAnalysis) (uuid : NodeUuid) : Prop :=
  ∃ i ∈ root.identities, i.uuid = uuid

theorem identities_modify {f : Observable → Observable}
    (hf : ∀ o, (f o).toObservableIdentity = o.toObservableIdentity) :
    (root.modify uuid f).identities = root.identities := by
  simp only [identities, modify, map_map]
  apply map_congr_left
  intro o _
  simp only [Function.comp_apply]
  split
  · exact hf o
  · rfl

theorem find_identity (p : ObservableIdentity → Bool) :
    (root.observables.find? fun o => p o.toObservableIdentity).map (·.toObservableIdentity) =
      root.identities.find? p := by
  rw [identities, List.find?_map]
  rfl

theorem getObservable_identity :
    (root.getObservable uuid).map (·.toObservableIdentity) =
      root.identities.find? (·.uuid = uuid) :=
  find_identity (·.uuid = uuid)

theorem getObservable_uuid (h : root.getObservable uuid = some o) : o.uuid = uuid := by
  simpa using List.find?_some h

theorem getObservable_mem (h : root.getObservable uuid = some o) :
    o.toObservableIdentity ∈ root.identities :=
  mem_map_of_mem (List.mem_of_find?_eq_some h)

theorem has_of_getObservable (h : root.getObservable uuid = some o) : root.Has uuid :=
  ⟨o.toObservableIdentity, getObservable_mem h, getObservable_uuid h⟩

theorem getObservable_ne_none_iff : root.getObservable uuid ≠ none ↔ root.Has uuid := by
  simp only [getObservable, ne_eq, List.find?_eq_none, Has, identities, mem_map]
  simp

theorem Sound.getObservable (hroot : root.Sound) {i : ObservableIdentity}
    (hi : i ∈ root.identities) :
    ∃ o, root.getObservable i.uuid = some o ∧ o.toObservableIdentity = i := by
  obtain ⟨o, ho⟩ := Option.ne_none_iff_exists'.mp (getObservable_ne_none_iff.mpr ⟨i, hi, rfl⟩)
  refine ⟨o, ho, ?_⟩
  exact inj_on_of_nodup_map hroot.distinct (getObservable_mem ho) hi (getObservable_uuid ho)

theorem Sound.getObservable_foreign (hroot : root.Sound) (huuid : uuid.root ≠ root.number) :
    root.getObservable uuid = none := by
  by_contra h
  obtain ⟨i, hi, rfl⟩ := getObservable_ne_none_iff.mp h
  exact huuid (hroot.drawn i hi).1

theorem sameObservable_identity (rt : Runtime) :
    root.sameObservable rt uuid uuid' =
      (root.identities.find? (·.uuid = uuid)).any fun i =>
        (root.identities.find? (·.uuid = uuid')).any fun i' => i.eq rt i' := by
  rw [← getObservable_identity, ← getObservable_identity, Option.any_map]
  simp only [Option.any_map, sameObservable]

section Congruence

variable (h : root.identities = root'.identities)

include h

theorem getObservable_congr (uuid : NodeUuid) :
    (root.getObservable uuid).map (·.toObservableIdentity) =
      (root'.getObservable uuid).map (·.toObservableIdentity) := by
  rw [getObservable_identity, getObservable_identity, h]

theorem getObservable_uuid_congr :
    (root.getObservable uuid).map (·.uuid) = (root'.getObservable uuid).map (·.uuid) := by
  have hmap := congrArg (Option.map ObservableIdentity.uuid) (getObservable_congr h uuid)
  rw [Option.map_map, Option.map_map] at hmap
  exact hmap

theorem sameObservable_congr (rt : Runtime) :
    root.sameObservable rt uuid uuid' = root'.sameObservable rt uuid uuid' := by
  simp only [sameObservable_identity, h]

theorem getObservableBySpec_congr (rt : Runtime) (type : ObservableType) (value : Option String)
    (time : Option ObservableTime) :
    (root.getObservableBySpec rt type value time).map (·.uuid) =
      (root'.getObservableBySpec rt type value time).map (·.uuid) := by
  cases value with
  | none => rfl
  | some value =>
    have hfind (root : RootAnalysis) :
        (root.getObservableBySpec rt type (some value) time).map (·.uuid) =
          (root.identities.find? fun i => i.type ≠ fFile ∧ i.matchesSpec rt type value time).map
            (·.uuid) := by
      rw [← find_identity, Option.map_map]
      rfl
    rw [hfind, hfind, h]

theorem resolveTarget_congr (rt : Runtime) (uuidMap : UuidMap) (rel : RelationshipDict) :
    root.resolveTarget rt uuidMap rel uuid = root'.resolveTarget rt uuidMap rel uuid := by
  simp only [resolveTarget, resolveBySpec, getObservable_uuid_congr h, getObservableBySpec_congr h]

end Congruence

end RootAnalysis

/-! ## §2 Keys -/

/-- What two observables of a registry differ in: content and path of a file, type, time and
comparison value of anything else. -/
structure RecordKey where
  type : ObservableType
  time : Option ObservableTime
  value : String
  path : Option String
  deriving DecidableEq

def ObservableIdentity.key (rt : Runtime) (i : ObservableIdentity) : RecordKey :=
  if i.type = fFile then ⟨i.type, none, i.value, i.filePath⟩
  else ⟨i.type, i.time, rt.compareKey i.type i.value, none⟩

/-- What a new observable is recorded under, unless its class refuses its value. -/
def ObservableSpec.key (rt : Runtime) (spec : ObservableSpec) : Option RecordKey :=
  if spec.type = fFile then
    (rt.storeFile spec.value spec.filePath).bind fun (sha256, path) =>
      if isBlank sha256 then none else some ⟨fFile, none, sha256, some path⟩
  else
    (rt.construct spec.type spec.value).bind fun value =>
      if isBlank value then none
      else some ⟨spec.type, parseTime rt spec.time, rt.compareKey spec.type value, none⟩

def RootAnalysis.keys (rt : Runtime) (root : RootAnalysis) : List RecordKey :=
  root.identities.map (·.key rt)

def enroll (rt : Runtime) (keys : List RecordKey) (key : RecordKey) : Option (List RecordKey) :=
  if key ∈ keys then some keys
  else if (rt.observableLimits key.type).any (· ≤ (keys.filter (·.type = key.type)).length) then
    none
  else some (keys ++ [key])

/-- The uuids of the new observables that a registry with these keys admits, one after the
other. -/
def admitted (rt : Runtime) (keys : List RecordKey) : List ObservableSpec → List NodeUuid
  | [] => []
  | spec :: specs =>
    match (spec.key rt).bind (enroll rt keys) with
    | none => admitted rt keys specs
    | some keys => spec.uuid :: admitted rt keys specs

@[simp]
theorem key_type (rt : Runtime) (i : ObservableIdentity) : (i.key rt).type = i.type := by
  unfold ObservableIdentity.key
  split <;> rfl

theorem enroll_of_mem {rt : Runtime} {keys : List RecordKey} {key : RecordKey} (h : key ∈ keys) :
    enroll rt keys key = some keys := if_pos h

theorem eq_iff (rt : Runtime) (i j : ObservableIdentity) :
    i.eq rt j ↔ i.key rt = j.key rt ∨ i.type ≠ fFile ∧ j.uuid = i.uuid := by
  unfold ObservableIdentity.eq ObservableIdentity.key ObservableIdentity.matchesSpec
  by_cases hi : i.type = fFile
  · by_cases hj : j.type = fFile
    · simp [hi, hj]
    · simp [hi, hj, Ne.symm hj]
  · by_cases hj : j.type = fFile
    · simp [hi, hj, Ne.symm hi]
    · simp only [hi, hj, if_false, RecordKey.mk.injEq, and_true, decide_eq_true_eq, ne_eq,
        not_false_eq_true, true_and]
      constructor
      · rintro (huuid | ⟨htype, htime, hvalue⟩)
        · exact .inr huuid
        · exact .inl ⟨htype.symm, htime, htype ▸ hvalue⟩
      · rintro (⟨htype, htime, hvalue⟩ | huuid)
        · exact .inr ⟨htype.symm, htime, htype ▸ hvalue⟩
        · exact .inl huuid

namespace RootAnalysis

variable {root root' : RootAnalysis} {uuid uuid' : NodeUuid} {o : Observable}

theorem mem_keys (rt : Runtime) {i : ObservableIdentity} (hi : i ∈ root.identities) :
    i.key rt ∈ root.keys rt := mem_map_of_mem hi

theorem getByType_length (rt : Runtime) (type : ObservableType) :
    (root.getByType type).length = ((root.keys rt).filter (·.type = type)).length := by
  simp [getByType, keys, identities, filter_map, Function.comp_def]

theorem Sound.eq_iff_key (hroot : root.Sound) (rt : Runtime) {i j : ObservableIdentity}
    (hi : i ∈ root.identities) (hj : j ∈ root.identities) : i.eq rt j ↔ i.key rt = j.key rt := by
  rw [eq_iff]
  refine ⟨?_, .inl⟩
  rintro (hkey | ⟨-, huuid⟩)
  · exact hkey
  · exact congrArg _ (inj_on_of_nodup_map hroot.distinct hi hj huuid.symm)

theorem eq_iff_key_of_not_has (rt : Runtime) {i j : ObservableIdentity}
    (hi : i ∈ root.identities) (hj : ¬ root.Has j.uuid) : i.eq rt j ↔ i.key rt = j.key rt := by
  rw [eq_iff]
  refine ⟨?_, .inl⟩
  rintro (hkey | ⟨-, huuid⟩)
  · exact hkey
  · exact absurd ⟨i, hi, huuid.symm⟩ hj

end RootAnalysis

/-! ## §3 New observables -/

namespace RootAnalysis

variable {root root' : RootAnalysis} {uuid uuid' : NodeUuid} {o : Observable}

/-- A later state of a root: observables were added at the end, and none was lost. -/
structure Grows (root root' : RootAnalysis) : Prop where
  number : root'.number = root.number
  kept : root.identities <+: root'.identities
  sound : root'.Sound

theorem Grows.trans {root'' : RootAnalysis} (h : Grows root root') (h' : Grows root' root'') :
    Grows root root'' :=
  ⟨h'.number.trans h.number, h.kept.trans h'.kept, h'.sound⟩

theorem Grows.has (h : Grows root root') (huuid : root.Has uuid) : root'.Has uuid := by
  obtain ⟨i, hi, rfl⟩ := huuid
  exact ⟨i, h.kept.subset hi, rfl⟩

/-- What adding an observable with this key does: the root grows, an observable that is returned
is one of it and has the key, and the keys change as they say. -/
structure Records (rt : Runtime) (root : RootAnalysis) (key : Option RecordKey)
    (result : RootAnalysis × Option Observable) : Prop where
  grows : Grows root result.1
  added : ∀ o, result.2 = some o →
    o.toObservableIdentity ∈ result.1.identities ∧ some (o.key rt) = key
  admits : (result.2.map fun _ => result.1.keys rt) = key.bind (enroll rt (root.keys rt))
  refuses : result.2 = none → result.1.keys rt = root.keys rt

section Steps

variable (hroot : root.Sound)

include hroot

theorem Sound.grows (hnumber : root'.number = root.number) (hdraws : root.draws ≤ root'.draws)
    (h : root'.identities = root.identities) : Grows root root' := by
  refine ⟨hnumber, h ▸ prefix_rfl, ⟨?_, h ▸ hroot.distinct, h ▸ hroot.notBlank⟩⟩
  intro i hi
  obtain ⟨hdrawn, hdraw⟩ := hroot.drawn i (h ▸ hi)
  exact ⟨hnumber ▸ hdrawn, Nat.lt_of_lt_of_le hdraw hdraws⟩

theorem Sound.grows_refl : Grows root root := hroot.grows rfl (Nat.le_refl _) rfl

theorem Sound.grows_modify (uuid : NodeUuid) {f : Observable → Observable}
    (hf : ∀ o, (f o).toObservableIdentity = o.toObservableIdentity) :
    Grows root (root.modify uuid f) :=
  hroot.grows rfl (Nat.le_refl _) (identities_modify hf)

theorem Sound.grows_draw : Grows root { root with draws := root.draws + 1 } :=
  hroot.grows rfl (Nat.le_succ _) rfl

theorem Sound.grows_addChild (parent : Parent) (child : NodeUuid) :
    Grows root (root.addChild parent child) := by
  cases parent with
  | root => exact hroot.grows rfl (Nat.le_refl _) rfl
  | analysis uuid analysisPath => exact hroot.grows_modify uuid fun _ => rfl

theorem Sound.not_has_nextUuid : ¬ root.Has root.nextUuid := by
  rintro ⟨i, hi, huuid⟩
  have hdraw := (hroot.drawn i hi).2
  rw [huuid] at hdraw
  exact Nat.lt_irrefl _ hdraw

end Steps

/-- An observable is recorded under a uuid that was drawn for it, or it is there already. -/
def Recordable (root : RootAnalysis) (i : ObservableIdentity) : Prop :=
  i ∈ root.identities ∨
    i.uuid.root = root.number ∧ i.uuid.draw < root.draws ∧ ¬ root.Has i.uuid

theorem Sound.grows_append (hroot : root.Sound) (hnumber : o.uuid.root = root.number)
    (hdraw : o.uuid.draw < root.draws) (hhas : ¬ root.Has o.uuid) (hblank : ¬ isBlank o.value) :
    Grows root { root with observables := root.observables ++ [o] } := by
  have hidentities : ({ root with observables := root.observables ++ [o] } :
      RootAnalysis).identities = root.identities ++ [o.toObservableIdentity] := by
    simp [identities]
  refine ⟨rfl, hidentities ▸ prefix_append _ _, ⟨?_, ?_, ?_⟩⟩
  · intro i hi
    rw [hidentities] at hi
    rcases mem_append.mp hi with hi | hi
    · exact hroot.drawn i hi
    · exact mem_singleton.mp hi ▸ ⟨hnumber, hdraw⟩
  · rw [hidentities, map_append, nodup_append]
    refine ⟨hroot.distinct, nodup_singleton _, ?_⟩
    rintro uuid huuid _ hlast rfl
    obtain ⟨i, hi, rfl⟩ := mem_map.mp huuid
    exact hhas ⟨i, hi, mem_singleton.mp hlast⟩
  · intro i hi
    rw [hidentities] at hi
    rcases mem_append.mp hi with hi | hi
    · exact hroot.notBlank i hi
    · exact mem_singleton.mp hi ▸ hblank

theorem eq_refl (rt : Runtime) (i : ObservableIdentity) : i.eq rt i := by
  unfold ObservableIdentity.eq
  split <;> simp [*]

/-- The key that `record` looks at, unless the value is blank. -/
def recordKey (rt : Runtime) (i : ObservableIdentity) : Option RecordKey :=
  if isBlank i.value then none else some (i.key rt)

theorem Sound.eq_iff_key_of_recordable (hroot : root.Sound) (rt : Runtime)
    {i j : ObservableIdentity} (hi : i ∈ root.identities) (hj : Recordable root j) :
    i.eq rt j ↔ i.key rt = j.key rt := by
  rcases hj with hj | ⟨-, -, hj⟩
  · exact hroot.eq_iff_key rt hi hj
  · exact eq_iff_key_of_not_has rt hi hj

theorem Sound.record (hroot : root.Sound) (rt : Runtime)
    (hrecordable : Recordable root o.toObservableIdentity) :
    Records rt root (recordKey rt o.toObservableIdentity) (root.record rt o) := by
  unfold RootAnalysis.record recordKey
  split
  · exact ⟨hroot.grows_refl, nofun, rfl, fun _ => rfl⟩
  next hblank =>
    have heq {existing : Observable} (hexisting : existing ∈ root.observables) :
        existing.eq rt o.toObservableIdentity ↔ existing.key rt = o.key rt :=
      hroot.eq_iff_key_of_recordable rt (mem_map_of_mem hexisting) hrecordable
    split
    next existing hfind =>
      have hmem := List.mem_of_find?_eq_some hfind
      have hkey := (heq hmem).mp
        (List.find?_some (p := fun e : Observable => e.eq rt o.toObservableIdentity) hfind)
      have hadmit : enroll rt (root.keys rt) (o.key rt) = some (root.keys rt) :=
        enroll_of_mem (hkey ▸ mem_keys rt (mem_map_of_mem hmem))
      refine ⟨hroot.grows_refl, ?_, hadmit.symm, nofun⟩
      rintro o' ⟨⟩
      exact ⟨mem_map_of_mem hmem, congrArg some hkey⟩
    next hfind =>
      have hkey : o.key rt ∉ root.keys rt := by
        intro hmem
        obtain ⟨i, hi, hkey⟩ := mem_map.mp hmem
        obtain ⟨existing, hexisting, rfl⟩ := mem_map.mp hi
        exact List.find?_eq_none.mp hfind existing hexisting ((heq hexisting).mpr hkey)
      split
      next hlimit =>
        refine ⟨hroot.grows_refl, nofun, ?_, fun _ => rfl⟩
        simp only [getByType_length rt] at hlimit
        simp [enroll, hkey, hlimit]
      next hlimit =>
        obtain hmem | ⟨hnumber, hdraw, hhas⟩ := hrecordable
        · exact absurd (mem_keys rt hmem) hkey
        · refine ⟨hroot.grows_append hnumber hdraw hhas hblank, ?_, ?_, nofun⟩
          · rintro o' ⟨⟩
            exact ⟨by simp [identities], rfl⟩
          · have hkeys : ({ root with observables := root.observables ++ [o] } :
                RootAnalysis).keys rt = root.keys rt ++ [o.key rt] := by
              simp [keys, identities]
            simp only [getByType_length rt] at hlimit
            simp [enroll, hkey, hlimit, hkeys]

variable {rt : Runtime}

theorem getExistingObservable_spec {parent : Parent} {i : ObservableIdentity}
    (h : root.getExistingObservable rt parent i = some o) :
    o.toObservableIdentity ∈ root.identities ∧ o.eq rt i := by
  obtain ⟨uuid, -, hfilter⟩ := List.exists_of_findSome?_eq_some h
  obtain ⟨hget, heq⟩ := Option.filter_eq_some_iff.mp hfilter
  exact ⟨getObservable_mem hget, heq⟩

/-- A blank value is refused also where the analysis is asked first: no observable of the root
with this key has one. -/
theorem Sound.addObservable (hroot : root.Sound) (rt : Runtime) (parent : Parent)
    (hrecordable : Recordable root o.toObservableIdentity)
    (hblank : isBlank o.value → o.type = fFile) :
    Records rt root (recordKey rt o.toObservableIdentity) (root.addObservable rt parent o) := by
  have hrecord := hroot.record rt hrecordable
  unfold RootAnalysis.addObservable
  split
  next existing hexisting =>
    obtain ⟨hmem, heq⟩ := getExistingObservable_spec hexisting
    have hkey := (hroot.eq_iff_key_of_recordable rt hmem hrecordable).mp heq
    have hvalue : ¬ isBlank o.value := by
      intro hblanks
      have htype : existing.type = fFile := by
        rw [← key_type rt existing.toObservableIdentity, hkey, key_type, hblank hblanks]
      have hvalue : existing.value = o.value := by
        simpa [ObservableIdentity.key, htype, hblank hblanks] using congrArg RecordKey.value hkey
      exact hroot.notBlank _ hmem (hvalue ▸ hblanks)
    have hadmit : enroll rt (root.keys rt) (o.key rt) = some (root.keys rt) :=
      enroll_of_mem (hkey ▸ mem_keys rt hmem)
    refine ⟨hroot.grows_refl, ?_, by simp [recordKey, hvalue, hadmit], nofun⟩
    rintro o' ⟨⟩
    exact ⟨hmem, by simp [recordKey, hvalue, hkey]⟩
  next =>
    split
    next root' heq =>
      rw [heq] at hrecord
      exact hrecord
    next root' o' heq =>
      rw [heq] at hrecord
      have hchild := hrecord.grows.sound.grows_addChild parent o'.uuid
      have hidentities : (root'.addChild parent o'.uuid).identities = root'.identities := by
        cases parent with
        | root => rfl
        | analysis uuid analysisPath => exact identities_modify fun _ => rfl
      refine ⟨hrecord.grows.trans hchild, ?_, ?_, nofun⟩
      · rintro _ ⟨⟩
        exact hidentities ▸ hrecord.added o' rfl
      · rw [← hrecord.admits]
        simp only [Option.map_some, keys, hidentities]

theorem Sound.recordable_next (hroot : root.Sound) {i : ObservableIdentity}
    (hi : i.uuid = root.nextUuid) : Recordable { root with draws := root.draws + 1 } i := by
  refine .inr ?_
  rw [hi]
  exact ⟨rfl, Nat.lt_succ_self _, hroot.not_has_nextUuid⟩

variable {result : RootAnalysis × Option Observable}

theorem Grows.records {key : Option RecordKey} (h : Grows root root')
    (hkeys : root'.keys rt = root.keys rt) (hrecords : Records rt root' key result) :
    Records rt root key result :=
  ⟨h.trans hrecords.grows, hrecords.added, hkeys ▸ hrecords.admits, hkeys ▸ hrecords.refuses⟩

theorem Records.again {key : Option RecordKey} (h : Records rt root key (root', some o))
    (hagain : Records rt root' key result) : Records rt root key result := by
  obtain ⟨hmem, hkey⟩ := h.added o rfl
  subst hkey
  have hadmits : result.2.map (fun _ => result.1.keys rt) = some (root'.keys rt) :=
    hagain.admits.trans (enroll_of_mem (mem_keys rt hmem))
  refine ⟨h.grows.trans hagain.grows, hagain.added, hadmits.trans h.admits, ?_⟩
  intro hnone
  rw [hnone] at hadmits
  cases hadmits

theorem Sound.addObservableBySpec (hroot : root.Sound) (rt : Runtime) (parent : Parent)
    (type : ObservableType) (value : String) (time : Option ObservableTime) (volatile : Bool)
    (htype : type ≠ fFile) :
    Records rt root
      ((rt.construct type value).bind fun value =>
        if isBlank value then none else some ⟨type, time, rt.compareKey type value, none⟩)
      (root.addObservableBySpec rt parent type value time volatile) := by
  unfold RootAnalysis.addObservableBySpec RootAnalysis.recordBySpec
  cases rt.construct type value with
  | none => exact ⟨hroot.grows_refl, nofun, rfl, fun _ => rfl⟩
  | some value =>
    have hdraw := hroot.grows_draw
    have hrecord := hdraw.sound.record rt
      (o := .new ⟨root.nextUuid, type, value, time, none⟩ volatile) (hroot.recordable_next rfl)
    have hkey : recordKey rt ⟨root.nextUuid, type, value, time, none⟩ =
        if isBlank value then none else some ⟨type, time, rt.compareKey type value, none⟩ := by
      simp [recordKey, ObservableIdentity.key, htype]
    apply hdraw.records rfl
    simp only [Observable.new, hkey] at hrecord
    rw [Option.bind_some]
    dsimp only [Observable.new]
    generalize (if isBlank value then none else
      some (RecordKey.mk type time (rt.compareKey type value) none)) = key at hrecord ⊢
    split
    next root' heq =>
      rw [heq] at hrecord
      exact hrecord
    next root' o' heq =>
      rw [heq] at hrecord
      obtain ⟨hmem, hkey'⟩ := hrecord.added o' rfl
      have hblank := hrecord.grows.sound.notBlank _ hmem
      have hadd := hrecord.grows.sound.addObservable rt parent (.inl hmem)
        (fun h => absurd h hblank)
      rw [recordKey, if_neg hblank, hkey'] at hadd
      exact hrecord.again hadd

theorem Sound.addFileObservable (hroot : root.Sound) {parent : Parent} {content : String}
    {targetPath : Option String} {volatile : Bool}
    (h : root.addFileObservable rt parent content targetPath volatile = some result) :
    Records rt root
      ((rt.storeFile content targetPath).bind fun (sha256, path) =>
        if isBlank sha256 then none else some ⟨fFile, none, sha256, some path⟩) result := by
  unfold RootAnalysis.addFileObservable at h
  split at h
  · cases h
  next sha256 path hstore =>
    obtain rfl := Option.some.inj h
    have hdraw := hroot.grows_draw
    apply hdraw.records rfl
    have hadd := hdraw.sound.addObservable rt parent
      (o := .new ⟨root.nextUuid, fFile, sha256, none, some path⟩ volatile)
      (hroot.recordable_next rfl) (fun _ => rfl)
    simpa [hstore, recordKey, ObservableIdentity.key, Observable.new] using hadd

end RootAnalysis

/-! ## §3 The first half -/

theorem foldl_identity {α : Type*} {f : Observable → α → Observable}
    (hf : ∀ o a, (f o a).toObservableIdentity = o.toObservableIdentity) (items : List α)
    (o : Observable) : (items.foldl f o).toObservableIdentity = o.toObservableIdentity := by
  induction items generalizing o with
  | nil => rfl
  | cons item items ih => exact (ih _).trans (hf o item)

theorem applySpec_identity (rt : Runtime) (spec : ObservableSpec) (o : Observable) :
    (o.applySpec rt spec).toObservableIdentity = o.toObservableIdentity := by
  simp only [Observable.applySpec, Observable.addDetectionDicts]
  rw [foldl_identity (f := Observable.addLimitedAnalysis) fun _ _ => rfl,
    foldl_identity (f := Observable.addExcludedAnalysis) fun _ _ => rfl,
    foldl_identity (f := Observable.addDetectionPoint) fun _ _ => rfl,
    foldl_identity (f := Observable.addDirective) fun _ _ => rfl,
    foldl_identity (f := Observable.addTag) fun _ _ => rfl]

namespace RootAnalysis

variable {root root' : RootAnalysis} {uuid : NodeUuid} {rt : Runtime} {parent : Parent}

/-- All observables that `uuid_map` leads to are there. -/
def Maps (root : RootAnalysis) (uuidMap : UuidMap) : Prop :=
  ∀ entry ∈ uuidMap, root.Has entry.2

/-- What `_apply_observable_spec` does to the registry: the new observable is admitted and
recorded under its key, or it is refused. -/
structure Replays (rt : Runtime) (root : RootAnalysis) (spec : ObservableSpec)
    (result : RootAnalysis × Option NodeUuid) : Prop where
  grows : Grows root result.1
  added : ∀ uuid, result.2 = some uuid →
    ∃ i ∈ result.1.identities, i.uuid = uuid ∧ some (i.key rt) = spec.key rt
  admits : (result.2.map fun _ => result.1.keys rt) =
    (spec.key rt).bind (enroll rt (root.keys rt))
  refuses : result.2 = none → result.1.keys rt = root.keys rt

theorem Sound.applyObservableSpec (hroot : root.Sound) {spec : ObservableSpec}
    {result : RootAnalysis × Option NodeUuid}
    (h : root.applyObservableSpec rt parent spec = some result) : Replays rt root spec result := by
  simp only [RootAnalysis.applyObservableSpec, Option.map_eq_some_iff] at h
  obtain ⟨⟨root', added⟩, hadded, hresult⟩ := h
  have hrecords : Records rt root (spec.key rt) (root', added) := by
    unfold ObservableSpec.key
    split at hadded
    next htype =>
      rw [if_pos htype]
      exact hroot.addFileObservable hadded
    next htype =>
      rw [if_neg htype]
      exact Option.some.inj hadded ▸ hroot.addObservableBySpec rt parent _ _ _ _ htype
  cases added with
  | none =>
    obtain rfl := hresult
    exact ⟨hrecords.grows, nofun, hrecords.admits, fun _ => hrecords.refuses rfl⟩
  | some o =>
    obtain rfl := hresult
    have hidentities : (root'.modify o.uuid (·.applySpec rt spec)).identities = root'.identities :=
      identities_modify (applySpec_identity rt spec)
    have hmodify := hrecords.grows.sound.grows_modify o.uuid (applySpec_identity rt spec)
    obtain ⟨hmem, hkey⟩ := hrecords.added o rfl
    refine ⟨hrecords.grows.trans hmodify, ?_, ?_, nofun⟩
    · rintro uuid ⟨⟩
      exact ⟨_, hidentities ▸ hmem, rfl, hkey⟩
    · rw [← hrecords.admits]
      simp only [Option.map_some, keys, hidentities]

/-- `uuid_map` has an entry for exactly the new observables that the registry admits. -/
structure MapsAdmitted (root : RootAnalysis) (rt : Runtime) (uuidMap : UuidMap)
    (specs : List ObservableSpec) (result : RootAnalysis × UuidMap) : Prop where
  grows : Grows root result.1
  maps : result.1.Maps result.2
  isSome : ∀ uuid, (result.2.lookup uuid).isSome ↔
    uuid ∈ admitted rt (root.keys rt) specs ∨ (uuidMap.lookup uuid).isSome
  other : ∀ uuid ∉ specs.map (·.uuid), result.2.lookup uuid = uuidMap.lookup uuid
  keys : (specs.map (·.uuid)).Nodup → ∀ spec ∈ specs, ∀ uuid,
    uuidMap.lookup spec.uuid = none → result.2.lookup spec.uuid = some uuid →
      ∃ i ∈ result.1.identities, i.uuid = uuid ∧ some (i.key rt) = spec.key rt

theorem Sound.applyObservableSpecs (hroot : root.Sound) {uuidMap : UuidMap}
    (hmaps : root.Maps uuidMap) {specs : List ObservableSpec} {result : RootAnalysis × UuidMap}
    (h : root.applyObservableSpecs rt parent uuidMap specs = some result) :
    root.MapsAdmitted rt uuidMap specs result := by
  induction specs generalizing root uuidMap with
  | nil =>
    obtain rfl := Option.some.inj h
    exact ⟨hroot.grows_refl, hmaps, by simp [admitted], fun _ _ => rfl, nofun⟩
  | cons spec specs ih =>
    simp only [RootAnalysis.applyObservableSpecs] at h
    split at h
    · cases h
    next root' happly =>
      have hspec := hroot.applyObservableSpec happly
      have hrest := ih hspec.grows.sound (fun entry hentry => hspec.grows.has (hmaps entry hentry)) h
      have hadmit : (spec.key rt).bind (enroll rt (root.keys rt)) = none := hspec.admits.symm
      refine ⟨hspec.grows.trans hrest.grows, hrest.maps, ?_, ?_, ?_⟩
      · intro uuid
        rw [hrest.isSome, hspec.refuses rfl]
        simp only [admitted, hadmit]
      · intro uuid huuid
        exact hrest.other uuid fun h => huuid (mem_cons_of_mem _ h)
      · intro hnodup spec' hspec' uuid hnone hsome
        rcases mem_cons.mp hspec' with rfl | hspec'
        · rw [hrest.other _ (nodup_cons.mp hnodup).1, hnone] at hsome
          cases hsome
        · exact hrest.keys (nodup_cons.mp hnodup).2 spec' hspec' uuid hnone hsome
    next root' uuid happly =>
      have hspec := hroot.applyObservableSpec happly
      obtain ⟨i, hi, huuid, hkey⟩ := hspec.added uuid rfl
      have hmaps' : root'.Maps ((spec.uuid, uuid) :: uuidMap) := by
        intro entry hentry
        rcases mem_cons.mp hentry with rfl | hentry
        · exact ⟨i, hi, huuid⟩
        · exact hspec.grows.has (hmaps entry hentry)
      have hrest := ih hspec.grows.sound hmaps' h
      have hadmit : (spec.key rt).bind (enroll rt (root.keys rt)) = some (root'.keys rt) :=
        hspec.admits.symm
      refine ⟨hspec.grows.trans hrest.grows, hrest.maps, ?_, ?_, ?_⟩
      · intro uuid'
        rw [hrest.isSome]
        simp only [admitted, hadmit, mem_cons]
        by_cases heq : uuid' = spec.uuid
        · simp [heq]
        · simp [heq, lookup_cons, beq_false_of_ne heq]
      · intro uuid' huuid'
        simp only [map_cons, mem_cons, not_or] at huuid'
        rw [hrest.other uuid' huuid'.2, lookup_cons, beq_false_of_ne huuid'.1]
      · intro hnodup spec' hspec' uuid' hnone hsome
        simp only [map_cons, nodup_cons] at hnodup
        rcases mem_cons.mp hspec' with rfl | hspec'
        · rw [hrest.other _ hnodup.1, lookup_cons, beq_self_eq_true] at hsome
          obtain rfl := Option.some.inj hsome
          exact ⟨i, hrest.grows.kept.subset hi, huuid, hkey⟩
        · have hne : spec'.uuid ≠ spec.uuid := by
            intro heq
            exact hnodup.1 (heq ▸ mem_map_of_mem hspec')
          apply hrest.keys hnodup.2 spec' hspec' uuid' _ hsome
          rw [lookup_cons, beq_false_of_ne hne]
          exact hnone

theorem Sound.rehydrateAnalysis (hroot : root.Sound) (rt : Runtime) (target : NodeUuid)
    (dict : Option AnalysisDict) :
    Grows root (root.rehydrateAnalysis rt target dict).1 ∧
      (root.rehydrateAnalysis rt target dict).1.identities = root.identities := by
  unfold RootAnalysis.rehydrateAnalysis
  cases dict with
  | none => exact ⟨hroot.grows_refl, rfl⟩
  | some dict =>
    dsimp only
    split
    · exact ⟨hroot.grows_refl, rfl⟩
    next =>
      have hset (o : Observable) : (o.setAnalysis (rehydrated rt dict)).toObservableIdentity =
          o.toObservableIdentity := by
        unfold Observable.setAnalysis
        split <;> rfl
      exact ⟨hroot.grows_modify target hset, identities_modify hset⟩

end RootAnalysis

theorem RootAnalysis.Sound.replayObservables {rt : Runtime} {root : RootAnalysis}
    {target : NodeUuid} {delta : ModuleExecutionDelta} {result : RootAnalysis × UuidMap}
    (hroot : root.Sound) (htarget : root.Has target)
    (h : replayObservables rt root target delta = some result) :
    root.MapsAdmitted rt [(delta.observableUuid, target)] delta.newObservables result := by
  unfold Analysis.replayObservables at h
  split at h
  · cases h
  · have hrehydrate := hroot.rehydrateAnalysis rt target delta.analysis
    have hmaps : (root.rehydrateAnalysis rt target delta.analysis).1.Maps
        [(delta.observableUuid, target)] := by
      intro entry hentry
      obtain rfl := mem_singleton.mp hentry
      exact hrehydrate.1.has htarget
    have hspecs := hrehydrate.1.sound.applyObservableSpecs hmaps h
    refine ⟨hrehydrate.1.trans hspecs.grows, hspecs.maps, ?_, hspecs.other, hspecs.keys⟩
    have hkeys : (root.rehydrateAnalysis rt target delta.analysis).1.keys rt = root.keys rt := by
      rw [RootAnalysis.keys, hrehydrate.2]
      rfl
    exact hkeys ▸ hspecs.isSome

end Ace3.Analysis
