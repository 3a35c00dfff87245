import Ace3.Lib.Firsts
import Ace3.Lib.OrderedDict
import Mathlib.Data.List.Nodup
import Mathlib.Tactic.SplitIfs

/-!
# The Detection Status of the Observables of an Alert

`get_observable_detections` of `saq/database/util/observable_detection.py`: the detections are
queried by the hashes of the observables, each is matched back to an observable by type and hash,
and the result is keyed by the uuid of that observable.
-/

namespace Ace3.Observables

open List
open Lib Lib.Firsts

/-! ## §1 Observables and detections -/

structure Hashing (δ : Type) where
  /-- `hashlib.sha256` of the text. -/
  sha256 : String → δ
  /-- `bytes.fromhex`. -/
  fromhex : String → δ

/-- An observable; a path makes it a `FileObservable`. -/
structure AlertObservable where
  uuid : String
  type : String
  value : String
  time : Option Nat
  filePath : Option String
  deriving DecidableEq

def AlertObservable.sha256Bytes {δ : Type} (hashing : Hashing δ) (o : AlertObservable) : δ :=
  match o.filePath with
  | some _ => hashing.fromhex o.value
  | none => hashing.sha256 o.value

/-- `alert.all_observables`: the values of a dictionary from uuids. -/
structure AllObservables where
  observables : List AlertObservable
  nodup : (observables.map (·.uuid)).Nodup

/-- A row of `observable_detections`, with the display name of `modified_by_user`. -/
structure ObservableDetection (δ : Type) where
  type : String
  valueSha256 : δ
  detectionContext : Option String
  modifiedByUser : Option String
  deriving DecidableEq

/-- The table, with the constraint `uq_obs_det_type_sha256`. -/
structure ObservableDetections (δ : Type) where
  rows : List (ObservableDetection δ)
  unique : (rows.map fun row => (row.type, row.valueSha256)).Nodup

structure ObservableDetectionSummary where
  observableUuid : String
  forDetection : Bool
  detectionModifiedBy : String
  detectionContext : Option String
  deriving DecidableEq

/-! ## §2 The lookup -/

section

variable {δ : Type} [DecidableEq δ] (hashing : Hashing δ)

/-- The test of `_match_observable`. -/
def ObservableDetection.matches (detection : ObservableDetection δ) (o : AlertObservable) : Bool :=
  o.type = detection.type ∧ o.sha256Bytes hashing = detection.valueSha256

def matchObservable (observables : List AlertObservable) (detection : ObservableDetection δ) :
    Option AlertObservable :=
  observables.find? (detection.matches hashing)

def summary (o : AlertObservable) (detection : ObservableDetection δ) :
    ObservableDetectionSummary where
  observableUuid := o.uuid
  forDetection := true
  detectionModifiedBy := detection.modifiedByUser.getD "unknown"
  detectionContext := detection.detectionContext

def getObservableDetections (observables : List AlertObservable) (table : ObservableDetections δ) :
    OrderedDict String ObservableDetectionSummary :=
  if observables.isEmpty then .empty
  else
    let hashes := observables.map (·.sha256Bytes hashing)
    let dbDetections := table.rows.filter (·.valueSha256 ∈ hashes)
    dbDetections.foldl
      (fun detections detection =>
        match matchObservable hashing observables detection with
        | none => detections
        | some o => detections.set o.uuid (summary o detection))
      .empty

def getAllObservableDetections (alert : AllObservables) (table : ObservableDetections δ) :
    OrderedDict String ObservableDetectionSummary :=
  getObservableDetections hashing alert.observables table

end

/-! ## §3 What is found for an observable -/

section

variable {δ : Type} [DecidableEq δ] {hashing : Hashing δ}

def AlertObservable.identity (hashing : Hashing δ) (o : AlertObservable) : String × δ :=
  (o.type, o.sha256Bytes hashing)

def ObservableDetections.find (table : ObservableDetections δ) (hashing : Hashing δ)
    (o : AlertObservable) : Option (ObservableDetection δ) :=
  table.rows.find? (·.matches hashing o)

variable {o : AlertObservable} {detection : ObservableDetection δ}

theorem matches_iff :
    detection.matches hashing o = true ↔
      o.identity hashing = (detection.type, detection.valueSha256) := by
  simp [ObservableDetection.matches, AlertObservable.identity]

theorem matchObservable_eq (h : detection.matches hashing o = true)
    (observables : List AlertObservable) :
    matchObservable hashing observables detection =
      observables.find? (fun other => other.identity hashing = o.identity hashing) := by
  unfold matchObservable
  congr 1
  funext other
  rw [Bool.eq_iff_iff, matches_iff, matches_iff.mp h, decide_eq_true_iff]

theorem ObservableDetections.eq_of_matches {table : ObservableDetections δ}
    {detection other : ObservableDetection δ} (hmem : detection ∈ table.rows)
    (hmem' : other ∈ table.rows) (h : detection.matches hashing o = true)
    (h' : other.matches hashing o = true) : detection = other :=
  inj_on_of_nodup_map table.unique hmem hmem'
    ((matches_iff.mp h).symm.trans (matches_iff.mp h'))

theorem ObservableDetections.find_eq_some_iff {table : ObservableDetections δ} :
    table.find hashing o = some detection ↔
      detection ∈ table.rows ∧ detection.matches hashing o = true := by
  constructor
  · exact fun h => ⟨List.mem_of_find?_eq_some h,
      List.find?_some (p := fun row : ObservableDetection δ => row.matches hashing o) h⟩
  · rintro ⟨hmem, h⟩
    cases hfind : table.find hashing o with
    | none => exact absurd h (List.find?_eq_none.mp hfind detection hmem)
    | some other =>
      rw [table.eq_of_matches (List.mem_of_find?_eq_some hfind) hmem
        (List.find?_some (p := fun row : ObservableDetection δ => row.matches hashing o) hfind) h]

theorem getObservableDetections_eq_fill (observables : List AlertObservable)
    (table : ObservableDetections δ) :
    getObservableDetections hashing observables table =
      OrderedDict.fill (·.1.uuid) (fun found => summary found.1 found.2) .empty
        (table.rows.filterMap fun detection =>
          (matchObservable hashing observables detection).map (·, detection)) := by
  unfold getObservableDetections OrderedDict.fill
  by_cases hempty : observables.isEmpty = true
  · rw [if_pos hempty, List.isEmpty_iff.mp hempty]
    simp [matchObservable]
  · -- a detection with another hash is matched to no observable
    have hfilter : (table.rows.filter (·.valueSha256 ∈ observables.map (·.sha256Bytes hashing))).filterMap
        (fun detection => (matchObservable hashing observables detection).map (·, detection)) =
        table.rows.filterMap fun detection =>
          (matchObservable hashing observables detection).map (·, detection) := by
      rw [filterMap_filter]
      apply filterMap_congr
      intro detection _
      by_cases hhash : detection.valueSha256 ∈ observables.map (·.sha256Bytes hashing)
      · simp only [hhash, decide_true, if_true]
      · have hnone : matchObservable hashing observables detection = none := by
          refine List.find?_eq_none.mpr fun o ho hmatches => hhash ?_
          rw [← (Prod.mk.inj (matches_iff.mp hmatches)).2]
          exact mem_map_of_mem ho
        simp only [hhash, decide_false, Bool.false_eq_true, if_false, hnone, Option.map_none]
    rw [if_neg hempty, ← hfilter, foldl_filterMap]
    refine congrArg (fun step => List.foldl step OrderedDict.empty _) ?_
    funext detections detection
    cases matchObservable hashing observables detection <;> rfl

/-- The entry of an observable: the status of its detection if it is the first of its identity. -/
theorem get?_getAllObservableDetections (alert : AllObservables) (table : ObservableDetections δ)
    (ho : o ∈ alert.observables) :
    (getAllObservableDetections hashing alert table).get? o.uuid =
      if alert.observables.find? (fun other => other.identity hashing = o.identity hashing) = some o
      then (table.find hashing o).map (summary o) else none := by
  rw [getAllObservableDetections, getObservableDetections_eq_fill, OrderedDict.get?_fill]
  generalize hfound : List.find? _ _ = found
  cases found with
  | some pair =>
    obtain ⟨other, detection⟩ := pair
    obtain ⟨row, hrow, hmatched⟩ :=
      mem_filterMap.mp (mem_reverse.mp (List.mem_of_find?_eq_some hfound))
    obtain ⟨matched, hmatch, hpair⟩ := Option.map_eq_some_iff.mp hmatched
    obtain ⟨rfl, rfl⟩ := Prod.mk.inj hpair
    -- the uuid is that of one observable only
    have huuid : matched.uuid = o.uuid := by simpa using List.find?_some hfound
    obtain rfl : matched = o :=
      inj_on_of_nodup_map alert.nodup (List.mem_of_find?_eq_some hmatch) ho huuid
    have hmatches := List.find?_some hmatch
    rw [← matchObservable_eq hmatches, if_pos hmatch,
      ObservableDetections.find_eq_some_iff.mpr ⟨hrow, hmatches⟩]
    rfl
  | none =>
    split_ifs with hfirst
    · cases hfind : table.find hashing o with
      | none => rfl
      | some detection =>
        obtain ⟨hrow, hmatches⟩ := ObservableDetections.find_eq_some_iff.mp hfind
        have hmatch := (matchObservable_eq hmatches _).trans hfirst
        refine absurd rfl (List.find?_eq_none.mp hfound (o, detection) ?_ ∘ decide_eq_true)
        exact mem_reverse.mpr (mem_filterMap.mpr ⟨detection, hrow, by rw [hmatch]; rfl⟩)
    · rfl

/-- Every observable with a detection has the status of it, and no other has one, exactly if no
observable with a detection comes after another of the same type and value hash. -/
theorem status_of_every_observable_iff (hashing : Hashing δ) (alert : AllObservables)
    (table : ObservableDetections δ) :
    (∀ o ∈ alert.observables, (getAllObservableDetections hashing alert table).get? o.uuid =
        (table.find hashing o).map (summary o)) ↔
      alert.observables.Pairwise fun first o =>
        first.identity hashing = o.identity hashing → ¬ (table.find hashing o).isSome := by
  rw [← find?_key_iff_pairwise alert.nodup.of_map]
  apply forall₂_congr
  intro o ho
  rw [get?_getAllObservableDetections alert table ho]
  split_ifs with hfirst
  · exact iff_of_true rfl fun _ => hfirst
  · cases table.find hashing o <;> simp [hfirst]

end

def twoTimes : AllObservables where
  observables := [⟨"u1", "ipv4", "10.0.0.1", some 1, none⟩, ⟨"u2", "ipv4", "10.0.0.1", some 2, none⟩]
  nodup := by decide

def addressDetection : ObservableDetections String where
  rows := [⟨"ipv4", "10.0.0.1", some "known bad", some "Analyst"⟩]
  unique := by decide

/-- The second observable has the type and the value hash of the detection and no entry. -/
theorem second_observable_has_no_status :
    (addressDetection.find ⟨id, id⟩ ⟨"u2", "ipv4", "10.0.0.1", some 2, none⟩).isSome = true ∧
      (getAllObservableDetections ⟨id, id⟩ twoTimes addressDetection).get? "u2" = none := by
  decide

end Ace3.Observables
