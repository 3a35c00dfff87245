import Ace3.Collectors.RemoteNodeGroup
import Ace3.Lib.RunningShare
import Ace3.Lib.Runs

/-!
# Coverage and Full Delivery

The counter of a group selects its share of the items for sending. But it is asked for each
delivery: an item that was selected, failed and is delivered again passes the counter a second time,
may be skipped there, and is then marked COMPLETED without having been submitted.
-/

namespace Ace3.Collectors

open List
open Lib Lib.Runs Lib.RunningShare

namespace DeliveryState

variable {group : RemoteNodeGroup} {s : DeliveryState} {workId : Nat} {analysisMode : String}
  {batch : List (Nat × String)}

/-! ## §1 The property -/

def WasSelected (s : DeliveryState) (workId : Nat) : Prop :=
  (workId, true) ∈ s.passed

/-- An item of a group in full delivery is still to be delivered, or was submitted and is COMPLETED,
or has failed as often as is allowed and is ERROR. -/
def EndsProperly (group : RemoteNodeGroup) (s : DeliveryState) (row : WorkItem) : Prop :=
  row.status.isPending ∨ row.status = .completed ∧ row.workId ∈ s.submitted ∨
    row.status = .error ∧ s.failed.count row.workId = group.maxDeliveryAttempts

/-- Among the first items each percentage is selected, and in full delivery each item that was
selected ends properly. -/
structure HonoursCoverage (group : RemoteNodeGroup) (s : DeliveryState) : Prop where
  share : ∀ n ≤ s.passed.length,
    ((s.passed.take n).filter (·.2)).length = n * group.coverage / 100
  delivered : group.fullDelivery → ∀ row ∈ s.rows, s.WasSelected row.workId →
    EndsProperly group s row

/-- The delivery leaves a selected item locked: there is no node for it, or it may be tried again. -/
def LeavesLocked (group : RemoteNodeGroup) (s : DeliveryState) (item : Nat × String)
    (outcome : DeliveryOutcome) : Prop :=
  target? (s.nodes group) item.2 = none ∨
    outcome = .raised true ∧ group.fullDelivery ∧
      ∀ row ∈ s.rows, row.workId = item.1 → row.attemptCount + 1 < group.maxDeliveryAttempts

/-- No item that was selected passes the counter again (unless the counter selects all), and in full
delivery what is selected can be loaded and fails only in the ways that are retried. -/
def SelectedOnce (group : RemoteNodeGroup) (s : DeliveryState) : DeliveryEvent → Prop
  | .deliver .unloadable => group.fullDelivery → ∀ item ∈ s.batch.head?, ¬ s.WasSelected item.1
  | .deliver outcome => s.selects group → ∀ item ∈ s.batch.head?,
      (LeavesLocked group s item outcome → group.coverage = 100) ∧
      (group.fullDelivery → target? (s.nodes group) item.2 ≠ none → outcome ≠ .raised false)
  | _ => True

/-! ## §2 The invariant -/

/-- What holds of the rows, the counter and the batch. -/
structure Inv (group : RemoteNodeGroup) (s : DeliveryState) : Prop where
  ids : (s.rows.map (·.workId)).Nodup
  passed : ∀ item ∈ s.passed, item.1 ∈ s.rows.map (·.workId)
  failed : ∀ workId ∈ s.failed, workId ∈ s.rows.map (·.workId)
  batch : ∀ item ∈ s.batch, ∃ row ∈ s.rows, row.workId = item.1 ∧ row.status = .locked
  once : (s.batch.map (·.1)).Nodup
  share : IsShare 100 group.coverage (s.passed.map (·.2))
  counter : s.coverageCounter = s.passed.length * group.coverage % 100
  fresh : group.coverage = 100 ∨
    ∀ row ∈ s.rows, row.status.isPending → ∀ item ∈ s.passed, item.1 ≠ row.workId
  attempts : group.fullDelivery → ∀ row ∈ s.rows, s.failed.count row.workId = row.attemptCount
  left : group.fullDelivery → ∀ row ∈ s.rows, row.status.isPending →
    row.attemptCount < group.maxDeliveryAttempts
  ended : group.fullDelivery → ∀ row ∈ s.rows, s.WasSelected row.workId →
    EndsProperly group s row

theorem inv_start : start.Inv group where
  ids := nodup_nil
  passed := nofun
  failed := nofun
  batch := nofun
  once := nodup_nil
  share := isShare_nil
  counter := by simp [start]
  fresh := .inr nofun
  attempts := fun _ => nofun
  left := fun _ => nofun
  ended := fun _ => nofun

theorem Inv.all_selected (h : s.Inv group) (hall : group.coverage = 100) :
    ∀ item ∈ s.passed, item.2 = true := by
  have hshare := h.share
  rw [hall] at hshare
  intro item hitem
  exact hshare.all (by omega) item.2 (mem_map_of_mem hitem)

theorem Inv.note_again (h : s.Inv group) (hall : group.coverage = 100)
    (hagain : s.passed.any (·.1 = workId)) : note workId true s.passed = s.passed := by
  rw [note, if_pos hagain]
  conv_rhs => rw [← map_id s.passed]
  apply map_congr_left
  intro item hitem
  rw [Bool.or_true, ← h.all_selected hall item hitem, Prod.mk.eta, ite_self, id]

theorem not_any_passed {passed : List (Nat × Bool)} :
    ¬ passed.any (·.1 = workId) ↔ ∀ item ∈ passed, item.1 ≠ workId := by
  simp only [any_eq_true, decide_eq_true_eq, not_exists, not_and, ne_eq]

/-- What an item does to the counter when it comes to it. -/
structure Noted (group : RemoteNodeGroup) (s : DeliveryState) (workId : Nat)
    (passed : List (Nat × Bool)) (coverageCounter : Nat) : Prop where
  share : IsShare 100 group.coverage (passed.map (·.2))
  counter : coverageCounter = passed.length * group.coverage % 100
  mem : ∀ item ∈ passed, item ∈ s.passed ∨ item = (workId, s.selects group)
  keeps : ∀ item ∈ s.passed, item ∈ passed

theorem Inv.noted_first (h : s.Inv group) (hfirst : ∀ item ∈ s.passed, item.1 ≠ workId) :
    Noted group s workId (note workId (s.selects group) s.passed)
      (if s.selects group then s.coverageCounter + group.coverage - 100
        else s.coverageCounter + group.coverage) := by
  have hnote : note workId (s.selects group) s.passed =
      s.passed ++ [(workId, s.selects group)] := by
    rw [note, if_neg]
    exact not_any_passed.mpr hfirst
  have hselects : s.selects group = true ↔
      100 ≤ s.passed.length * group.coverage % 100 + group.coverage := by
    rw [selects, decide_eq_true_eq, h.counter]
  rw [hnote]
  refine ⟨?_, ?_, fun item hitem => ?_, fun item hitem => mem_append_left _ hitem⟩
  · rw [map_append]
    refine h.share.append (by omega) group.coverage_le ?_
    rw [length_map]
    exact hselects
  · rw [length_append, length_singleton, succ_mul_mod (by omega) group.coverage_le]
    simp only [hselects, h.counter]
  · exact (mem_append.mp hitem).imp id mem_singleton.mp

theorem Inv.noted_all (h : s.Inv group) (workId : Nat) (hall : group.coverage = 100) :
    s.selects group = true ∧ Noted group s workId (note workId true s.passed)
      (s.coverageCounter + group.coverage - 100) := by
  have hcounter : s.coverageCounter = 0 := by
    rw [h.counter, hall]
    omega
  have hselects : s.selects group = true := by
    rw [selects, hcounter, hall]
    rfl
  refine ⟨hselects, ?_⟩
  by_cases hagain : s.passed.any (·.1 = workId)
  · rw [h.note_again hall hagain]
    refine ⟨h.share, ?_, fun item hitem => .inl hitem, fun item hitem => hitem⟩
    rw [hall]
    omega
  · have hfirst := h.noted_first (not_any_passed.mp hagain)
    rw [hselects, if_pos rfl] at hfirst
    exact hfirst

theorem recordDeliveryAttempt_eq {rows : List WorkItem} {row : WorkItem}
    (hids : (rows.map (·.workId)).Nodup) (hrow : row ∈ rows) (hid : row.workId = workId) :
    recordDeliveryAttempt group workId rows =
      (update workId (fun row => { row with attemptCount := row.attemptCount + 1 }) rows,
        row.attemptCount + 1) := by
  have hchanged : { row with attemptCount := row.attemptCount + 1 } ∈
      update workId (fun row => { row with attemptCount := row.attemptCount + 1 }) rows :=
    mem_update.mpr ⟨row, hrow, if_pos hid⟩
  have hsameIds : (update workId
      (fun row => { row with attemptCount := row.attemptCount + 1 }) rows).map (·.workId) =
        rows.map (·.workId) := map_workId_update fun _ => rfl
  unfold recordDeliveryAttempt
  simp only
  split
  next hnone => exact absurd (by simpa using hid) (List.find?_eq_none.mp hnone _ hchanged)
  next found hfound =>
    have hsame : found.workId = workId := by simpa using List.find?_some hfound
    rw [inj_on_of_nodup_map (hsameIds ▸ hids) (List.mem_of_find?_eq_some hfound) hchanged
      (hsame.trans hid.symm)]

/-- What a delivery may change: the row of its item, and what is noted of it. -/
structure Delivers (group : RemoteNodeGroup) (s t : DeliveryState) (workId : Nat)
    (set : WorkItem → WorkItem) : Prop where
  rows : t.rows = update workId set s.rows
  set : ∀ row, (set row).workId = row.workId
  batch : ∀ item ∈ t.batch, item ∈ s.batch ∧ item.1 ≠ workId
  once : (t.batch.map (·.1)).Sublist (s.batch.map (·.1))
  passed : ∀ item ∈ t.passed, item ∈ s.passed ∨ item.1 = workId
  submitted : ∀ other ∈ s.submitted, other ∈ t.submitted
  failed : t.failed = s.failed ∨ t.failed = s.failed ++ [workId]

theorem Inv.delivers (h : s.Inv group) {t : DeliveryState} (set : WorkItem → WorkItem)
    (ht : Delivers group s t workId set) {row : WorkItem} (hrow : row ∈ s.rows)
    (hid : row.workId = workId)
    (hshare : IsShare 100 group.coverage (t.passed.map (·.2)))
    (hcounter : t.coverageCounter = t.passed.length * group.coverage % 100)
    (hfresh : group.coverage = 100 ∨
      (∀ row ∈ s.rows, row.status.isPending → ∀ item ∈ s.passed, item.1 ≠ row.workId) ∧
        ¬ (set row).status.isPending)
    (hattempts : group.fullDelivery → t.failed.count workId = (set row).attemptCount)
    (hleft : group.fullDelivery → (set row).status.isPending →
      (set row).attemptCount < group.maxDeliveryAttempts)
    (hended : group.fullDelivery → t.WasSelected workId → EndsProperly group t (set row)) :
    t.Inv group := by
  have hids : t.rows.map (·.workId) = s.rows.map (·.workId) := by
    rw [ht.rows, map_workId_update ht.set]
  have hmember : workId ∈ s.rows.map (·.workId) := mem_map.mpr ⟨row, hrow, hid⟩
  -- a row of the new state is the changed one, or an old one with another id
  have hcases {row' : WorkItem} (hrow' : row' ∈ t.rows) :
      row' = set row ∨ row' ∈ s.rows ∧ row'.workId ≠ workId := by
    rw [ht.rows] at hrow'
    obtain ⟨old, hold, hset⟩ := mem_update.mp hrow'
    split at hset
    next hsame =>
      obtain rfl := inj_on_of_nodup_map h.ids hold hrow (hsame.trans hid.symm)
      exact .inl hset.symm
    next hne => exact .inr ⟨hset ▸ hold, hset ▸ hne⟩
  have hcount {other : Nat} (hne : other ≠ workId) : t.failed.count other = s.failed.count other := by
    rcases ht.failed with hsame | hmore
    · rw [hsame]
    · rw [hmore, count_append, count_cons_of_ne hne.symm, count_nil, Nat.add_zero]
  refine ⟨hids ▸ h.ids, ?_, ?_, ?_, h.once.sublist ht.once, hshare, hcounter, ?_, ?_, ?_, ?_⟩
  · intro item hitem
    rw [hids]
    rcases ht.passed item hitem with hold | hsame
    · exact h.passed item hold
    · exact hsame ▸ hmember
  · intro other hother
    rw [hids]
    rcases ht.failed with hsame | hmore
    · exact h.failed other (hsame ▸ hother)
    · rw [hmore] at hother
      rcases mem_append.mp hother with hold | hlast
      · exact h.failed other hold
      · exact mem_singleton.mp hlast ▸ hmember
  · intro item hitem
    obtain ⟨hin, hne⟩ := ht.batch item hitem
    obtain ⟨row', hrow', hid', hlocked⟩ := h.batch item hin
    refine ⟨row', ?_, hid', hlocked⟩
    rw [ht.rows]
    exact mem_update_of_ne hrow' (hid' ▸ hne)
  · refine hfresh.imp id fun ⟨hold, hdone⟩ row' hrow' hpending item hitem => ?_
    rcases hcases hrow' with rfl | ⟨hrow', hne⟩
    · exact absurd hpending hdone
    · rcases ht.passed item hitem with hin | hsame
      · exact hold row' hrow' hpending item hin
      · exact hsame ▸ hne.symm
  · intro hfull row' hrow'
    rcases hcases hrow' with rfl | ⟨hrow', hne⟩
    · rw [ht.set, hid]
      exact hattempts hfull
    · rw [hcount hne]
      exact h.attempts hfull row' hrow'
  · intro hfull row' hrow' hpending
    rcases hcases hrow' with rfl | ⟨hrow', hne⟩
    · exact hleft hfull hpending
    · exact h.left hfull row' hrow' hpending
  · intro hfull row' hrow' hselected
    rcases hcases hrow' with rfl | ⟨hrow', hne⟩
    · rw [ht.set, hid] at hselected
      exact hended hfull hselected
    · have hselected : s.WasSelected row'.workId :=
        (ht.passed _ hselected).resolve_right hne
      rcases h.ended hfull row' hrow' hselected with hpending | ⟨hdone, hin⟩ | ⟨herror, hall⟩
      · exact .inl hpending
      · exact .inr (.inl ⟨hdone, ht.submitted _ hin⟩)
      · exact .inr (.inr ⟨herror, (hcount hne).trans hall⟩)

/-! ## §3 Steps -/

theorem Inv.assign (h : s.Inv group) (hnew : ∀ row ∈ s.rows, row.workId ≠ workId) :
    ({ s with rows := s.rows ++ [⟨workId, analysisMode, .ready, 0⟩] } : DeliveryState).Inv
      group := by
  have hgone : workId ∉ s.rows.map (·.workId) := by simpa using hnew
  have hids : List.map (·.workId) (s.rows ++ [⟨workId, analysisMode, .ready, 0⟩]) =
      s.rows.map (·.workId) ++ [workId] := map_append
  refine ⟨?_, ?_, ?_, ?_, h.once, h.share, h.counter, ?_, ?_, ?_, ?_⟩
  · rw [hids, nodup_append]
    refine ⟨h.ids, pairwise_singleton _ _, ?_⟩
    rintro a ha b hb rfl
    exact hgone (mem_singleton.mp hb ▸ ha)
  · intro item hitem
    rw [hids]
    exact mem_append_left _ (h.passed item hitem)
  · intro other hother
    rw [hids]
    exact mem_append_left _ (h.failed other hother)
  · intro item hitem
    obtain ⟨row, hrow, hrest⟩ := h.batch item hitem
    exact ⟨row, mem_append_left _ hrow, hrest⟩
  · refine h.fresh.imp id fun hold row hrow hpending item hitem => ?_
    rcases mem_append.mp hrow with hrow | hlast
    · exact hold row hrow hpending item hitem
    · rw [mem_singleton.mp hlast]
      intro hsame
      have hknown := h.passed item hitem
      rw [hsame] at hknown
      exact hgone hknown
  · intro hfull row hrow
    rcases mem_append.mp hrow with hrow | hlast
    · exact h.attempts hfull row hrow
    · rw [mem_singleton.mp hlast]
      exact count_eq_zero.mpr fun hin => hgone (h.failed _ hin)
  · intro hfull row hrow hpending
    rcases mem_append.mp hrow with hrow | hlast
    · exact h.left hfull row hrow hpending
    · rw [mem_singleton.mp hlast]
      exact group.attempts_pos
  · intro hfull row hrow hselected
    rcases mem_append.mp hrow with hrow | hlast
    · exact h.ended hfull row hrow hselected
    · rw [mem_singleton.mp hlast] at hselected
      exact absurd (h.passed _ hselected) hgone

theorem Inv.lock (h : s.Inv group) (available : List String) (query : NodeQuery) :
    let rows := if s.rows.any (·.status = .locked) then s.rows
      else lockBatch group available s.rows
    ({ s with rows := rows, query := some query, batch := workBatch group rows } :
      DeliveryState).Inv group := by
  intro rows
  have hids : rows.map (·.workId) = s.rows.map (·.workId) := by
    simp only [rows]
    split
    · rfl
    · exact map_workId_lockBatch
  -- a row is as it was, or it was READY and is LOCKED
  have hrows {row : WorkItem} (hrow : row ∈ rows) : ∃ old ∈ s.rows, row.workId = old.workId ∧
      row.attemptCount = old.attemptCount ∧ (row = old ∨ old.status.isPending) := by
    simp only [rows] at hrow
    split at hrow
    · exact ⟨row, hrow, rfl, rfl, .inl rfl⟩
    · rcases mem_lockBatch hrow h.ids with hsame | ⟨old, hold, hready, -, rfl⟩
      · exact ⟨row, hsame, rfl, rfl, .inl rfl⟩
      · exact ⟨old, hold, rfl, rfl, .inr (by rw [hready]; rfl)⟩
  have hpending {row old : WorkItem} (hsame : row = old ∨ old.status.isPending)
      (hrow : row.status.isPending) : old.status.isPending := by
    rcases hsame with rfl | hold
    · exact hrow
    · exact hold
  refine ⟨hids ▸ h.ids, ?_, ?_, ?_, nodup_workBatch (hids ▸ h.ids), h.share, h.counter, ?_, ?_, ?_,
    ?_⟩
  · exact fun item hitem => hids ▸ h.passed item hitem
  · exact fun other hother => hids ▸ h.failed other hother
  · intro item hitem
    obtain ⟨row, hrow, hlocked, rfl⟩ := mem_workBatch.mp hitem
    exact ⟨row, hrow, rfl, hlocked⟩
  · refine h.fresh.imp id fun hold row hrow hstill item hitem => ?_
    obtain ⟨old, hmem, hid, -, hsame⟩ := hrows hrow
    exact hid ▸ hold old hmem (hpending hsame hstill) item hitem
  · intro hfull row hrow
    obtain ⟨old, hmem, hid, hcount, -⟩ := hrows hrow
    rw [hid, hcount]
    exact h.attempts hfull old hmem
  · intro hfull row hrow hstill
    obtain ⟨old, hmem, -, hcount, hsame⟩ := hrows hrow
    exact hcount ▸ h.left hfull old hmem (hpending hsame hstill)
  · intro hfull row hrow hselected
    obtain ⟨old, hmem, hid, -, rfl | hold⟩ := hrows hrow
    · exact h.ended hfull row hmem hselected
    · -- only READY items are locked
      simp only [rows] at hrow
      split at hrow
      · exact h.ended hfull row hrow hselected
      · rcases mem_lockBatch hrow h.ids with hsame | ⟨old, -, -, -, rfl⟩
        · exact h.ended hfull row hsame hselected
        · exact .inl rfl

theorem Inv.clearQueue (h : s.Inv group) (hfull : ¬ group.fullDelivery) (hbatch : s.batch = []) :
    ({ s with rows := s.rows.map fun row => { row with status := .error } } : DeliveryState).Inv
      group := by
  have hids : (s.rows.map fun row => { row with status := WorkStatus.error }).map (·.workId) =
      s.rows.map (·.workId) := by
    rw [map_map]
    rfl
  refine ⟨hids ▸ h.ids, ?_, ?_, ?_, h.once, h.share, h.counter, ?_, ?_, ?_, ?_⟩
  · exact fun item hitem => hids ▸ h.passed item hitem
  · exact fun other hother => hids ▸ h.failed other hother
  · intro item hitem
    rw [show ({ s with rows := _ } : DeliveryState).batch = s.batch from rfl, hbatch] at hitem
    cases hitem
  · refine h.fresh.imp id fun _ row hrow hpending => ?_
    obtain ⟨old, -, rfl⟩ := mem_map.mp hrow
    exact nomatch hpending
  all_goals exact fun hnow => absurd hnow hfull

theorem Inv.execute (h : s.Inv group) (hbatch : s.batch = []) (tables : NodeTables) (now : Nat) :
    (s.execute group tables now).Inv group := by
  simp only [DeliveryState.execute]
  split
  · exact h
  split
  · split
    · exact h
    next hfull => exact h.clearQueue hfull hbatch
  split
  · exact h
  · exact h.lock _ _

theorem Inv.next (h : s.Inv group) (hbatch : s.batch = (workId, analysisMode) :: batch) :
    (∃ row ∈ s.rows, row.workId = workId ∧ row.status = .locked) ∧
      ∀ item ∈ batch, item ∈ s.batch ∧ item.1 ≠ workId := by
  have hitems := h.batch
  have honce := h.once
  rw [hbatch] at hitems honce
  refine ⟨hitems _ mem_cons_self, fun item hitem => ?_⟩
  refine ⟨hbatch ▸ mem_cons_of_mem _ hitem, fun hsame => ?_⟩
  exact (nodup_cons.mp honce).1 (mem_map.mpr ⟨item, hitem, hsame⟩)

theorem Inv.unloadable (h : s.Inv group) (hbatch : s.batch = (workId, analysisMode) :: batch)
    (hunselected : group.fullDelivery → ¬ s.WasSelected workId) :
    ({ s with batch := batch, rows := setStatus workId .error s.rows } : DeliveryState).Inv
      group := by
  obtain ⟨⟨row, hrow, hid, hlocked⟩, hrest⟩ := h.next hbatch
  refine h.delivers _
    ⟨rfl, fun _ => rfl, hrest, by rw [hbatch]; exact sublist_cons_self _ _,
      fun _ hitem => .inl hitem, fun _ hother => hother, .inl rfl⟩ hrow hid h.share h.counter ?_ ?_
    (fun _ => nofun) ?_
  · exact h.fresh.imp id fun hold => ⟨hold, nofun⟩
  · exact fun hfull => hid ▸ h.attempts hfull row hrow
  · exact fun hfull hselected => absurd hselected (hunselected hfull)

theorem Inv.skip (h : s.Inv group) (hbatch : s.batch = (workId, analysisMode) :: batch)
    (hskips : s.selects group = false) :
    ({ s with
      batch := batch
      coverageCounter := s.coverageCounter + group.coverage
      passed := note workId false s.passed
      rows := setStatus workId .completed s.rows } : DeliveryState).Inv group := by
  obtain ⟨⟨row, hrow, hid, hlocked⟩, hrest⟩ := h.next hbatch
  have hpartial : group.coverage ≠ 100 := by
    intro hall
    rw [(h.noted_all workId hall).1] at hskips
    cases hskips
  have hfresh := h.fresh.resolve_left hpartial
  have hfirst : ∀ item ∈ s.passed, item.1 ≠ workId :=
    hid ▸ hfresh row hrow (by rw [hlocked]; rfl)
  have hnoted := h.noted_first hfirst
  simp only [hskips, Bool.false_eq_true, if_false] at hnoted
  refine h.delivers _
    ⟨rfl, fun _ => rfl, hrest, by rw [hbatch]; exact sublist_cons_self _ _, ?_,
      fun _ hother => hother, .inl rfl⟩ hrow hid hnoted.share hnoted.counter
    (.inr ⟨hfresh, nofun⟩) (fun hfull => hid ▸ h.attempts hfull row hrow) (fun _ => nofun) ?_
  · intro item hitem
    exact (hnoted.mem item hitem).imp id fun hsame => congrArg Prod.fst hsame
  · -- the item was not selected, neither before nor now
    intro _ hselected
    rcases hnoted.mem _ hselected with hold | hnow
    · exact absurd rfl (hfirst _ hold)
    · rw [hskips] at hnow
      exact nomatch congrArg Prod.snd hnow

theorem Inv.noted_selected (h : s.Inv group) (hbatch : s.batch = (workId, analysisMode) :: batch)
    (hselects : s.selects group = true) :
    Noted group s workId (selected group s workId batch).passed
      (selected group s workId batch).coverageCounter := by
  by_cases hall : group.coverage = 100
  · exact (h.noted_all workId hall).2
  · obtain ⟨⟨row, hrow, hid, hlocked⟩, -⟩ := h.next hbatch
    have hfirst : ∀ item ∈ s.passed, item.1 ≠ workId :=
      hid ▸ h.fresh.resolve_left hall row hrow (by rw [hlocked]; rfl)
    have hnoted := h.noted_first hfirst
    rw [hselects, if_pos rfl] at hnoted
    exact hnoted

theorem Inv.send (h : s.Inv group) (hbatch : s.batch = (workId, analysisMode) :: batch)
    (hselects : s.selects group = true) {outcome : DeliveryOutcome}
    (hlocked : LeavesLocked group s (workId, analysisMode) outcome → group.coverage = 100)
    (hretriable : group.fullDelivery → target? (s.nodes group) analysisMode ≠ none →
      outcome ≠ .raised false) :
    ((selected group s workId batch).send group workId analysisMode outcome).Inv group := by
  obtain ⟨⟨row, hrow, hid, hstatus⟩, hrest⟩ := h.next hbatch
  have hnoted := h.noted_selected hbatch hselects
  have hpending : row.status.isPending := by rw [hstatus]; rfl
  have hattempts (hfull : group.fullDelivery) : s.failed.count workId = row.attemptCount :=
    hid ▸ h.attempts hfull row hrow
  have hpassed : ∀ item ∈ (selected group s workId batch).passed,
      item ∈ s.passed ∨ item.1 = workId := fun item hitem =>
    (hnoted.mem item hitem).imp id fun hsame => congrArg Prod.fst hsame
  have honce : (batch.map (·.1)).Sublist (s.batch.map (·.1)) := by
    rw [hbatch]
    exact sublist_cons_self _ _
  have hcompleted : ¬ WorkStatus.completed.isPending := by decide
  have herror : ¬ WorkStatus.error.isPending := by decide
  simp only [DeliveryState.send]
  cases htarget : target? ((selected group s workId batch).nodes group) analysisMode with
  | none =>
    -- the call ends, and the item stays locked
    have hall := hlocked (.inl htarget)
    refine h.delivers id
      ⟨?_, fun _ => rfl, fun _ hin => absurd hin not_mem_nil, nil_sublist _, hpassed,
        fun _ hother => hother, .inl rfl⟩ hrow hid hnoted.share hnoted.counter (.inl hall) hattempts
      (fun hfull hstill => h.left hfull row hrow hstill) (fun _ _ => .inl hpending)
    simp [update, selected]
  | some remote =>
    have hsubmitted : ∀ other ∈ s.submitted, other ∈ s.submitted ++ [workId] :=
      fun other hother => mem_append_left _ hother
    cases outcome with
    | raised retriable =>
      have hfailed : (selected group s workId batch).failed ++ [workId] = s.failed ++ [workId] := rfl
      have hone (hfull : group.fullDelivery) :
          (s.failed ++ [workId]).count workId = row.attemptCount + 1 := by
        rw [count_append, count_singleton_self, hattempts hfull]
      simp only [fail]
      split
      next hagain =>
        have hrecord : recordDeliveryAttempt group workId (selected group s workId batch).rows =
            (update workId (fun row => { row with attemptCount := row.attemptCount + 1 }) s.rows,
              row.attemptCount + 1) :=
          recordDeliveryAttempt_eq h.ids hrow hid
        simp only [hrecord]
        split
        next hmore =>
          -- the item stays locked, and its failure is counted
          have hall : group.coverage = 100 := by
            apply hlocked
            refine .inr ⟨by rw [hagain.2], hagain.1, fun row' hrow' hid' => ?_⟩
            rw [inj_on_of_nodup_map h.ids hrow' hrow (hid'.trans hid.symm)]
            exact hmore
          exact h.delivers _
            ⟨rfl, fun _ => rfl, hrest, honce, hpassed, fun _ hother => hother, .inr hfailed⟩ hrow
            hid hnoted.share hnoted.counter (.inl hall) hone (fun _ _ => hmore)
            (fun _ _ => .inl hpending)
        next hlast =>
          -- the last of its attempts
          have hleft := h.left hagain.1 row hrow hpending
          refine h.delivers
            (fun row => { row with status := .error, attemptCount := row.attemptCount + 1 })
            ⟨?_, fun _ => rfl, hrest, honce, hpassed, fun _ hother => hother, .inr hfailed⟩ hrow
            hid hnoted.share hnoted.counter (h.fresh.imp id fun hold => ⟨hold, herror⟩) hone
            (fun _ h => absurd h herror) (fun hfull _ => .inr (.inr ⟨rfl, ?_⟩))
          · exact update_update fun _ => rfl
          · show (s.failed ++ [workId]).count row.workId = _
            rw [hid, hone hfull]
            omega
      next honly =>
        refine h.delivers _
          ⟨rfl, fun _ => rfl, hrest, honce, hpassed, fun _ hother => hother, .inr hfailed⟩ hrow hid
          hnoted.share hnoted.counter (h.fresh.imp id fun hold => ⟨hold, herror⟩) ?_
          (fun _ h => absurd h herror)
          ?_
        all_goals
          intro hfull
          have htargeted : target? (s.nodes group) analysisMode = some remote := htarget
          have hother := hretriable hfull (by rw [htargeted]; exact Option.some_ne_none _)
          cases retriable with
          | true => exact absurd ⟨hfull, rfl⟩ honly
          | false => exact absurd rfl hother
    | submitted | unloadable =>
      refine h.delivers _
        ⟨rfl, fun _ => rfl, hrest, honce, hpassed, hsubmitted, .inl rfl⟩ hrow hid hnoted.share
        hnoted.counter (h.fresh.imp id fun hold => ⟨hold, hcompleted⟩) hattempts
        (fun _ h => absurd h hcompleted)
        fun _ _ => ?_
      exact .inr (.inl ⟨rfl, hid ▸ mem_append_right _ (mem_singleton_self _)⟩)

theorem Inv.deliver (h : s.Inv group) {outcome : DeliveryOutcome}
    (hcondition : s.SelectedOnce group (.deliver outcome)) : (s.deliver group outcome).Inv group := by
  cases hbatch : s.batch with
  | nil =>
    simp only [DeliveryState.deliver, hbatch]
    exact h
  | cons item batch =>
    obtain ⟨workId, analysisMode⟩ := item
    have hsent (hloaded : outcome ≠ .unloadable) (houtcome : s.selects group = true →
        ∀ item ∈ s.batch.head?, (LeavesLocked group s item outcome → group.coverage = 100) ∧
          (group.fullDelivery → target? (s.nodes group) item.2 ≠ none →
            outcome ≠ .raised false)) : (s.deliver group outcome).Inv group := by
      rw [deliver_eq hbatch hloaded]
      split
      next hselects =>
        obtain ⟨hlocked, hretriable⟩ := houtcome hselects (workId, analysisMode) (by rw [hbatch]; rfl)
        exact h.send hbatch hselects hlocked hretriable
      next hskips => exact h.skip hbatch (by simpa using hskips)
    cases outcome with
    | unloadable =>
      simp only [DeliveryState.deliver, hbatch]
      exact h.unloadable hbatch fun hfull => hcondition hfull _ (by rw [hbatch]; rfl)
    | submitted => exact hsent (by simp) hcondition
    | raised retriable => exact hsent (by simp) hcondition

theorem Inv.step (h : s.Inv group) (event : DeliveryEvent) (hevent : s.SelectedOnce group event) :
    (s.step group event).Inv group := by
  cases event with
  | assign workId analysisMode =>
    simp only [DeliveryState.step]
    split
    · exact h
    next hnew => exact h.assign (by simpa using hnew)
  | execute tables now =>
    simp only [DeliveryState.step]
    split
    next hbatch => exact h.execute hbatch tables now
    · exact h
  | deliver outcome => exact h.deliver hevent

/-! ## §4 Runs -/

/-- In every run in which no selected item passes the counter again, each percentage of the first
items is selected, and in full delivery each selected item ends properly. -/
theorem delivery_honours_coverage (group : RemoteNodeGroup) (events : List DeliveryEvent)
    (h : Along (step group) (SelectedOnce group) start events) :
    HonoursCoverage group (events.foldl (step group) start) := by
  have hinv : (events.foldl (step group) start).Inv group :=
    Along.invariant (Inv group) (fun s event hs hevent => hs.step event hevent) inv_start h
  refine ⟨fun n hn => ?_, hinv.ended⟩
  have hshare := hinv.share n (by rwa [length_map])
  rw [← map_take, List.count, countP_map, countP_eq_length_filter] at hshare
  rw [← hshare]
  congr 2
  funext item
  simp

/-! A group that sends every second item, and the one node it sends to. -/

def everySecond : RemoteNodeGroup :=
  { sendsAll with coverage := 50, coverage_pos := by decide, coverage_le := by decide }

def oneNode : NodeTables where
  nodes := [⟨1, "engine", "localhost:443", 1, 0, true, .running⟩]
  nodeModes := []
  nodeModesExcluded := []
  workload := []
  nodes_nodup := by decide
  nodeModes_nodup := nodup_nil
  nodeModesExcluded_nodup := nodup_nil

/-- An item is assigned, and the next call delivers it. -/
def turn (workId : Nat) (outcome : DeliveryOutcome) : List DeliveryEvent :=
  [.assign workId "analysis", .execute oneNode 0, .deliver outcome]

def withoutFailures : List DeliveryEvent :=
  turn 1 .submitted ++ turn 2 .submitted

/-- The second item fails, passes the counter again, and is skipped; the third is selected. -/
def skippedOnRetry : List DeliveryEvent :=
  turn 1 .submitted ++ turn 2 (.raised true) ++ [.execute oneNode 0, .deliver .submitted] ++
    turn 3 .submitted

theorem withoutFailures_honours_coverage :
    HonoursCoverage everySecond (withoutFailures.foldl (step everySecond) start) := by
  apply delivery_honours_coverage
  refine ⟨trivial, trivial, ?_, trivial, trivial, ?_, trivial⟩
  · intro hselects
    exact absurd hselects (by decide)
  · intro _ item hitem
    obtain rfl : (2, "analysis") = item := Option.some.inj hitem
    refine ⟨?_, fun _ _ => nofun⟩
    rintro (hnone | ⟨hraised, -⟩)
    · exact absurd hnone (by decide)
    · cases hraised

/-- The second item was selected and is COMPLETED without having been submitted; and two of the
first three items were selected, where half of them is one. -/
theorem retried_item_is_skipped :
    let s := skippedOnRetry.foldl (step everySecond) start
    ¬ HonoursCoverage everySecond s ∧ ((s.passed.take 3).filter (·.2)).length = 2 ∧
      (⟨2, "analysis", .completed, 1⟩ : WorkItem) ∈ s.rows ∧ s.WasSelected 2 ∧ 2 ∉ s.submitted := by
  intro s
  have hrow : (⟨2, "analysis", .completed, 1⟩ : WorkItem) ∈ s.rows := by decide
  have hselected : s.WasSelected 2 := by
    show (2, true) ∈ s.passed
    decide
  have hunsent : 2 ∉ s.submitted := by decide
  refine ⟨fun h => ?_, by decide, hrow, hselected, hunsent⟩
  rcases h.delivered rfl _ hrow hselected with hpending | ⟨-, hsent⟩ | ⟨herror, -⟩
  · cases hpending
  · exact hunsent hsent
  · cases herror

end DeliveryState

end Ace3.Collectors
