import Ace3.Database.Dispositions
import Mathlib.Data.List.Nodup
import Mathlib.Tactic.SplitIfs

/-!
# What the Audit Lines Say of the Alerts

Which alerts have changed is decided by the guard of the update, and again by a comparison of the
snapshot with the new disposition. Both come to the same for an alert that has a disposition, and
in `set_dispositions` also for one that has none.
-/

namespace Ace3.Database

open List
open Lib.Sql

namespace AlertDb

variable {db : AlertDb} {alert : AlertRow}

/-! ## §1 The statements -/

theorem alert?_eq_some_iff : db.alert? alert.uuid = some alert ↔ alert ∈ db.alerts := by
  constructor
  · exact List.mem_of_find?_eq_some
  · intro hmem
    cases hfind : db.alert? alert.uuid with
    | none => exact absurd (decide_eq_true rfl) (List.find?_eq_none.mp hfind alert hmem)
    | some other =>
      have huuid : other.uuid = alert.uuid := by
        simpa using List.find?_some (p := fun row : AlertRow => row.uuid = alert.uuid) hfind
      rw [inj_on_of_nodup_map db.uuids (List.mem_of_find?_eq_some hfind) hmem huuid]

variable {condition : AlertRow → Truth} {set : AlertRow → AlertRow}

theorem alert?_updateAlerts (hset : ∀ alert, (set alert).uuid = alert.uuid)
    (hmem : alert ∈ db.alerts) :
    (db.updateAlerts condition set hset).alert? alert.uuid =
      some (if condition alert = some true then set alert else alert) := by
  have huuid : (if condition alert = some true then set alert else alert).uuid = alert.uuid := by
    split
    · exact hset alert
    · rfl
  rw [← huuid]
  exact alert?_eq_some_iff.mpr (mem_map_of_mem hmem)

@[simp] theorem alerts_addCommentIfAny (alertUuids : List String) (userId : Nat)
    (comment : Option String) :
    (db.addCommentIfAny alertUuids userId comment).alerts = db.alerts := by
  unfold addCommentIfAny
  split
  · rfl
  · split <;> rfl

@[simp] theorem nodes_addCommentIfAny (alertUuids : List String) (userId : Nat)
    (comment : Option String) :
    (db.addCommentIfAny alertUuids userId comment).nodes = db.nodes := by
  unfold addCommentIfAny
  split
  · rfl
  · split <;> rfl

@[simp] theorem alerts_requeueUnlessIgnored (now : Nat) (alertUuids : List String)
    (disposition : Option Disposition) :
    (db.requeueUnlessIgnored now alertUuids disposition).alerts = db.alerts := by
  unfold requeueUnlessIgnored
  split <;> rfl

variable {db' : AlertDb}

theorem alert?_congr (halerts : db'.alerts = db.alerts) (uuid : String) :
    db'.alert? uuid = db.alert? uuid := by
  unfold alert?
  rw [halerts]

variable {alertUuids : List String}

theorem mem_fetchDispositionContext {row : DispositionContext} :
    row ∈ db.fetchDispositionContext alertUuids ↔
      ∃ alert ∈ db.alerts, alert.uuid ∈ alertUuids ∧ db.context alert = row := by
  simp only [fetchDispositionContext, mem_map, mem_filter, decide_eq_true_eq, and_assoc]

theorem nodup_fetchDispositionContext (alertUuids : List String) :
    ((db.fetchDispositionContext alertUuids).map (·.alertUuid)).Nodup := by
  rw [fetchDispositionContext, map_map]
  exact db.uuids.sublist (filter_sublist.map _)

def Queued (workload : List WorkloadEntry) (uuid : String) : Prop :=
  ∃ entry ∈ workload, entry.uuid = uuid ∧ entry.analysisMode = analysisModeDispositioned

theorem subset_insertIgnore (workload : List WorkloadEntry) (entry : Option WorkloadEntry) :
    workload ⊆ insertIgnore workload entry := by
  unfold insertIgnore
  split
  · exact List.Subset.refl _
  · split
    · exact List.Subset.refl _
    · exact subset_append_left _ _

theorem subset_foldl_insertIgnore (entries : List (Option WorkloadEntry))
    (workload : List WorkloadEntry) : workload ⊆ entries.foldl insertIgnore workload := by
  induction entries generalizing workload with
  | nil => exact List.Subset.refl _
  | cons entry entries ih => exact List.Subset.trans (subset_insertIgnore workload entry) (ih _)

theorem queued_insertIgnore (workload : List WorkloadEntry) {entry : WorkloadEntry}
    (hmode : entry.analysisMode = analysisModeDispositioned) :
    Queued (insertIgnore workload (some entry)) entry.uuid := by
  simp only [insertIgnore]
  split
  next hany =>
    obtain ⟨other, hother, hsame⟩ := any_eq_true.mp hany
    obtain ⟨huuid, hother'⟩ := of_decide_eq_true hsame
    exact ⟨other, hother, huuid, hother'.trans hmode⟩
  next => exact ⟨entry, mem_append_right _ (mem_singleton_self entry), rfl, hmode⟩

theorem queued_foldl_insertIgnore {entries : List (Option WorkloadEntry)} {entry : WorkloadEntry}
    (hmem : some entry ∈ entries) (hmode : entry.analysisMode = analysisModeDispositioned)
    (workload : List WorkloadEntry) :
    Queued (entries.foldl insertIgnore workload) entry.uuid := by
  induction entries generalizing workload with
  | nil => exact absurd hmem not_mem_nil
  | cons first entries ih =>
    rcases mem_cons.mp hmem with rfl | hmem
    · obtain ⟨queued, hqueued, hsame⟩ := queued_insertIgnore workload hmode
      exact ⟨queued, subset_foldl_insertIgnore entries _ hqueued, hsame⟩
    · exact ih hmem _

theorem queued_requeue (now : Nat) (hmem : alert ∈ db.alerts) (huuid : alert.uuid ∈ alertUuids)
    (hcompany : alert.companyId.isSome) (hnode : ∃ node ∈ db.nodes, node.2 = alert.location) :
    Queued (db.requeue now alertUuids).workload alert.uuid := by
  obtain ⟨node, hnode, hlocation⟩ := hnode
  obtain ⟨companyId, hcompany⟩ := Option.isSome_iff_exists.mp hcompany
  let entry : WorkloadEntry :=
    ⟨alert.uuid, node.1, analysisModeDispositioned, now, companyId, alert.storageDir⟩
  have hselected : some entry ∈ db.selectedEntries now alert := by
    refine mem_map.mpr ⟨node, mem_filter.mpr ⟨hnode, decide_eq_true hlocation⟩, ?_⟩
    rw [hcompany]
    rfl
  have halert : alert ∈ db.alerts.filter (·.uuid ∈ alertUuids) :=
    mem_filter.mpr ⟨hmem, decide_eq_true huuid⟩
  exact queued_foldl_insertIgnore (mem_flatMap.mpr ⟨alert, halert, hselected⟩) rfl db.workload

/-! ## §2 What is said of an alert -/

def Changed (db' : AlertDb) (alert : AlertRow) : Prop := db'.alert? alert.uuid ≠ some alert

/-- What the lines of a call and the workload say of an alert. -/
structure Told (db db' : AlertDb) (lines : List AuditLine) (disposition : Disposition)
    (alert : AlertRow) : Prop where
  /-- An audit line is emitted for the alert if its row is changed, and not otherwise. -/
  audited : db'.Changed alert ↔ alert.uuid ∈ lines.map (·.context.alertUuid)
  /-- The line has the disposition that the alert had. -/
  old : ∀ line ∈ lines, line.context.alertUuid = alert.uuid →
    line.context.oldDisposition = alert.disposition
  /-- A changed alert is queued as dispositioned, if its location is a node of the database. -/
  queued : db'.Changed alert → disposition ≠ .ignore → alert.companyId.isSome →
    (∃ node ∈ db.nodes, node.2 = alert.location) → Queued db'.workload alert.uuid

variable {comment : Option String} {now userId : Nat}

theorem changed_iff {hset : ∀ alert, (set alert).uuid = alert.uuid}
    {disposition : Option Disposition} (hdisposition : (set alert).disposition = disposition)
    (hcondition : condition alert = some true → alert.disposition ≠ disposition)
    (hmem : alert ∈ db.alerts) :
    (((db.updateAlerts condition set hset).addCommentIfAny alertUuids userId
      comment).requeueUnlessIgnored now alertUuids disposition).Changed alert ↔
        condition alert = some true := by
  rw [Changed, alert?_congr ((alerts_requeueUnlessIgnored _ _ _).trans
    (alerts_addCommentIfAny _ _ _)), alert?_updateAlerts hset hmem]
  split_ifs with htrue
  · refine iff_of_true (fun hsame => hcondition htrue ?_) htrue
    rw [← hdisposition, Option.some.inj hsame]
  · exact iff_of_false (not_not.mpr rfl) htrue

theorem mem_lines_iff {disposition : Option Disposition} {line : DispositionContext → AuditLine}
    (hline : ∀ row, (line row).context = row) (hmem : alert ∈ db.alerts) :
    alert.uuid ∈ (((db.fetchDispositionContext alertUuids).filter
        (·.oldDisposition ≠ disposition)).map line).map (·.context.alertUuid) ↔
      alert.uuid ∈ alertUuids ∧ alert.disposition ≠ disposition := by
  simp only [map_map, mem_map, mem_filter, Function.comp_apply, hline,
    decide_eq_true_eq, mem_fetchDispositionContext]
  constructor
  · rintro ⟨row, ⟨⟨other, hother, huuids, rfl⟩, hold⟩, huuid⟩
    obtain rfl : other = alert := inj_on_of_nodup_map db.uuids hother hmem huuid
    exact ⟨huuids, hold⟩
  · rintro ⟨huuids, hold⟩
    exact ⟨db.context alert, ⟨⟨alert, hmem, huuids, rfl⟩, hold⟩, rfl⟩

theorem old_of_mem_lines {p : DispositionContext → Bool} {make : DispositionContext → AuditLine}
    (hmake : ∀ row, (make row).context = row) (hmem : alert ∈ db.alerts) {line : AuditLine}
    (hline : line ∈ ((db.fetchDispositionContext alertUuids).filter p).map make)
    (huuid : line.context.alertUuid = alert.uuid) :
    line.context.oldDisposition = alert.disposition := by
  obtain ⟨row, hrow, rfl⟩ := mem_map.mp hline
  obtain ⟨other, hother, -, rfl⟩ :=
    mem_fetchDispositionContext.mp (mem_of_mem_filter hrow)
  rw [hmake] at huuid ⊢
  obtain rfl : other = alert := inj_on_of_nodup_map db.uuids hother hmem huuid
  rfl

theorem nodup_lines (alertUuids : List String) (p : DispositionContext → Bool)
    {make : DispositionContext → AuditLine} (hmake : ∀ row, (make row).context = row) :
    ((((db.fetchDispositionContext alertUuids).filter p).map make).map
      (·.context.alertUuid)).Nodup := by
  have hcomp : (fun row => (make row).context.alertUuid) = (·.alertUuid) := by
    funext row
    rw [hmake]
  rw [map_map]
  show (List.map (fun row => (make row).context.alertUuid) _).Nodup
  rw [hcomp]
  exact (nodup_fetchDispositionContext alertUuids).sublist (filter_sublist.map _)

variable {disposition : Disposition}

theorem queued_of_updated (hset : ∀ alert, (set alert).uuid = alert.uuid)
    (hkept : ∀ alert, (set alert).companyId = alert.companyId ∧
      (set alert).location = alert.location)
    (now userId : Nat)
    (comment : Option String) (hmem : alert ∈ db.alerts) (huuid : alert.uuid ∈ alertUuids)
    (hignore : disposition ≠ .ignore) (hcompany : alert.companyId.isSome)
    (hnode : ∃ node ∈ db.nodes, node.2 = alert.location) :
    Queued (((db.updateAlerts condition set hset).addCommentIfAny alertUuids userId
      comment).requeueUnlessIgnored now alertUuids (some disposition)).workload alert.uuid := by
  rw [requeueUnlessIgnored, if_pos (by simpa using hignore)]
  -- the row of the alert after the update
  let row := if condition alert = some true then set alert else alert
  have hsame : row.uuid = alert.uuid ∧ row.companyId = alert.companyId ∧
      row.location = alert.location := by
    show (ite _ _ _ : AlertRow).uuid = _ ∧ (ite _ _ _ : AlertRow).companyId = _ ∧
      (ite _ _ _ : AlertRow).location = _
    split_ifs
    · exact ⟨hset alert, hkept alert⟩
    · exact ⟨rfl, rfl, rfl⟩
  obtain ⟨huuid', hcompany', hlocation'⟩ := hsame
  rw [← huuid']
  apply queued_requeue now
  · rw [alerts_addCommentIfAny]
    exact mem_map_of_mem hmem
  · rw [huuid']
    exact huuid
  · rw [hcompany']
    exact hcompany
  · rw [nodes_addCommentIfAny, hlocation']
    exact hnode

theorem isNot_eq_true_iff {column : Option Disposition} :
    isNot column (some disposition) = some true ↔ column ≠ none ∧ column ≠ some disposition := by
  cases column <;> simp [isNot, equals]

variable {lines : List AuditLine}

theorem changed_review_iff
    (hcall : db.setDispositionReviews now alertUuids .incorrect userId (some disposition) comment =
      some (db', lines)) (hmem : alert ∈ db.alerts) :
    db'.Changed alert ↔ (alert.disposition ≠ none ∧ alert.disposition ≠ some disposition) ∧
      alert.uuid ∈ alertUuids := by
  unfold setDispositionReviews at hcall
  split_ifs at hcall with hempty hreview
  · obtain ⟨rfl, -⟩ := Prod.mk.inj (Option.some.inj hcall)
    have hcondition : Truth.and (isNot alert.disposition (some disposition))
        (some (alert.uuid ∈ alertUuids)) = some true ↔
        (alert.disposition ≠ none ∧ alert.disposition ≠ some disposition) ∧
          alert.uuid ∈ alertUuids := by
      simp [isNot_eq_true_iff]
    exact (changed_iff rfl (fun htrue => (hcondition.mp htrue).1.2) hmem).trans hcondition
  · exact absurd rfl hreview

theorem told_review
    (hcall : db.setDispositionReviews now alertUuids .incorrect userId (some disposition) comment =
      some (db', lines)) (hmem : alert ∈ db.alerts) (hset : alert.disposition ≠ none) :
    Told db db' lines disposition alert := by
  have hchanged := changed_review_iff hcall hmem
  unfold setDispositionReviews at hcall
  split_ifs at hcall with hempty hreview
  · obtain ⟨rfl, rfl⟩ := Prod.mk.inj (Option.some.inj hcall)
    refine ⟨?_, fun line hline => ?_, fun hrow hignore hcompany hnode => ?_⟩
    · rw [hchanged, mem_lines_iff (fun _ => rfl) hmem]
      tauto
    · exact old_of_mem_lines (fun _ => rfl) hmem hline
    · refine queued_of_updated _ ?_ now userId _ hmem (hchanged.mp hrow).2 hignore hcompany hnode
      exact fun _ => ⟨rfl, rfl⟩
  · exact absurd rfl hreview

theorem preserved_review
    (hcall : db.setDispositionReviews now alertUuids .incorrect userId (some disposition) comment =
      some (db', lines)) (hmem : alert ∈ db.alerts) (hrow : db'.Changed alert)
    {line : AuditLine} (hline : line ∈ lines) (huuid : line.context.alertUuid = alert.uuid) :
    (db'.alert? alert.uuid).map (·.incorrectDisposition) = some line.context.oldDisposition := by
  have hchanged := (changed_review_iff hcall hmem).mp hrow
  have hold := (told_review hcall hmem hchanged.1.1).old line hline huuid
  unfold setDispositionReviews at hcall
  split_ifs at hcall with hempty hreview
  · obtain ⟨rfl, -⟩ := Prod.mk.inj (Option.some.inj hcall)
    rw [hold, alert?_congr ((alerts_requeueUnlessIgnored _ _ _).trans
      (alerts_addCommentIfAny _ _ _)), alert?_updateAlerts _ hmem, if_pos]
    · rfl
    · simp only [Truth.and_eq_true_iff, isNot_eq_true_iff, Option.some.injEq, decide_eq_true_eq]
      exact hchanged
  · exact absurd rfl hreview

theorem told_dispositions
    (hcall : db.setDispositions now alertUuids (some disposition) userId comment =
      some (db', lines)) (hmem : alert ∈ db.alerts) : Told db db' lines disposition alert := by
  unfold setDispositions at hcall
  split_ifs at hcall with hempty
  obtain ⟨rfl, rfl⟩ := Prod.mk.inj (Option.some.inj hcall)
  have hcondition : (Truth.and (Truth.or (isNull alert.disposition)
      (isNot alert.disposition (some disposition))) (some (alert.uuid ∈ alertUuids))) = some true ↔
      alert.uuid ∈ alertUuids ∧ alert.disposition ≠ some disposition := by
    cases alert.disposition <;> simp [isNot_eq_true_iff, isNull, and_comm]
  refine ⟨?_, fun line hline => ?_, fun hrow hignore hcompany hnode => ?_⟩
  · rw [mem_lines_iff (fun _ => rfl) hmem]
    exact (changed_iff rfl (fun htrue => (hcondition.mp htrue).2) hmem).trans hcondition
  · exact old_of_mem_lines (fun _ => rfl) hmem hline
  · replace hrow := hcondition.mp ((changed_iff rfl (fun htrue => (hcondition.mp htrue).2) hmem).mp hrow)
    refine queued_of_updated _ ?_ now userId _ hmem hrow.1 hignore hcompany hnode
    exact fun _ => ⟨rfl, rfl⟩

theorem nodup_review
    (hcall : db.setDispositionReviews now alertUuids .incorrect userId (some disposition) comment =
      some (db', lines)) : (lines.map (·.context.alertUuid)).Nodup := by
  unfold setDispositionReviews at hcall
  split_ifs at hcall with hempty hreview
  · obtain ⟨-, rfl⟩ := Prod.mk.inj (Option.some.inj hcall)
    exact nodup_lines _ _ fun _ => rfl
  · exact absurd rfl hreview

theorem nodup_dispositions
    (hcall : db.setDispositions now alertUuids (some disposition) userId comment =
      some (db', lines)) : (lines.map (·.context.alertUuid)).Nodup := by
  unfold setDispositions at hcall
  split_ifs at hcall with hempty
  obtain ⟨-, rfl⟩ := Prod.mk.inj (Option.some.inj hcall)
  exact nodup_lines _ _ fun _ => rfl

/-- An incorrect review and a call of `set_dispositions` emit one audit line for each alert they
change and for no other that has a disposition, and queue the changed ones unless ignored; the line
of a review has the disposition that the row preserves. -/
theorem dispositions_are_told (db : AlertDb) (now userId : Nat) (alertUuids : List String)
    (disposition : Disposition) (comment : Option String) :
    (∀ result ∈ db.setDispositionReviews now alertUuids .incorrect userId (some disposition)
        comment,
      (result.2.map (·.context.alertUuid)).Nodup ∧ ∀ alert ∈ db.alerts,
        (alert.disposition ≠ none → Told db result.1 result.2 disposition alert) ∧
        (result.1.Changed alert → ∀ line ∈ result.2, line.context.alertUuid = alert.uuid →
          (result.1.alert? alert.uuid).map (·.incorrectDisposition) =
            some line.context.oldDisposition)) ∧
    ∀ result ∈ db.setDispositions now alertUuids (some disposition) userId comment,
      (result.2.map (·.context.alertUuid)).Nodup ∧ ∀ alert ∈ db.alerts,
        Told db result.1 result.2 disposition alert := by
  constructor
  · rintro ⟨db', lines⟩ hcall
    exact ⟨nodup_review hcall, fun alert hmem => ⟨told_review hcall hmem,
      fun hrow line hline huuid => preserved_review hcall hmem hrow hline huuid⟩⟩
  · rintro ⟨db', lines⟩ hcall
    exact ⟨nodup_dispositions hcall, fun alert hmem => told_dispositions hcall hmem⟩

end AlertDb

def falsePositive : AlertDb where
  alerts := [⟨"a1", some 1, "node", "data/a1", 0, none, "tool", "host", "mail", none, "default",
    some .falsePositive, some 1, some 0, some 1, some 0, .unreviewed, none, none, none, none, none⟩]
  uuids := by decide
  workload := []
  comments := []
  company := [(1, "default")]
  users := [(1, "analyst"), (2, "reviewer")]
  nodes := [(1, "node")]

/-- The alert is told of when a review corrects it. -/
theorem dispositions_are_told_falsePositive :
    ∃ result ∈ falsePositive.setDispositionReviews 5 ["a1"] .incorrect 2 (some .delivery) none,
      ∀ alert ∈ falsePositive.alerts, AlertDb.Told falsePositive result.1 result.2 .delivery alert :=
  ⟨_, rfl, fun alert hmem =>
    ((AlertDb.dispositions_are_told falsePositive 5 2 ["a1"] .delivery none).1 _ rfl).2 alert hmem
      |>.1 (mem_singleton.mp hmem ▸ by decide)⟩

/-- A correction to `IGNORE` is audited, and the alert is not queued. -/
theorem ignored_alert_is_not_queued :
    ∃ result ∈ falsePositive.setDispositionReviews 5 ["a1"] .incorrect 2 (some .ignore) none,
      (result.1.alert? "a1").map (·.disposition) = some (some .ignore) ∧
      result.2.map (·.context.alertUuid) = ["a1"] ∧ result.1.workload = [] :=
  ⟨_, rfl, by decide, by decide, by decide⟩

end Ace3.Database
