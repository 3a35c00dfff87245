import Ace3.App.AlertFilters
import Ace3.Lib.FallibleMap
import Mathlib.Data.List.Forall2
import Mathlib.Data.List.Nodup
import Mathlib.Tactic.SplitIfs

/-!
# What Alert Filters Say

A plain entry holds of an alert if the alert, one of its tags or one of its observables matches one
of the values; an inverted entry holds if the plain one does not. The query selects the alerts that
meet every merged entry, except those without a tag where some entry is about tags, and those that
miss the column that an inverted entry is about.
-/

namespace Ace3.App

open List
open Lib.FallibleMap Lib.Sql

/-! ## §1 Meaning -/

namespace Tables

variable (db : Tables) (alert : Alert)

def ownerOf : Option User := db.users.find? fun user => alert.ownerId = some user.id

def dispositionUserOf : Option User :=
  db.users.find? fun user => alert.dispositionUserId = some user.id

def HasTag (tag : Tag) : Prop :=
  tag ∈ db.tags ∧ ∃ mapping ∈ db.tagMappings, mapping.alertId = alert.id ∧ mapping.tagId = tag.id

def HasObservable (o : Observable) : Prop :=
  o ∈ db.observables ∧
    ∃ mapping ∈ db.observableMappings, mapping.alertId = alert.id ∧ mapping.observableId = o.id

def ownerName : Option String := (db.ownerOf alert).bind (·.displayName)

def dispositionUserName : Option String := (db.dispositionUserOf alert).bind (·.displayName)

end Tables

/-- The column has the value. The value of a user without a display name asks for a missing one. -/
def IsValue (column : Option String) (value : FilterValue) : Prop := value = .text column

/-- The same, where the string `None` asks for a missing value. -/
def IsValueOrNone (column : Option String) (value : FilterValue) : Prop :=
  if value = .text (some "None") then column = none else IsValue column value

def IsBetween (rt : FilterRuntime) (column : Option Int) (value : FilterValue) : Prop :=
  ∃ text range t, value = .text (some text) ∧ rt.parseDateRange text = some range ∧
    column = some t ∧ range.1 ≤ t ∧ t ≤ range.2

def Contains (rt : FilterRuntime) (column : Option String) (value : FilterValue) : Prop :=
  ∃ text, column = some text ∧ rt.ilike ("%" ++ (match value with
    | .text value => value.getD "None"
    | .list values => rt.str values) ++ "%") text

def TagMatches (rt : FilterRuntime) (tag : Tag) (value : FilterValue) : Prop :=
  ∃ pattern, value = .text (some pattern) ∧ rt.ilike (replaceStars pattern) tag.name

def ObservableMatches (o : Observable) (value : FilterValue) : Prop :=
  ∃ type text, value.item 0 = some type ∧ value.item 1 = some (some text) ∧
    (type = some "Any" ∨ type = some o.type) ∧ o.value = text.toUTF8

def Matches (rt : FilterRuntime) (db : Tables) (alert : Alert) : FilterName → FilterValue → Prop
  | .alertDate => IsBetween rt alert.insertDate
  | .alertType => IsValue alert.alertType
  | .description => Contains rt alert.description
  | .disposition => IsValue alert.disposition
  | .dispositionBy => IsValueOrNone (db.dispositionUserName alert)
  | .dispositionDate => IsBetween rt alert.dispositionTime
  | .eventDate => IsBetween rt alert.eventTime
  | .observable => fun value => ∃ o, db.HasObservable alert o ∧ ObservableMatches o value
  | .owner => IsValueOrNone (db.ownerName alert)
  | .queue => IsValue alert.queue
  | .reviewed => IsValue alert.dispositionReview
  | .tag => fun value => ∃ tag, db.HasTag alert tag ∧ TagMatches rt tag value

def PlainHolds (rt : FilterRuntime) (db : Tables) (alert : Alert) (entry : FilterEntry) : Prop :=
  ∃ value ∈ entry.values, Matches rt db alert entry.name value

def Holds (rt : FilterRuntime) (db : Tables) (alert : Alert) (entry : FilterEntry) : Prop :=
  if entry.inverted then ¬ PlainHolds rt db alert entry else PlainHolds rt db alert entry

/-- The query of a filter list selects exactly the visible alerts of which every merged entry
holds. -/
def SelectsWhatItSays (rt : FilterRuntime) (gui : GuiConfig) (db : Tables) (currentUser : User)
    (filters : List FilterEntry) : Prop :=
  ∃ selected, buildAlertQuery rt gui db (resolveSavedFilter currentUser filters) = some selected ∧
    ∀ alert, alert ∈ selected ↔ alert ∈ db.alerts ∧ visible gui alert ∧
      ∀ entry ∈ resolveSavedFilter currentUser filters, Holds rt db alert entry

def Takes (rt : FilterRuntime) : FilterName → FilterValue → Prop
  | .alertDate | .dispositionDate | .eventDate => fun value =>
    ∃ text range, value = .text (some text) ∧ rt.parseDateRange text = some range
  | .description => fun _ => True
  | .observable => fun value =>
    (∃ type, value.item 0 = some type) ∧ ∃ text, value.item 1 = some (some text)
  | .tag => fun value => ∃ pattern, value = .text (some pattern)
  | _ => fun value => ∃ text, value = .text text

def Present (db : Tables) (alert : Alert) : FilterName → Prop
  | .description => alert.description ≠ none
  | .dispositionBy => db.dispositionUserName alert ≠ none
  | .dispositionDate => alert.dispositionTime ≠ none
  | .eventDate => alert.eventTime ≠ none
  | .owner => db.ownerName alert ≠ none
  | _ => True

/-- No alert that the filters are about is one that the query misses. -/
structure NothingMissing (rt : FilterRuntime) (gui : GuiConfig) (db : Tables)
    (merged : List FilterEntry) : Prop where
  takes : ∀ entry ∈ merged, ∀ value ∈ entry.values, Takes rt entry.name value
  tagged : hasFilter merged .tag → ∀ alert ∈ db.alerts, visible gui alert →
    (∀ entry ∈ merged, Holds rt db alert entry) → ∃ tag, db.HasTag alert tag
  present : ∀ entry ∈ merged, entry.inverted → ∀ alert ∈ db.alerts, visible gui alert →
    (∀ entry ∈ merged, Holds rt db alert entry) → Present db alert entry.name

/-! ## §2 Rows -/

variable {rt : FilterRuntime} {gui : GuiConfig} {db : Tables} {rows : List QueryRow}
  {row row' : QueryRow}

theorem find_eq_some_iff (db : Tables) {id : Option Nat} {user : User} :
    db.users.find? (fun user => id = some user.id) = some user ↔
      user ∈ db.users ∧ id = some user.id := by
  constructor
  · intro h
    exact ⟨List.mem_of_find?_eq_some h, by simpa using List.find?_some h⟩
  · rintro ⟨hmem, hid⟩
    cases hfind : db.users.find? (fun user => id = some user.id) with
    | none => exact absurd hid (by simpa using List.find?_eq_none.mp hfind user hmem)
    | some other =>
      have hother : id = some other.id := by simpa using List.find?_some hfind
      rw [hid, Option.some.injEq] at hother
      rw [inj_on_of_nodup_map db.users_nodup (List.mem_of_find?_eq_some hfind) hmem
        hother.symm]

theorem mem_joinUser {id : Alert → Option Nat} {set : QueryRow → User → QueryRow} :
    row' ∈ leftJoin (fun row user => equals (id row.alert) (some user.id)) set db.users rows ↔
      ∃ row ∈ rows, row' =
        match db.users.find? (fun user => id row.alert = some user.id) with
        | some user => set row user
        | none => row := by
  rw [mem_leftJoin]
  refine exists_congr fun row => and_congr_right fun _ => ?_
  simp only [ne_eq, equals_some_eq_true_iff]
  cases hfind : db.users.find? (fun user => id row.alert = some user.id) with
  | none =>
    have hnone : ∀ user ∈ db.users, id row.alert ≠ some user.id := by
      simpa using List.find?_eq_none.mp hfind
    constructor
    · rintro (⟨user, huser, hid, -⟩ | ⟨-, hrow⟩)
      · exact absurd hid (hnone user huser)
      · exact hrow
    · exact fun hrow => .inr ⟨hnone, hrow⟩
  | some user =>
    obtain ⟨hmem, hid⟩ := (find_eq_some_iff db).mp hfind
    constructor
    · rintro (⟨other, hother, hid', rfl⟩ | ⟨hnone, -⟩)
      · rw [(find_eq_some_iff db).mpr ⟨hother, hid'⟩, Option.some.injEq] at hfind
        rw [hfind]
      · exact absurd hid (hnone user hmem)
    · exact fun hrow => .inl ⟨user, hmem, hid, hrow⟩

theorem mem_joinOwner (hrows : ∀ row ∈ rows, row.owner = none) : row' ∈ joinOwner db rows ↔
    ∃ row ∈ rows, row' = { row with owner := db.ownerOf row.alert } := by
  rw [joinOwner, mem_joinUser]
  refine exists_congr fun row => and_congr_right fun hrow => ?_
  have hnone := hrows row hrow
  rw [Tables.ownerOf]
  cases hfind : db.users.find? (fun user => row.alert.ownerId = some user.id) with
  | none =>
    have hsame : { row with owner := none } = row := by rw [← hnone]
    exact ⟨fun h => h.trans hsame.symm, fun h => h.trans hsame⟩
  | some user => rfl

theorem mem_joinDispositionBy (hrows : ∀ row ∈ rows, row.dispositionBy = none) :
    row' ∈ joinDispositionBy db rows ↔
      ∃ row ∈ rows, row' = { row with dispositionBy := db.dispositionUserOf row.alert } := by
  rw [joinDispositionBy, mem_joinUser]
  refine exists_congr fun row => and_congr_right fun hrow => ?_
  have hnone := hrows row hrow
  rw [Tables.dispositionUserOf]
  cases hfind : db.users.find? (fun user => row.alert.dispositionUserId = some user.id) with
  | none =>
    have hsame : { row with dispositionBy := none } = row := by rw [← hnone]
    exact ⟨fun h => h.trans hsame.symm, fun h => h.trans hsame⟩
  | some user => rfl

/-- The rows differ in the columns of the observables only. -/
def SameButObservable (row row' : QueryRow) : Prop :=
  ∃ mapping o remediationMapping remediation,
    row' = { row with
      observableMapping := mapping, observable := o, remediationMapping, remediation }

theorem joinObservables_sound (hrows : ∀ row ∈ rows, row.observableMapping = none ∧
    row.observable = none) (hrow : row' ∈ joinObservables db rows) :
    ∃ row ∈ rows, SameButObservable row row' ∧
      ∀ o, row'.observable = some o → db.HasObservable row.alert o := by
  simp only [joinObservables] at hrow
  obtain ⟨row3, hrow3, hlast⟩ := mem_leftJoin.mp hrow
  obtain ⟨row2, hrow2, hthird⟩ := mem_leftJoin.mp hrow3
  obtain ⟨row1, hrow1, hsecond⟩ := mem_leftJoin.mp hrow2
  obtain ⟨row, hmem, hfirst⟩ := mem_leftJoin.mp hrow1
  obtain ⟨hmapping, hobservable⟩ := hrows row hmem
  have hsame1 : row1 = { row with observableMapping := row1.observableMapping } ∧
      ∀ mapping, row1.observableMapping = some mapping →
        mapping ∈ db.observableMappings ∧ mapping.alertId = row.alert.id := by
    rcases hfirst with ⟨mapping, hin, hon, rfl⟩ | ⟨-, rfl⟩
    · refine ⟨rfl, fun mapping' heq => ?_⟩
      cases heq
      exact ⟨hin, by simpa [eq_comm] using hon⟩
    · refine ⟨rfl, fun mapping' heq => ?_⟩
      rw [hmapping] at heq
      cases heq
  have hsame2 : row2 = { row1 with observable := row2.observable } ∧
      ∀ o, row2.observable = some o → db.HasObservable row.alert o := by
    rcases hsecond with ⟨o, hin, hon, rfl⟩ | ⟨-, rfl⟩
    · refine ⟨rfl, fun o' heq => ?_⟩
      cases heq
      rw [equals_some_eq_true_iff, Option.map_eq_some_iff] at hon
      obtain ⟨mapping, hmap, hid⟩ := hon
      exact ⟨hin, mapping, (hsame1.2 mapping hmap).1, (hsame1.2 mapping hmap).2, hid⟩
    · refine ⟨rfl, fun o' heq => ?_⟩
      rw [hsame1.1] at heq
      have hnone : row.observable = some o' := heq
      rw [hobservable] at hnone
      cases hnone
  refine ⟨row, hmem, ?_, ?_⟩
  · rw [hsame1.1] at hsame2
    rcases hthird with ⟨mapping, -, -, rfl⟩ | ⟨-, rfl⟩
    · rcases hlast with ⟨r, -, -, rfl⟩ | ⟨-, rfl⟩
      · exact ⟨_, _, _, _, by rw [hsame2.1]⟩
      · exact ⟨_, _, _, _, by rw [hsame2.1]⟩
    · rcases hlast with ⟨r, -, -, rfl⟩ | ⟨-, rfl⟩
      · exact ⟨_, _, _, _, by rw [hsame2.1]⟩
      · exact ⟨_, _, _, _, by rw [hsame2.1]⟩
  · have hkeep : row'.observable = row2.observable := by
      rcases hthird with ⟨mapping, -, -, rfl⟩ | ⟨-, rfl⟩
      · rcases hlast with ⟨r, -, -, rfl⟩ | ⟨-, rfl⟩
        · rfl
        · rfl
      · rcases hlast with ⟨r, -, -, rfl⟩ | ⟨-, rfl⟩
        · rfl
        · rfl
    rw [hkeep]
    exact hsame2.2

theorem exists_mem_joinRemediation (hrow : row ∈ rows) :
    ∃ row' ∈ joinRemediation db (joinRemediationMapping db rows),
      ∃ remediationMapping remediation, row' = { row with remediationMapping, remediation } := by
  have hmapping : ∃ row1 ∈ joinRemediationMapping db rows, row1 = row ∨
      ∃ mapping ∈ db.observableRemediationMappings,
        row1 = { row with remediationMapping := some mapping } := exists_mem_leftJoin hrow
  obtain ⟨row1, hrow1, hfirst⟩ := hmapping
  have hremediation : ∃ row2 ∈ joinRemediation db (joinRemediationMapping db rows), row2 = row1 ∨
      ∃ r ∈ db.remediations, row2 = { row1 with remediation := some r } :=
    exists_mem_leftJoin hrow1
  obtain ⟨row2, hrow2, hsecond⟩ := hremediation
  refine ⟨row2, hrow2, row2.remediationMapping, row2.remediation, ?_⟩
  rcases hfirst with rfl | ⟨mapping, -, rfl⟩
  · rcases hsecond with rfl | ⟨r, -, rfl⟩
    · rfl
    · rfl
  · rcases hsecond with rfl | ⟨r, -, rfl⟩
    · rfl
    · rfl

theorem joinObservables_complete (hrow : row ∈ rows) :
    (∃ row' ∈ joinObservables db rows, SameButObservable row row') ∧
    ∀ o, db.HasObservable row.alert o →
      ∃ row' ∈ joinObservables db rows, SameButObservable row row' ∧ row'.observable = some o := by
  constructor
  · have hmapping : ∃ row1 ∈ joinObservableMapping db rows, row1 = row ∨
        ∃ mapping ∈ db.observableMappings,
          row1 = { row with observableMapping := some mapping } := exists_mem_leftJoin hrow
    obtain ⟨row1, hrow1, hfirst⟩ := hmapping
    have hobservable : ∃ row2 ∈ joinObservable db (joinObservableMapping db rows), row2 = row1 ∨
        ∃ o ∈ db.observables, row2 = { row1 with observable := some o } :=
      exists_mem_leftJoin hrow1
    obtain ⟨row2, hrow2, hsecond⟩ := hobservable
    obtain ⟨row', hrow', remediationMapping, remediation, rfl⟩ := exists_mem_joinRemediation hrow2
    refine ⟨_, hrow', row2.observableMapping, row2.observable, remediationMapping, remediation, ?_⟩
    rcases hfirst with rfl | ⟨mapping, -, rfl⟩
    · rcases hsecond with rfl | ⟨o, -, rfl⟩
      · rfl
      · rfl
    · rcases hsecond with rfl | ⟨o, -, rfl⟩
      · rfl
      · rfl
  · rintro o ⟨ho, mapping, hmapping, halert, hid⟩
    have hrow1 : { row with observableMapping := some mapping } ∈ joinObservableMapping db rows :=
      mem_leftJoin.mpr ⟨row, hrow, .inl ⟨mapping, hmapping, by simp [halert], rfl⟩⟩
    have hrow2 : { row with observableMapping := some mapping, observable := some o } ∈
        joinObservable db (joinObservableMapping db rows) :=
      mem_leftJoin.mpr ⟨_, hrow1, .inl ⟨o, ho, by simp [equals, hid], rfl⟩⟩
    obtain ⟨row', hrow', remediationMapping, remediation, rfl⟩ := exists_mem_joinRemediation hrow2
    exact ⟨_, hrow', ⟨_, _, _, _, rfl⟩, rfl⟩

def SameButTag (row row' : QueryRow) : Prop :=
  ∃ mapping tag, row' = { row with tagMapping := mapping, tag }

theorem mem_joinTag (hrows : ∀ row ∈ rows, row.tagMapping = none)
    (hrow : row' ∈ joinTag db (joinTagMapping db rows)) :
    ∃ row ∈ rows, SameButTag row row' ∧ ∃ tag, row'.tag = some tag ∧ db.HasTag row.alert tag := by
  obtain ⟨row1, hrow1, tag, htag, hon, rfl⟩ := mem_join.mp hrow
  obtain ⟨row, hmem, hfirst⟩ := mem_leftJoin.mp hrow1
  rw [equals_some_eq_true_iff, Option.map_eq_some_iff] at hon
  obtain ⟨mapping, hmapping, hid⟩ := hon
  rcases hfirst with ⟨mapping', hin, hon', rfl⟩ | ⟨-, rfl⟩
  · cases hmapping
    exact ⟨row, hmem, ⟨_, _, rfl⟩, tag, rfl, htag, mapping, hin, by simpa [eq_comm] using hon', hid⟩
  · rw [hrows _ hmem] at hmapping
    cases hmapping

theorem joinTag_complete (hrow : row ∈ rows) {tag : Tag} (htag : db.HasTag row.alert tag) :
    ∃ row' ∈ joinTag db (joinTagMapping db rows), SameButTag row row' ∧ row'.tag = some tag := by
  obtain ⟨hin, mapping, hmapping, halert, hid⟩ := htag
  have hrow1 : { row with tagMapping := some mapping } ∈ joinTagMapping db rows :=
    mem_leftJoin.mpr ⟨row, hrow, .inl ⟨mapping, hmapping, by simp [halert], rfl⟩⟩
  have hrow2 : { row with tagMapping := some mapping, tag := some tag } ∈
      joinTag db (joinTagMapping db rows) :=
    mem_join.mpr ⟨_, hrow1, tag, hin, by simp [equals, hid], rfl⟩
  exact ⟨_, hrow2, ⟨_, _, rfl⟩, rfl⟩

structure RowOf (db : Tables) (filters : List FilterEntry) (row : QueryRow) : Prop where
  alert : row.alert ∈ db.alerts
  owner : row.owner = db.ownerOf row.alert
  dispositionBy : hasFilter filters .dispositionBy →
    row.dispositionBy = db.dispositionUserOf row.alert
  observable : ∀ o, row.observable = some o → db.HasObservable row.alert o
  tag : ∀ tag, row.tag = some tag → db.HasTag row.alert tag
  tagged : hasFilter filters .tag → row.tag ≠ none

variable {filters : List FilterEntry} {alert : Alert}

/-- The row of an alert before the tables of many rows are joined. -/
def baseRow (db : Tables) (filters : List FilterEntry) (alert : Alert) : QueryRow where
  alert := alert
  owner := db.ownerOf alert
  dispositionBy :=
    if hasFilter filters .dispositionBy then db.dispositionUserOf alert else none
  observableMapping := none
  observable := none
  remediationMapping := none
  remediation := none
  tagMapping := none
  tag := none

def userRows (db : Tables) (filters : List FilterEntry) : List QueryRow :=
  let rows := joinOwner db
    (db.alerts.map fun alert => ⟨alert, none, none, none, none, none, none, none, none⟩)
  if hasFilter filters .dispositionBy then joinDispositionBy db rows else rows

def observableRows (db : Tables) (filters : List FilterEntry) : List QueryRow :=
  if hasFilter filters .observable then joinObservables db (userRows db filters)
  else userRows db filters

theorem joinedRows_eq : joinedRows db filters =
    if hasFilter filters .tag then joinTag db (joinTagMapping db (observableRows db filters))
    else observableRows db filters := rfl

theorem mem_userRows : row ∈ userRows db filters ↔
    ∃ alert ∈ db.alerts, row = baseRow db filters alert := by
  have howner : ∀ row, row ∈ joinOwner db (db.alerts.map fun alert =>
      (⟨alert, none, none, none, none, none, none, none, none⟩ : QueryRow)) ↔ ∃ alert ∈ db.alerts,
        row = ⟨alert, db.ownerOf alert, none, none, none, none, none, none, none⟩ := by
    intro row
    rw [mem_joinOwner]
    · simp only [mem_map]
      constructor
      · rintro ⟨_, ⟨alert, halert, rfl⟩, rfl⟩
        exact ⟨alert, halert, rfl⟩
      · rintro ⟨alert, halert, rfl⟩
        exact ⟨_, ⟨alert, halert, rfl⟩, rfl⟩
    · intro row hrow
      obtain ⟨alert, -, rfl⟩ := mem_map.mp hrow
      rfl
  rw [userRows]
  by_cases hfilter : hasFilter filters .dispositionBy = true
  · simp only [hfilter, if_true, baseRow]
    rw [mem_joinDispositionBy]
    · constructor
      · rintro ⟨row, hrow, rfl⟩
        obtain ⟨alert, halert, rfl⟩ := (howner row).mp hrow
        exact ⟨alert, halert, rfl⟩
      · rintro ⟨alert, halert, rfl⟩
        exact ⟨_, (howner _).mpr ⟨alert, halert, rfl⟩, rfl⟩
    · intro row hrow
      obtain ⟨alert, -, rfl⟩ := (howner row).mp hrow
      rfl
  · simp only [hfilter, Bool.false_eq_true, if_false, baseRow]
    exact howner row

theorem mem_observableRows (hrow : row ∈ observableRows db filters) :
    ∃ alert ∈ db.alerts, SameButObservable (baseRow db filters alert) row ∧
      ∀ o, row.observable = some o → db.HasObservable alert o := by
  rw [observableRows] at hrow
  split_ifs at hrow with hfilter
  · obtain ⟨base, hbase, hsame, hobservable⟩ := joinObservables_sound (fun row hrow => by
      obtain ⟨alert, -, rfl⟩ := mem_userRows.mp hrow
      exact ⟨rfl, rfl⟩) hrow
    obtain ⟨alert, halert, rfl⟩ := mem_userRows.mp hbase
    exact ⟨alert, halert, hsame, hobservable⟩
  · obtain ⟨alert, halert, rfl⟩ := mem_userRows.mp hrow
    exact ⟨alert, halert, ⟨_, _, _, _, rfl⟩, fun o ho => nomatch ho⟩

theorem rowOf_of_mem (hrow : row ∈ joinedRows db filters) : RowOf db filters row := by
  have hbase : ∀ {alert : Alert} {row : QueryRow}, alert ∈ db.alerts →
      SameButObservable (baseRow db filters alert) row →
      row.alert = alert ∧ row.owner = db.ownerOf alert ∧ (hasFilter filters .dispositionBy →
        row.dispositionBy = db.dispositionUserOf alert) ∧ row.tag = none ∧
        row.tagMapping = none := by
    rintro alert row halert ⟨mapping, o, remediationMapping, remediation, rfl⟩
    exact ⟨rfl, rfl, fun hfilter => if_pos hfilter, rfl, rfl⟩
  rw [joinedRows_eq] at hrow
  split_ifs at hrow with hfilter
  · obtain ⟨row1, hrow1, ⟨mapping, tag, rfl⟩, tag', htag', hhas⟩ := mem_joinTag (fun row hrow => by
      obtain ⟨alert, halert, hsame, -⟩ := mem_observableRows hrow
      exact (hbase halert hsame).2.2.2.2) hrow
    obtain ⟨alert, halert, hsame, hobservable⟩ := mem_observableRows hrow1
    obtain ⟨rfl, howner, hdisposition, -, -⟩ := hbase halert hsame
    refine ⟨halert, howner, hdisposition, hobservable, ?_, ?_⟩
    · intro tag'' htag''
      have heq : some tag' = some tag'' := htag'.symm.trans htag''
      cases heq
      exact hhas
    · intro _ hnone
      rw [htag'] at hnone
      cases hnone
  · obtain ⟨alert, halert, hsame, hobservable⟩ := mem_observableRows hrow
    obtain ⟨rfl, howner, hdisposition, hnone, -⟩ := hbase halert hsame
    refine ⟨halert, howner, hdisposition, hobservable, ?_, fun htag => absurd htag hfilter⟩
    intro tag htag
    rw [hnone] at htag
    cases htag

theorem exists_joinedRow (halert : alert ∈ db.alerts) {choice : Option Observable}
    (hchoice : ∀ o, choice = some o → hasFilter filters .observable ∧ db.HasObservable alert o)
    {label : Option Tag} (hlabel : ∀ tag, label = some tag → db.HasTag alert tag)
    (htagged : hasFilter filters .tag → label ≠ none) :
    ∃ row ∈ joinedRows db filters, row.alert = alert ∧
      (∀ o, choice = some o → row.observable = some o) ∧
      (hasFilter filters .tag → row.tag = label) := by
  have hbase : baseRow db filters alert ∈ userRows db filters :=
    mem_userRows.mpr ⟨alert, halert, rfl⟩
  have hobservable : ∃ row ∈ observableRows db filters, row.alert = alert ∧
      ∀ o, choice = some o → row.observable = some o := by
    rw [observableRows]
    obtain ⟨hany, heach⟩ := joinObservables_complete hbase
    cases choice with
    | none =>
      split_ifs
      · obtain ⟨row, hrow, _, _, _, _, rfl⟩ := hany
        exact ⟨_, hrow, rfl, fun o ho => nomatch ho⟩
      · exact ⟨_, hbase, rfl, fun o ho => nomatch ho⟩
    | some o =>
      obtain ⟨hfilter, hhas⟩ := hchoice o rfl
      rw [if_pos hfilter]
      obtain ⟨row, hrow, ⟨_, _, _, _, rfl⟩, ho⟩ := heach o hhas
      refine ⟨_, hrow, rfl, fun o' ho' => ?_⟩
      cases ho'
      exact ho
  obtain ⟨row, hrow, halert', hrest⟩ := hobservable
  rw [joinedRows_eq]
  split_ifs with hfilter
  · cases hlabel' : label with
    | none => exact absurd hlabel' (htagged hfilter)
    | some tag =>
      obtain ⟨row', hrow', ⟨_, _, rfl⟩, htag⟩ :=
        joinTag_complete hrow (halert' ▸ hlabel tag hlabel')
      exact ⟨_, hrow', halert', hrest, fun _ => htag⟩
  · exact ⟨row, hrow, halert', hrest, fun h => absurd h hfilter⟩

/-! ## §3 Conditions -/

/-- A condition is true where something matches, and false where a value is there and does not. -/
structure Decides (t : Truth) (present isMatch : Prop) : Prop where
  true_iff : t = some true ↔ isMatch
  false_iff : t = some false ↔ present ∧ ¬ isMatch

theorem decides_holds {α : Type*} (column : Option α) (p : α → Bool) :
    Decides (holds column p) (column ≠ none) (∃ a, column = some a ∧ p a) where
  true_iff := holds_eq_true_iff
  false_iff := by rw [holds_eq_false_iff, ne_eq, ne_eq, holds_eq_true_iff]

theorem decides_isNull {α : Type*} (column : Option α) :
    Decides (isNull column) (column ≠ none) (column = none) := by
  cases column with
  | none => exact ⟨by simp [isNull], by simp [isNull]⟩
  | some a => exact ⟨by simp [isNull], by simp [isNull]⟩

theorem Decides.congr {t : Truth} {present isMatch isMatch' : Prop} (h : Decides t present isMatch)
    (hmatch : isMatch ↔ isMatch') : Decides t present isMatch' :=
  ⟨h.true_iff.trans hmatch, by rw [h.false_iff, hmatch]⟩

variable {values : List FilterValue} {isMatch : FilterValue → Prop}

theorem anyOf_eq_true_iff_of_forall₂ {χ : Type*} {conditions : List (χ → Truth)} {x : χ}
    (h : List.Forall₂ (fun value condition => condition x = some true ↔ isMatch value) values
      conditions) :
    Truth.anyOf (conditions.map (· x)) = some true ↔ ∃ value ∈ values, isMatch value := by
  rw [Truth.anyOf_eq_true_iff]
  induction h with
  | nil => simp
  | cons hfirst _ ih =>
    rw [map_cons, mem_cons, ih, exists_mem_cons_iff, ← hfirst, eq_comm]

theorem decides_anyOf {χ : Type*} {conditions : List (χ → Truth)} {x : χ} {present : Prop}
    (hne : values ≠ [])
    (h : List.Forall₂ (fun value condition => Decides (condition x) present (isMatch value)) values
      conditions) :
    Decides (Truth.anyOf (conditions.map (· x))) present (∃ value ∈ values, isMatch value) := by
  have hfalse : (∀ t ∈ conditions.map (· x), t = some false) ↔
      ∀ value ∈ values, present ∧ ¬ isMatch value := by
    clear hne
    induction h with
    | nil => simp
    | cons hfirst _ ih =>
      rw [map_cons, forall_mem_cons, ih, forall_mem_cons, hfirst.false_iff]
  refine ⟨anyOf_eq_true_iff_of_forall₂ (h.imp fun _ _ hdecides => hdecides.true_iff),
    Truth.anyOf_eq_false_iff.trans (hfalse.trans ?_)⟩
  constructor
  · intro hall
    obtain ⟨value, hvalue⟩ := exists_mem_of_ne_nil _ hne
    exact ⟨(hall value hvalue).1, fun ⟨value, hvalue, hmatch⟩ => (hall value hvalue).2 hmatch⟩
  · rintro ⟨hpresent, hnone⟩ value hvalue
    exact ⟨hpresent, fun hmatch => hnone ⟨value, hvalue, hmatch⟩⟩

variable {condition : QueryRow → Truth} {inverted : Bool}

theorem invertIf_eq_true_iff {present isMatch : Prop} (h : Decides (condition row) present isMatch) :
    invertIf inverted condition row = some true ↔
      if inverted then present ∧ ¬ isMatch else isMatch := by
  cases inverted with
  | false => exact h.true_iff
  | true =>
    show Truth.not (condition row) = some true ↔ _
    rw [Truth.not_eq_true_iff]
    exact h.false_iff

theorem apply_values_eq_true_iff {f : FilterValue → Option (QueryRow → Truth)} {present : Prop}
    (hne : values ≠ [])
    (hcondition : (do
      let conditions ← values.mapM f
      return invertIf inverted fun row => Truth.anyOf (conditions.map (· row))) = some condition)
    (h : ∀ value condition, f value = some condition →
      Decides (condition row) present (isMatch value)) :
    condition row = some true ↔
      if inverted then present ∧ ¬ ∃ value ∈ values, isMatch value
      else ∃ value ∈ values, isMatch value := by
  simp only [Option.bind_eq_bind, Option.bind_eq_some_iff, Option.pure_def,
    Option.some.injEq] at hcondition
  obtain ⟨conditions, hconditions, rfl⟩ := hcondition
  apply invertIf_eq_true_iff
  exact decides_anyOf hne ((mapM_eq_some_iff.mp hconditions).imp fun value c hc => h value c hc)

variable {value : FilterValue} {column : Column}

theorem filterCondition_exact
    (h : filterCondition rt column false true false value = some condition) :
    Decides (condition row) (column.value row ≠ none) (IsValue (column.value row) value) := by
  simp only [filterCondition, Bool.false_eq_true, and_false, if_false, if_true] at h
  cases value with
  | list values => cases h
  | text value =>
    cases value with
    | none =>
      cases h
      exact (decides_isNull _).congr (by simp [IsValue, eq_comm])
    | some value =>
      cases h
      exact (decides_holds _ _).congr (by simp [IsValue, eq_comm])

theorem filterCondition_nullable
    (h : filterCondition rt column true true false value = some condition) :
    Decides (condition row) (column.value row ≠ none) (IsValueOrNone (column.value row) value) := by
  by_cases hnone : value = .text (some "None")
  · simp only [filterCondition, hnone, and_self, if_true] at h
    cases h
    exact (decides_isNull _).congr (by rw [IsValueOrNone, if_pos hnone])
  · have hexact : filterCondition rt column false true false value = some condition := by
      rw [← h]
      simp only [filterCondition, hnone, false_and, if_false]
    exact (filterCondition_exact hexact).congr (by rw [IsValueOrNone, if_neg hnone])

theorem filterCondition_tag
    (h : filterCondition rt .tagName false false true value = some condition) :
    condition row = some true ↔ ∃ tag, row.tag = some tag ∧ TagMatches rt tag value := by
  simp only [filterCondition, Bool.false_eq_true, and_false, if_false, if_true] at h
  cases value with
  | list values => cases h
  | text value =>
    cases value with
    | none => cases h
    | some pattern =>
      cases h
      rw [holds_eq_true_iff]
      simp only [Column.value, Option.map_eq_some_iff, TagMatches, FilterValue.text.injEq,
        Option.some.injEq]
      constructor
      · rintro ⟨_, ⟨tag, htag, rfl⟩, hlike⟩
        exact ⟨tag, htag, pattern, rfl, hlike⟩
      · rintro ⟨tag, htag, _, rfl, hlike⟩
        exact ⟨_, ⟨tag, htag, rfl⟩, hlike⟩

theorem textCondition_spec (h : textCondition rt column value = some condition) :
    Decides (condition row) (column.value row ≠ none) (Contains rt (column.value row) value) := by
  cases h
  exact decides_holds _ _

theorem dateRangeCondition_spec {column : DateColumn}
    (h : dateRangeCondition rt column value = some condition) :
    Decides (condition row) (column.value row ≠ none) (IsBetween rt (column.value row) value) := by
  cases value with
  | list values => cases h
  | text value =>
    cases value with
    | none => cases h
    | some text =>
      obtain ⟨range, hrange, rfl⟩ := Option.map_eq_some_iff.mp h
      have hboth : Truth.and (holds (column.value row) (range.1 ≤ ·))
          (holds (column.value row) (· ≤ range.2)) =
          holds (column.value row) fun t => range.1 ≤ t ∧ t ≤ range.2 := by
        cases column.value row with
        | none => rfl
        | some t =>
          by_cases hstart : range.1 ≤ t
          · by_cases hend : t ≤ range.2
            · simp [holds, Truth.and, hstart, hend]
            · simp [holds, Truth.and, hstart, hend]
          · by_cases hend : t ≤ range.2
            · simp [holds, Truth.and, hstart, hend]
            · simp [holds, Truth.and, hstart, hend]
      show Decides (Truth.and _ _) _ _
      rw [hboth]
      refine (decides_holds _ _).congr ?_
      simp only [IsBetween, FilterValue.text.injEq, Option.some.injEq, decide_eq_true_eq]
      constructor
      · rintro ⟨t, ht, hstart, hend⟩
        exact ⟨text, range, t, rfl, hrange, ht, hstart, hend⟩
      · rintro ⟨_, range', t, rfl, hrange', ht, hstart, hend⟩
        rw [hrange] at hrange'
        cases hrange'
        exact ⟨t, ht, hstart, hend⟩

theorem typeValueCondition_spec {condition : Option Observable → Truth}
    (h : typeValueCondition value = some condition) {o : Option Observable} :
    condition o = some true ↔ ∃ o', o = some o' ∧ ObservableMatches o' value := by
  simp only [typeValueCondition, Option.bind_eq_bind, Option.bind_eq_some_iff, Option.pure_def] at h
  obtain ⟨type, htype, item, hitem, text, rfl, h⟩ := h
  have hmatches : ∀ o' : Observable, ObservableMatches o' value ↔
      (type = some "Any" ∨ type = some o'.type) ∧ o'.value = text.toUTF8 := by
    intro o'
    constructor
    · rintro ⟨type', text', htype', htext', hrest⟩
      rw [htype] at htype'
      rw [hitem] at htext'
      cases htype'
      cases htext'
      exact hrest
    · exact fun hrest => ⟨type, text, htype, hitem, hrest⟩
  simp only [hmatches]
  by_cases hany : type = some "Any"
  · rw [if_pos hany] at h
    cases h
    rw [equals_some_eq_true_iff, Option.map_eq_some_iff]
    simp [hany]
  · rw [if_neg hany] at h
    cases h
    rw [Truth.and_eq_true_iff, equals_some_eq_true_iff, Option.map_eq_some_iff]
    cases o with
    | none => simp
    | some o' =>
      cases type with
      | none => simp [isNull]
      | some type =>
        simp only [Option.map_some, equals_some_eq_true_iff, Option.some.injEq, exists_eq_left']
        simp only [Option.some.injEq] at hany
        simp [hany, eq_comm]

def RowMatches (rt : FilterRuntime) (db : Tables) (row : QueryRow) :
    FilterName → FilterValue → Prop
  | .tag => fun value => ∃ tag, row.tag = some tag ∧ TagMatches rt tag value
  | .observable => fun value => ∃ o, row.observable = some o ∧ ObservableMatches o value
  | name => Matches rt db row.alert name

def RowMeets (rt : FilterRuntime) (db : Tables) (row : QueryRow) (entry : FilterEntry) : Prop :=
  if entry.inverted then Present db row.alert entry.name ∧ ¬ PlainHolds rt db row.alert entry
  else ∃ value ∈ entry.values, RowMatches rt db row entry.name value

theorem mem_taggedRows : row' ∈ taggedRows db row ↔ ∃ tag mapping, db.HasTag row.alert tag ∧
    mapping ∈ db.tagMappings ∧ mapping.alertId = row.alert.id ∧ mapping.tagId = tag.id ∧
    row' = { row with tagMapping := some mapping, tag := some tag } := by
  simp only [taggedRows, mem_flatMap, mem_map, mem_filter, decide_eq_true_eq]
  constructor
  · rintro ⟨mapping, hmapping, tag, ⟨htag, hid, halert⟩, rfl⟩
    exact ⟨tag, mapping, ⟨htag, mapping, hmapping, halert, hid⟩, hmapping, halert, hid, rfl⟩
  · rintro ⟨tag, mapping, ⟨htag, -⟩, hmapping, halert, hid, rfl⟩
    exact ⟨mapping, hmapping, tag, ⟨htag, hid, halert⟩, rfl⟩

theorem mem_observablesIn {o : Observable} :
    o ∈ observablesIn db row ↔ db.HasObservable row.alert o := by
  simp only [observablesIn, mem_flatMap, mem_filter, decide_eq_true_eq]
  constructor
  · rintro ⟨mapping, hmapping, ho, hid, halert⟩
    exact ⟨ho, mapping, hmapping, halert, hid⟩
  · rintro ⟨ho, mapping, hmapping, halert, hid⟩
    exact ⟨mapping, hmapping, ho, hid, halert⟩

theorem apply_tag (h : (AlertFilter.filter .tagName false false true).apply rt db inverted values =
      some condition) :
    condition row = some true ↔
      if inverted then ¬ ∃ value ∈ values, Matches rt db row.alert .tag value
      else ∃ value ∈ values, RowMatches rt db row .tag value := by
  simp only [AlertFilter.apply, Option.bind_eq_bind, Option.bind_eq_some_iff, Option.pure_def] at h
  obtain ⟨conditions, hconditions, h⟩ := h
  have hany : ∀ row, Truth.anyOf (conditions.map (· row)) = some true ↔
      ∃ value ∈ values, RowMatches rt db row .tag value := by
    intro row
    apply anyOf_eq_true_iff_of_forall₂
    exact (mapM_eq_some_iff.mp hconditions).imp fun value c hc => filterCondition_tag hc
  cases inverted with
  | false =>
    simp only [Bool.false_eq_true, false_and, if_false, Option.some.injEq] at h
    subst h
    exact hany row
  | true =>
    simp only [and_self, if_true, Option.some.injEq] at h
    subst h
    rw [Truth.not_eq_true_iff, existsIn_eq_false_iff, ne_eq, existsIn_eq_true_iff, if_pos rfl]
    apply not_congr
    simp only [hany, mem_taggedRows]
    constructor
    · rintro ⟨_, ⟨tag, mapping, hhas, -, -, -, rfl⟩, value, hvalue, tag', htag', hmatch⟩
      cases htag'
      exact ⟨value, hvalue, tag, hhas, hmatch⟩
    · rintro ⟨value, hvalue, tag, hhas, hmatch⟩
      have hmapped := hhas.2
      obtain ⟨mapping, hmapping, halert, hid⟩ := hmapped
      exact ⟨_, ⟨tag, mapping, hhas, hmapping, halert, hid, rfl⟩, value, hvalue, tag, rfl, hmatch⟩

theorem apply_observable (h : AlertFilter.typeValue.apply rt db inverted values = some condition) :
    condition row = some true ↔
      if inverted then ¬ ∃ value ∈ values, Matches rt db row.alert .observable value
      else ∃ value ∈ values, RowMatches rt db row .observable value := by
  simp only [AlertFilter.apply, Option.bind_eq_bind, Option.bind_eq_some_iff, Option.pure_def] at h
  obtain ⟨conditions, hconditions, h⟩ := h
  have hany : ∀ o : Option Observable, Truth.anyOf (conditions.map (· o)) = some true ↔
      ∃ value ∈ values, ∃ o', o = some o' ∧ ObservableMatches o' value := by
    intro o
    apply anyOf_eq_true_iff_of_forall₂
    exact (mapM_eq_some_iff.mp hconditions).imp fun value c hc => typeValueCondition_spec hc
  cases inverted with
  | false =>
    simp only [Bool.false_eq_true, if_false, Option.some.injEq] at h
    subst h
    exact hany row.observable
  | true =>
    simp only [if_true, Option.some.injEq] at h
    subst h
    rw [Truth.not_eq_true_iff, existsIn_eq_false_iff, ne_eq, existsIn_eq_true_iff, if_pos rfl]
    apply not_congr
    simp only [hany, mem_observablesIn]
    constructor
    · rintro ⟨o, hhas, value, hvalue, o', ho', hmatch⟩
      cases ho'
      exact ⟨value, hvalue, o, hhas, hmatch⟩
    · rintro ⟨value, hvalue, o, hhas, hmatch⟩
      exact ⟨o, hhas, value, hvalue, o, rfl, hmatch⟩

theorem apply_filter (hcolumn : column ≠ .tagName)
    {nullable caseSensitive wildcardable inverted : Bool} :
    (AlertFilter.filter column nullable caseSensitive wildcardable).apply rt db inverted values =
      (do
        let conditions ← values.mapM
          (filterCondition rt column nullable caseSensitive wildcardable)
        return invertIf inverted fun row => Truth.anyOf (conditions.map (· row))) := by
  simp only [AlertFilter.apply, hcolumn, and_false, if_false]

variable {entry : FilterEntry}

theorem apply_eq_true_iff (hentry : entry ∈ filters) (hrow : RowOf db filters row)
    (h : (createFilter entry.name).apply rt db entry.inverted entry.values = some condition) :
    condition row = some true ↔ RowMeets rt db row entry := by
  have hne := entry.values_ne
  rw [RowMeets, PlainHolds]
  cases hname : entry.name with
  | tag =>
    rw [hname] at h
    rw [apply_tag h]
    simp [Present]
  | observable =>
    rw [hname] at h
    rw [apply_observable h]
    simp [Present]
  | alertType =>
    rw [hname, createFilter, apply_filter (by simp)] at h
    rw [apply_values_eq_true_iff hne h fun _ _ hc => filterCondition_exact hc]
    simp [Present, RowMatches, Matches, Column.value]
  | disposition =>
    rw [hname, createFilter, apply_filter (by simp)] at h
    rw [apply_values_eq_true_iff hne h fun _ _ hc => filterCondition_exact hc]
    simp [Present, RowMatches, Matches, Column.value]
  | queue =>
    rw [hname, createFilter, apply_filter (by simp)] at h
    rw [apply_values_eq_true_iff hne h fun _ _ hc => filterCondition_exact hc]
    simp [Present, RowMatches, Matches, Column.value]
  | reviewed =>
    rw [hname, createFilter, apply_filter (by simp)] at h
    rw [apply_values_eq_true_iff hne h fun _ _ hc => filterCondition_exact hc]
    simp [Present, RowMatches, Matches, Column.value]
  | owner =>
    rw [hname, createFilter, apply_filter (by simp)] at h
    rw [apply_values_eq_true_iff hne h fun _ _ hc => filterCondition_nullable hc]
    simp only [Present, RowMatches, Matches, Column.value, hrow.owner, Tables.ownerName]
  | dispositionBy =>
    have hfilter : hasFilter filters .dispositionBy = true :=
      any_eq_true.mpr ⟨entry, hentry, decide_eq_true hname⟩
    rw [hname, createFilter, apply_filter (by simp)] at h
    rw [apply_values_eq_true_iff hne h fun _ _ hc => filterCondition_nullable hc]
    simp only [Present, RowMatches, Matches, Column.value, hrow.dispositionBy hfilter,
      Tables.dispositionUserName]
  | description =>
    rw [hname] at h
    rw [apply_values_eq_true_iff hne h fun _ _ hc => textCondition_spec hc]
    simp only [Present, RowMatches, Matches, Column.value]
  | alertDate =>
    rw [hname] at h
    rw [apply_values_eq_true_iff hne h fun _ _ hc => dateRangeCondition_spec hc]
    simp [Present, RowMatches, Matches, DateColumn.value]
  | dispositionDate =>
    rw [hname] at h
    rw [apply_values_eq_true_iff hne h fun _ _ hc => dateRangeCondition_spec hc]
    simp only [Present, RowMatches, Matches, DateColumn.value]
  | eventDate =>
    rw [hname] at h
    rw [apply_values_eq_true_iff hne h fun _ _ hc => dateRangeCondition_spec hc]
    simp only [Present, RowMatches, Matches, DateColumn.value]

theorem exists_bind_mapM_iff {α β γ : Type} {f : α → Option β} {g : List β → Option γ}
    {items : List α} (hg : ∀ results, ∃ result, g results = some result) :
    (∃ result, (items.mapM f).bind g = some result) ↔ ∀ item ∈ items, ∃ b, f item = some b := by
  rw [← exists_mapM_iff]
  simp only [Option.bind_eq_some_iff]
  constructor
  · rintro ⟨result, results, hresults, -⟩
    exact ⟨results, hresults⟩
  · rintro ⟨results, hresults⟩
    obtain ⟨result, hresult⟩ := hg results
    exact ⟨result, results, hresults, hresult⟩

theorem apply_ne_none_iff (filter : AlertFilter) :
    (∃ condition, filter.apply rt db inverted values = some condition) ↔
      ∀ value ∈ values, match filter with
        | .filter column nullable caseSensitive wildcardable => ∃ condition,
          filterCondition rt column nullable caseSensitive wildcardable value = some condition
        | .text column => ∃ condition, textCondition rt column value = some condition
        | .dateRange column => ∃ condition, dateRangeCondition rt column value = some condition
        | .typeValue => ∃ condition, typeValueCondition value = some condition := by
  cases filter with
  | filter column nullable caseSensitive wildcardable =>
    refine exists_bind_mapM_iff fun conditions => ?_
    by_cases htag : inverted = true ∧ column = .tagName
    · exact ⟨_, if_pos htag⟩
    · exact ⟨_, if_neg htag⟩
  | text column => exact exists_bind_mapM_iff fun _ => ⟨_, rfl⟩
  | dateRange column => exact exists_bind_mapM_iff fun _ => ⟨_, rfl⟩
  | typeValue =>
    refine exists_bind_mapM_iff fun conditions => ?_
    by_cases hinverted : inverted = true
    · exact ⟨_, if_pos hinverted⟩
    · exact ⟨_, if_neg hinverted⟩

theorem filterCondition_ne_none_iff {nullable : Bool} :
    (∃ condition, filterCondition rt column nullable true false value = some condition) ↔
      ∃ text, value = .text text := by
  by_cases hnone : value = .text (some "None") ∧ nullable = true
  · simp [filterCondition, hnone]
  · simp only [filterCondition, hnone, if_false]
    cases value with
    | list values => simp
    | text value => cases value <;> simp

theorem filterCondition_tag_ne_none_iff :
    (∃ condition, filterCondition rt .tagName false false true value = some condition) ↔
      ∃ pattern, value = .text (some pattern) := by
  simp only [filterCondition, Bool.false_eq_true, and_false, if_false, if_true]
  cases value with
  | list values => simp
  | text value => cases value <;> simp

theorem dateRangeCondition_ne_none_iff {column : DateColumn} :
    (∃ condition, dateRangeCondition rt column value = some condition) ↔
      ∃ text range, value = .text (some text) ∧ rt.parseDateRange text = some range := by
  cases value with
  | list values => simp [dateRangeCondition]
  | text value =>
    cases value with
    | none => simp [dateRangeCondition]
    | some text => simp [dateRangeCondition, Option.map_eq_some_iff]

theorem typeValueCondition_ne_none_iff :
    (∃ condition, typeValueCondition value = some condition) ↔
      (∃ type, value.item 0 = some type) ∧ ∃ text, value.item 1 = some (some text) := by
  simp only [typeValueCondition, Option.bind_eq_bind, Option.bind_eq_some_iff, Option.pure_def]
  constructor
  · rintro ⟨_, type, htype, _, hitem, text, rfl, -⟩
    exact ⟨⟨type, htype⟩, text, hitem⟩
  · rintro ⟨⟨type, htype⟩, text, hitem⟩
    by_cases hany : type = some "Any"
    · exact ⟨_, type, htype, some text, hitem, text, rfl, if_pos hany⟩
    · exact ⟨_, type, htype, some text, hitem, text, rfl, if_neg hany⟩

theorem apply_ne_none_iff_takes :
    (∃ condition, (createFilter entry.name).apply rt db entry.inverted entry.values =
      some condition) ↔ ∀ value ∈ entry.values, Takes rt entry.name value := by
  rw [apply_ne_none_iff]
  refine forall_congr' fun value => imp_congr_right fun _ => ?_
  cases entry.name with
  | alertDate => exact dateRangeCondition_ne_none_iff
  | dispositionDate => exact dateRangeCondition_ne_none_iff
  | eventDate => exact dateRangeCondition_ne_none_iff
  | description => exact ⟨fun _ => trivial, fun _ => ⟨_, rfl⟩⟩
  | observable => exact typeValueCondition_ne_none_iff
  | tag => exact filterCondition_tag_ne_none_iff
  | _ => exact filterCondition_ne_none_iff

/-! ## §4 The query -/

def FilterEntry.key (entry : FilterEntry) : FilterName × Bool := (entry.name, entry.inverted)

theorem keys_mergeEntry (entry : FilterEntry) (result : List FilterEntry) :
    (mergeEntry entry result).map (·.key) =
      if entry.key ∈ result.map (·.key) then result.map (·.key)
      else result.map (·.key) ++ [entry.key] := by
  induction result with
  | nil => rfl
  | cons merged rest ih =>
    by_cases hkey : (merged.name, merged.inverted) = (entry.name, entry.inverted)
    · have hmem : entry.key ∈ (merged :: rest).map (·.key) :=
        mem_cons.mpr (.inl hkey.symm)
      rw [if_pos hmem, mergeEntry, if_pos hkey]
      rfl
    · have hhead : entry.key ∈ (merged :: rest).map (·.key) ↔ entry.key ∈ rest.map (·.key) := by
        rw [map_cons, mem_cons]
        exact or_iff_right fun heq => hkey heq.symm
      rw [mergeEntry, if_neg hkey, map_cons, ih]
      by_cases hmem : entry.key ∈ rest.map (·.key)
      · rw [if_pos hmem, if_pos (hhead.mpr hmem), map_cons]
      · rw [if_neg hmem, if_neg (mt hhead.mp hmem), map_cons, cons_append]

theorem mergeEntry_nodup {result : List FilterEntry} (h : (result.map (·.key)).Nodup) :
    ((mergeEntry entry result).map (·.key)).Nodup := by
  rw [keys_mergeEntry]
  split_ifs with hmem
  · exact h
  · rw [← concat_eq_append]
    exact h.concat hmem

theorem resolveSavedFilter_nodup (currentUser : User) (filters : List FilterEntry) :
    ((resolveSavedFilter currentUser filters).map (·.key)).Nodup := by
  -- every entry of the list is merged into what the entries before it left
  have hfold : ∀ result : List FilterEntry, (result.map (·.key)).Nodup →
      ((filters.foldl (fun result entry =>
        mergeEntry { entry with
          values := entry.values.map (resolveFilterSentinels currentUser)
          values_ne := by simp [entry.values_ne] } result) result).map (·.key)).Nodup := by
    induction filters with
    | nil => exact fun result hresult => hresult
    | cons entry rest ih => exact fun result hresult => ih _ (mergeEntry_nodup hresult)
  exact hfold [] nodup_nil

theorem mem_unique {merged : List FilterEntry} (h : (merged.map (·.key)).Nodup)
    {entry entry' : FilterEntry} (hentry : entry ∈ merged) (hentry' : entry' ∈ merged)
    (hname : entry.name = entry'.name) (hinverted : entry.inverted = entry'.inverted) :
    entry = entry' :=
  inj_on_of_nodup_map h hentry hentry' (Prod.ext hname hinverted)

theorem all_eq_true_iff_of_forall₂ {entries : List FilterEntry}
    {conditions : List (QueryRow → Truth)}
    {f : FilterEntry → Option (QueryRow → Truth)} {P : FilterEntry → Prop}
    (h : List.Forall₂ (fun entry condition => f entry = some condition) entries conditions)
    (hP : ∀ entry ∈ entries, ∀ condition, f entry = some condition →
      (condition row = some true ↔ P entry)) :
    (conditions.all fun condition => condition row = some true) = true ↔
      ∀ entry ∈ entries, P entry := by
  induction h with
  | nil => simp
  | cons hfirst _ ih =>
    rw [all_cons, Bool.and_eq_true, decide_eq_true_eq, forall_mem_cons,
      hP _ mem_cons_self _ hfirst,
      ih fun entry hentry => hP entry (mem_cons_of_mem _ hentry)]

variable {merged : List FilterEntry} {selected : List Alert}

theorem mem_selected (h : buildAlertQuery rt gui db merged = some selected) :
    alert ∈ selected ↔ visible gui alert ∧ ∃ row ∈ joinedRows db merged, row.alert = alert ∧
      ∀ entry ∈ merged, RowMeets rt db row entry := by
  simp only [buildAlertQuery, Option.bind_eq_bind, Option.bind_eq_some_iff, Option.pure_def,
    Option.some.injEq] at h
  obtain ⟨conditions, hconditions, rfl⟩ := h
  have hmeets : ∀ row ∈ joinedRows db merged,
      (conditions.all fun condition => condition row = some true) = true ↔
        ∀ entry ∈ merged, RowMeets rt db row entry := fun row hrow =>
    all_eq_true_iff_of_forall₂ (mapM_eq_some_iff.mp hconditions) fun entry hentry condition hc =>
      apply_eq_true_iff hentry (rowOf_of_mem hrow) hc
  simp only [mem_map, mem_filter, Bool.and_eq_true]
  constructor
  · rintro ⟨row, ⟨hrow, hall, hvisible⟩, rfl⟩
    exact ⟨hvisible, row, hrow, rfl, (hmeets row hrow).mp hall⟩
  · rintro ⟨hvisible, row, hrow, rfl, hall⟩
    exact ⟨row, ⟨hrow, (hmeets row hrow).mpr hall, hvisible⟩, rfl⟩

theorem exists_selected_iff : (∃ selected, buildAlertQuery rt gui db merged = some selected) ↔
    ∀ entry ∈ merged, ∀ value ∈ entry.values, Takes rt entry.name value := by
  simp only [buildAlertQuery, Option.bind_eq_bind, Option.bind_eq_some_iff, Option.pure_def,
    Option.some.injEq]
  rw [exists_comm]
  have hconditions := exists_mapM_iff (l := merged) (f := fun entry =>
    (createFilter entry.name).apply rt db entry.inverted entry.values)
  simp only [apply_ne_none_iff_takes] at hconditions
  rw [← hconditions]
  constructor
  · rintro ⟨conditions, _, h, -⟩
    exact ⟨conditions, h⟩
  · rintro ⟨conditions, h⟩
    exact ⟨conditions, _, h, rfl⟩

theorem holds_of_rowMeets (hrow : RowOf db merged row)
    (hmeets : ∀ entry ∈ merged, RowMeets rt db row entry) :
    (∀ entry ∈ merged, Holds rt db row.alert entry) ∧
      (hasFilter merged .tag → ∃ tag, db.HasTag row.alert tag) ∧
      ∀ entry ∈ merged, entry.inverted → Present db row.alert entry.name := by
  refine ⟨fun entry hentry => ?_, fun htag => ?_, fun entry hentry hinverted => ?_⟩
  · have hentrymeets := hmeets entry hentry
    rw [RowMeets] at hentrymeets
    rw [Holds]
    split_ifs at hentrymeets ⊢ with hinverted
    · exact hentrymeets.2
    · obtain ⟨value, hvalue, hmatch⟩ := hentrymeets
      refine ⟨value, hvalue, ?_⟩
      cases hname : entry.name with
      | tag =>
        rw [hname] at hmatch
        obtain ⟨tag, htag, hmatch⟩ := hmatch
        exact ⟨tag, hrow.tag tag htag, hmatch⟩
      | observable =>
        rw [hname] at hmatch
        obtain ⟨o, ho, hmatch⟩ := hmatch
        exact ⟨o, hrow.observable o ho, hmatch⟩
      | _ =>
        rw [hname] at hmatch
        exact hmatch
  · obtain ⟨tag, hsome⟩ := Option.ne_none_iff_exists'.mp (hrow.tagged htag)
    exact ⟨tag, hrow.tag tag hsome⟩
  · have hentrymeets := hmeets entry hentry
    rw [RowMeets, if_pos hinverted] at hentrymeets
    exact hentrymeets.1

/-- An alert of which every entry holds has a row that meets them all, if it has a tag where one is
asked for and the columns of the inverted entries. -/
theorem exists_rowMeets (hunique : (merged.map (·.key)).Nodup) (halert : alert ∈ db.alerts)
    (hholds : ∀ entry ∈ merged, Holds rt db alert entry)
    (htagged : hasFilter merged .tag → ∃ tag, db.HasTag alert tag)
    (hpresent : ∀ entry ∈ merged, entry.inverted → Present db alert entry.name) :
    ∃ row ∈ joinedRows db merged, row.alert = alert ∧
      ∀ entry ∈ merged, RowMeets rt db row entry := by
  have hplain : ∀ entry ∈ merged, entry.inverted = false →
      ∃ value ∈ entry.values, Matches rt db alert entry.name value := by
    intro entry hentry hinverted
    have hentryholds := hholds entry hentry
    rw [Holds, if_neg (by simp [hinverted])] at hentryholds
    exact hentryholds
  -- the observable that the plain observable entry is met by
  obtain ⟨choice, hchoice, hobservable⟩ : ∃ choice : Option Observable,
      (∀ o, choice = some o → hasFilter merged .observable ∧ db.HasObservable alert o) ∧
      ∀ entry ∈ merged, entry.inverted = false → entry.name = .observable →
        ∃ value ∈ entry.values, ∃ o, choice = some o ∧ ObservableMatches o value := by
    by_cases hentry : ∃ entry ∈ merged, entry.inverted = false ∧ entry.name = .observable
    · obtain ⟨entry, hmem, hinverted, hname⟩ := hentry
      have hmatch := hplain entry hmem hinverted
      rw [hname] at hmatch
      obtain ⟨value, hvalue, o, hhas, hmatch⟩ := hmatch
      refine ⟨some o, fun o' ho' => ?_, fun entry' hmem' hinverted' hname' => ?_⟩
      · cases ho'
        exact ⟨any_eq_true.mpr ⟨entry, hmem, decide_eq_true hname⟩, hhas⟩
      · rw [mem_unique hunique hmem' hmem (hname'.trans hname.symm)
          (hinverted'.trans hinverted.symm)]
        exact ⟨value, hvalue, o, rfl, hmatch⟩
    · refine ⟨none, (fun o ho => nomatch ho), fun entry hmem hinverted hname => ?_⟩
      exact absurd ⟨entry, hmem, hinverted, hname⟩ hentry
  -- and the tag that the plain tag entry is met by
  obtain ⟨label, hlabel, hsome, htag⟩ : ∃ label : Option Tag,
      (∀ tag, label = some tag → db.HasTag alert tag) ∧ (hasFilter merged .tag → label ≠ none) ∧
      ∀ entry ∈ merged, entry.inverted = false → entry.name = .tag →
        ∃ value ∈ entry.values, ∃ tag, label = some tag ∧ TagMatches rt tag value := by
    by_cases hentry : ∃ entry ∈ merged, entry.inverted = false ∧ entry.name = .tag
    · obtain ⟨entry, hmem, hinverted, hname⟩ := hentry
      have hmatch := hplain entry hmem hinverted
      rw [hname] at hmatch
      obtain ⟨value, hvalue, tag, hhas, hmatch⟩ := hmatch
      refine ⟨some tag, fun tag' htag' => ?_, fun _ => by simp,
        fun entry' hmem' hinverted' hname' => ?_⟩
      · cases htag'
        exact hhas
      · rw [mem_unique hunique hmem' hmem (hname'.trans hname.symm)
          (hinverted'.trans hinverted.symm)]
        exact ⟨value, hvalue, tag, rfl, hmatch⟩
    · by_cases hfilter : hasFilter merged .tag = true
      · obtain ⟨tag, hhas⟩ := htagged hfilter
        refine ⟨some tag, fun tag' htag' => ?_, fun _ => by simp,
          fun entry' hmem' hinverted' hname' => ?_⟩
        · cases htag'
          exact hhas
        · exact absurd ⟨entry', hmem', hinverted', hname'⟩ hentry
      · refine ⟨none, (fun tag htag => nomatch htag), fun h => absurd h hfilter,
          fun entry' hmem' hinverted' hname' => ?_⟩
        exact absurd ⟨entry', hmem', hinverted', hname'⟩ hentry
  obtain ⟨row, hrow, rfl, ho, ht⟩ := exists_joinedRow halert hchoice hlabel hsome
  refine ⟨row, hrow, rfl, fun entry hmem => ?_⟩
  rw [RowMeets]
  split_ifs with hinverted
  · have hentryholds := hholds entry hmem
    rw [Holds, if_pos hinverted] at hentryholds
    exact ⟨hpresent entry hmem hinverted, hentryholds⟩
  · have hfalse := eq_false_of_ne_true hinverted
    cases hname : entry.name with
    | tag =>
      obtain ⟨value, hvalue, tag, hlabel', hmatch⟩ := htag entry hmem hfalse hname
      have hfilter : hasFilter merged .tag = true :=
        any_eq_true.mpr ⟨entry, hmem, decide_eq_true hname⟩
      exact ⟨value, hvalue, tag, (ht hfilter).trans hlabel', hmatch⟩
    | observable =>
      obtain ⟨value, hvalue, o, hchoice', hmatch⟩ := hobservable entry hmem hfalse hname
      exact ⟨value, hvalue, o, ho o hchoice', hmatch⟩
    | _ =>
      have hmatch := hplain entry hmem hfalse
      rw [hname] at hmatch
      exact hmatch

def plainRuntime : FilterRuntime where
  like pattern text := pattern = text
  lower text := text.map Char.toLower
  parseDateRange _ := none
  str _ := "[]"

/-- One alert of the node, which nothing has tagged yet. -/
def untaggedTables : Tables where
  alerts := [⟨1, "node-1", 0, none, "manual", none, "OPEN", "default", none, none, none, "NEW"⟩]
  users := [⟨1, some "analyst", "default"⟩]
  tags := [⟨1, "phish"⟩]
  tagMappings := []
  observables := []
  observableMappings := []
  observableRemediationMappings := []
  remediations := []
  users_nodup := nodup_singleton _

end Ace3.App
