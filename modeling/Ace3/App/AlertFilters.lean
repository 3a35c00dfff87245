import Ace3.Lib.Sql
import Mathlib

/-!
# Alert Filters

The query of the alert list (`app/analysis/views/session/filters.py`, with the filters of
`app/filters.py`).

What `LIKE`, `lower`, `parse_date_range` at the time of the query and Python's `str` do is a
parameter.
-/

namespace Ace3.App

open Lib.Sql

/-! ## §1 Tables -/

/-- A row of `alerts`, with the columns that filters are about. -/
structure Alert where
  id : Nat
  location : String
  insertDate : Int
  eventTime : Option Int
  alertType : String
  description : Option String
  disposition : String
  queue : String
  dispositionUserId : Option Nat
  dispositionTime : Option Int
  ownerId : Option Nat
  dispositionReview : String
  deriving DecidableEq

structure User where
  id : Nat
  displayName : Option String
  queue : String
  deriving DecidableEq

structure Tag where
  id : Nat
  name : String
  deriving DecidableEq

structure TagMapping where
  tagId : Nat
  alertId : Nat
  deriving DecidableEq

structure Observable where
  id : Nat
  type : String
  value : ByteArray
  deriving DecidableEq

structure ObservableMapping where
  observableId : Nat
  alertId : Nat
  deriving DecidableEq

structure ObservableRemediationMapping where
  observableId : Nat
  remediationId : Nat
  deriving DecidableEq

structure Remediation where
  id : Nat
  deriving DecidableEq

structure Tables where
  alerts : List Alert
  users : List User
  tags : List Tag
  tagMappings : List TagMapping
  observables : List Observable
  observableMappings : List ObservableMapping
  observableRemediationMappings : List ObservableRemediationMapping
  remediations : List Remediation
  /-- The id is the primary key. -/
  users_nodup : (users.map (·.id)).Nodup

/-- A joined row. What is not joined, or has no partner, is missing. -/
structure QueryRow where
  alert : Alert
  owner : Option User
  dispositionBy : Option User
  observableMapping : Option ObservableMapping
  observable : Option Observable
  remediationMapping : Option ObservableRemediationMapping
  remediation : Option Remediation
  tagMapping : Option TagMapping
  tag : Option Tag

/-- What the database and the library functions do. -/
structure FilterRuntime where
  /-- `LIKE`, with the pattern first. -/
  like : String → String → Bool
  lower : String → String
  parseDateRange : String → Option (Int × Int)
  /-- `str` of a list. -/
  str : List (Option String) → String

def FilterRuntime.ilike (rt : FilterRuntime) (pattern text : String) : Bool :=
  rt.like (rt.lower pattern) (rt.lower text)

/-! ## §2 Filter lists -/

/-- The names of `FILTER_NAMES`. -/
inductive FilterName where
  | alertDate
  | alertType
  | description
  | disposition
  | dispositionBy
  | dispositionDate
  | eventDate
  | observable
  | owner
  | queue
  | reviewed
  | tag
  deriving DecidableEq

/-- A value of an entry: a string, or the list that is meant for the observables. The sentinel of a
user without a display name becomes `None`. -/
inductive FilterValue where
  | text (value : Option String)
  | list (values : List (Option String))
  deriving DecidableEq

/-- `value[i]`, where it is not an error. -/
def FilterValue.item : FilterValue → Nat → Option (Option String)
  | .text none, _ => none
  | .text (some value), i => value.toList[i]?.map fun c => some c.toString
  | .list values, i => values[i]?

structure FilterEntry where
  name : FilterName
  inverted : Bool
  values : List FilterValue
  /-- The field has `min_length=1`. -/
  values_ne : values ≠ []

def resolveFilterSentinel (currentUser : User) : Option String → Option String
  | none => none
  | some value =>
    if value = "$USER_QUEUE" then some currentUser.queue
    else if value = "$USER" then currentUser.displayName
    else some value

def resolveFilterSentinels (currentUser : User) : FilterValue → FilterValue
  | .text value => .text (resolveFilterSentinel currentUser value)
  | .list values => .list (values.map (resolveFilterSentinel currentUser))

/-- The entry of the same name that takes the values up, if there is one. -/
def mergeEntry (entry : FilterEntry) : List FilterEntry → List FilterEntry
  | [] => [entry]
  | merged :: rest =>
    if (merged.name, merged.inverted) = (entry.name, entry.inverted) then
      { merged with
        values := merged.values ++ entry.values
        values_ne := by simp [merged.values_ne] } :: rest
    else merged :: mergeEntry entry rest

def resolveSavedFilter (currentUser : User) (filters : List FilterEntry) : List FilterEntry :=
  filters.foldl (fun result entry =>
    mergeEntry { entry with
      values := entry.values.map (resolveFilterSentinels currentUser)
      values_ne := by simp [entry.values_ne] } result) []

def hasFilter (filters : List FilterEntry) (name : FilterName) : Bool :=
  filters.any fun entry => entry.name = name

/-! ## §3 Filters -/

inductive Column where
  | alertType
  | description
  | disposition
  | dispositionByDisplayName
  | ownerDisplayName
  | queue
  | dispositionReview
  | tagName
  deriving DecidableEq

inductive DateColumn where
  | insertDate
  | dispositionTime
  | eventTime
  deriving DecidableEq

def Column.value (row : QueryRow) : Column → Option String
  | .alertType => some row.alert.alertType
  | .description => row.alert.description
  | .disposition => some row.alert.disposition
  | .dispositionByDisplayName => row.dispositionBy.bind (·.displayName)
  | .ownerDisplayName => row.owner.bind (·.displayName)
  | .queue => some row.alert.queue
  | .dispositionReview => some row.alert.dispositionReview
  | .tagName => row.tag.map (·.name)

def DateColumn.value (row : QueryRow) : DateColumn → Option Int
  | .insertDate => some row.alert.insertDate
  | .dispositionTime => row.alert.dispositionTime
  | .eventTime => row.alert.eventTime

/-- The classes of filters. The classes between `Filter` and its uses change nothing of what it
applies. -/
inductive AlertFilter where
  | filter (column : Column) (nullable caseSensitive wildcardable : Bool)
  | text (column : Column)
  | dateRange (column : DateColumn)
  /-- Of `Observable.type` and `Observable.value`. -/
  | typeValue

def createFilter : FilterName → AlertFilter
  | .alertDate => .dateRange .insertDate
  | .alertType => .filter .alertType false true false
  | .description => .text .description
  | .disposition => .filter .disposition false true false
  | .dispositionBy => .filter .dispositionByDisplayName true true false
  | .dispositionDate => .dateRange .dispositionTime
  | .eventDate => .dateRange .eventTime
  | .observable => .typeValue
  | .owner => .filter .ownerDisplayName true true false
  | .queue => .filter .queue false true false
  | .reviewed => .filter .dispositionReview false true false
  | .tag => .filter .tagName false false true

def replaceStars (value : String) : String := value.map fun c => if c = '*' then '%' else c

/-- The condition that `Filter.apply` makes for a value, where it is not an error. -/
def filterCondition (rt : FilterRuntime) (column : Column)
    (nullable caseSensitive wildcardable : Bool) (value : FilterValue) :
    Option (QueryRow → Truth) :=
  if value = .text (some "None") ∧ nullable then some fun row => isNull (column.value row)
  else
    match value with
    | .text (some value) => some fun row =>
      holds (column.value row) fun text =>
        if wildcardable then
          if caseSensitive then rt.like (replaceStars value) text
          else rt.ilike (replaceStars value) text
        else if caseSensitive then text = value
        else rt.ilike value text
    | .text none =>
      if wildcardable then none
      else if caseSensitive then some fun row => isNull (column.value row)
      else some fun _ => none
    | .list _ => none

def textCondition (rt : FilterRuntime) (column : Column) (value : FilterValue) :
    Option (QueryRow → Truth) :=
  let text := match value with
    | .text value => value.getD "None"
    | .list values => rt.str values
  some fun row => holds (column.value row) (rt.ilike ("%" ++ text ++ "%"))

def dateRangeCondition (rt : FilterRuntime) (column : DateColumn) :
    FilterValue → Option (QueryRow → Truth)
  | .text (some value) =>
    (rt.parseDateRange value).map fun range row =>
      Truth.and (holds (column.value row) (range.1 ≤ ·)) (holds (column.value row) (· ≤ range.2))
  | _ => none

/-- The condition of `TypeValueFilter.apply`, on the columns of an observable. -/
def typeValueCondition (value : FilterValue) : Option (Option Observable → Truth) := do
  let type ← value.item 0
  let text ← (← value.item 1)
  let ofValue (o : Option Observable) : Truth :=
    equals (o.map (·.value)) (some text.toUTF8)
  if type = some "Any" then return ofValue
  else return fun o =>
    Truth.and (match type with
      | some type => equals (o.map (·.type)) (some type)
      | none => isNull (o.map (·.type))) (ofValue o)

def taggedRows (db : Tables) (row : QueryRow) : List QueryRow :=
  db.tagMappings.flatMap fun mapping => (db.tags.filter fun tag =>
    mapping.tagId = tag.id ∧ mapping.alertId = row.alert.id).map fun tag =>
      { row with tagMapping := some mapping, tag := some tag }

/-- The observables of an alert, as the subquery of an inverted observable filter finds them. -/
def observablesIn (db : Tables) (row : QueryRow) : List Observable :=
  db.observableMappings.flatMap fun mapping => db.observables.filter fun o =>
    mapping.observableId = o.id ∧ mapping.alertId = row.alert.id

def invertIf (inverted : Bool) (condition : QueryRow → Truth) : QueryRow → Truth :=
  fun row => if inverted then Truth.not (condition row) else condition row

def AlertFilter.apply (rt : FilterRuntime) (db : Tables) (inverted : Bool)
    (values : List FilterValue) : AlertFilter → Option (QueryRow → Truth)
  | .filter column nullable caseSensitive wildcardable => do
    let conditions ← values.mapM (filterCondition rt column nullable caseSensitive wildcardable)
    let any (row : QueryRow) : Truth := Truth.anyOf (conditions.map (· row))
    if inverted ∧ column = .tagName then
      return fun row => Truth.not (existsIn (taggedRows db row) any)
    else return invertIf inverted any
  | .text column => do
    let conditions ← values.mapM (textCondition rt column)
    return invertIf inverted fun row => Truth.anyOf (conditions.map (· row))
  | .dateRange column => do
    let conditions ← values.mapM (dateRangeCondition rt column)
    return invertIf inverted fun row => Truth.anyOf (conditions.map (· row))
  | .typeValue => do
    let conditions ← values.mapM typeValueCondition
    let any (o : Option Observable) : Truth := Truth.anyOf (conditions.map (· o))
    if inverted then
      return fun row => Truth.not (existsIn (observablesIn db row) fun o => any (some o))
    else return fun row => any row.observable

/-! ## §4 The query -/

structure GuiConfig where
  localNodeOnly : Bool
  displayNodeList : List String
  saqNode : String

def visible (gui : GuiConfig) (alert : Alert) : Bool :=
  if gui.localNodeOnly then alert.location = gui.saqNode
  else if gui.displayNodeList ≠ [] then alert.location ∈ gui.displayNodeList
  else true

def joinOwner (db : Tables) : List QueryRow → List QueryRow :=
  leftJoin (fun row user => equals row.alert.ownerId (some user.id))
    (fun row user => { row with owner := some user }) db.users

def joinDispositionBy (db : Tables) : List QueryRow → List QueryRow :=
  leftJoin (fun row user => equals row.alert.dispositionUserId (some user.id))
    (fun row user => { row with dispositionBy := some user }) db.users

def joinObservableMapping (db : Tables) : List QueryRow → List QueryRow :=
  leftJoin (fun row mapping => some (row.alert.id = mapping.alertId))
    (fun row mapping => { row with observableMapping := some mapping }) db.observableMappings

def joinObservable (db : Tables) : List QueryRow → List QueryRow :=
  leftJoin (fun row o => equals (row.observableMapping.map (·.observableId)) (some o.id))
    (fun row o => { row with observable := some o }) db.observables

def joinRemediationMapping (db : Tables) : List QueryRow → List QueryRow :=
  leftJoin (fun row mapping => equals (row.observable.map (·.id)) (some mapping.observableId))
    (fun row mapping => { row with remediationMapping := some mapping })
    db.observableRemediationMappings

def joinRemediation (db : Tables) : List QueryRow → List QueryRow :=
  leftJoin (fun row r => equals (row.remediationMapping.map (·.remediationId)) (some r.id))
    (fun row r => { row with remediation := some r }) db.remediations

def joinObservables (db : Tables) (rows : List QueryRow) : List QueryRow :=
  joinRemediation db (joinRemediationMapping db (joinObservable db (joinObservableMapping db rows)))

def joinTagMapping (db : Tables) : List QueryRow → List QueryRow :=
  leftJoin (fun row mapping => some (row.alert.id = mapping.alertId))
    (fun row mapping => { row with tagMapping := some mapping }) db.tagMappings

def joinTag (db : Tables) : List QueryRow → List QueryRow :=
  join (fun row tag => equals (row.tagMapping.map (·.tagId)) (some tag.id))
    (fun row tag => { row with tag := some tag }) db.tags

def joinedRows (db : Tables) (filters : List FilterEntry) : List QueryRow :=
  let rows := db.alerts.map fun alert => ⟨alert, none, none, none, none, none, none, none, none⟩
  let rows := joinOwner db rows
  let rows := if hasFilter filters .dispositionBy then joinDispositionBy db rows else rows
  let rows := if hasFilter filters .observable then joinObservables db rows else rows
  if hasFilter filters .tag then joinTag db (joinTagMapping db rows) else rows

/-- The alerts that the query selects, where it is not an error. -/
def buildAlertQuery (rt : FilterRuntime) (gui : GuiConfig) (db : Tables)
    (filters : List FilterEntry) : Option (List Alert) := do
  let conditions ← filters.mapM fun entry =>
    (createFilter entry.name).apply rt db entry.inverted entry.values
  let rows := (joinedRows db filters).filter fun row =>
    conditions.all (fun condition => condition row = some true) && visible gui row.alert
  return rows.map (·.alert)

end Ace3.App
