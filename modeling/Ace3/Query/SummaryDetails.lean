import Ace3.Lib.Firsts
import Ace3.Query.DedupKey
import Ace3.Query.FieldLookup
import Ace3.Query.TemplateRendering

/-!
# Summary Details

The results of a query are summarized by templates: one detail for each event, one for all of them,
or one whose template goes over the events itself. An event is left out when it lacks a required
field or when an earlier event had the same key.
-/

namespace Ace3.Query

open List
open Lib Lib.Nested Lib.Firsts
open Analysis (isBlank)

/-! ## §1 Configurations -/

inductive SummaryDetailFormat where
  | pre
  | txt
  | md
  | jinja
  deriving DecidableEq

structure SummaryDetailConfig where
  content : String
  header : Option String
  format : SummaryDetailFormat
  limit : ℤ
  grouped : Bool
  dedupFields : Option (List String)
  requiredFields : Option (List String)

/-- The arguments of `add_detail_fn`. -/
structure SummaryDetail where
  content : String
  header : Option String
  format : SummaryDetailFormat
  deriving DecidableEq

def SummaryDetailConfig.qualifies (sdConfig : SummaryDetailConfig) (event : Event) : Bool :=
  match sdConfig.requiredFields with
  | none => true
  | some requiredFields => eventHasRequiredFields event requiredFields

/-! ## §2 Templates -/

variable (jinja : Jinja) (sdConfig : SummaryDetailConfig)

def renderSdTemplate (template : String) (event : Event) : Except Undefined (Option String) :=
  let strict := sdConfig.requiredFields.isNone
  if sdConfig.format = .jinja then renderJinjaTemplate jinja template event.items strict
  else renderEventTemplate jinja template event strict

def renderSdContent (event : Event) : Option String :=
  match renderSdTemplate jinja sdConfig sdConfig.content event with
  | .ok rendered => rendered
  | .error .raised => none

def renderSdHeader (event : Event) : Bool × Option String :=
  match sdConfig.header with
  | none => (true, none)
  | some header =>
    match renderSdTemplate jinja sdConfig header event with
    | .ok (some rendered) => (true, some rendered)
    | .ok none => (false, none)
    | .error .raised => (false, none)

/-! ## §3 Loops -/

/-- What each of the loops does first: the required fields are checked, then the key of the event is
looked up among those seen. The rest of the round is `body`. The `TypeError` of a key that has no
hash ends the loop. -/
def forEachNew {σ : Type} (body : σ → Event → σ) :
    List (List HashedPart) → σ → List Event → Except σ σ
  | _, state, [] => .ok state
  | seenKeys, state, event :: events =>
    if sdConfig.qualifies event then
      match sdConfig.dedupFields with
      | none => forEachNew body seenKeys (body state event) events
      | some dedupFields =>
        match hashKey (computeDedupKey event dedupFields) with
        | none => .error state
        | some dedupKey =>
          if dedupKey ∈ seenKeys then forEachNew body seenKeys state events
          else forEachNew body (dedupKey :: seenKeys) (body state event) events
    else forEachNew body seenKeys state events

/-- The rest of a round of `process_ungrouped_summary_detail`, with `count` and the details that
were added. -/
def ungroupedRound (state : ℤ × List SummaryDetail) (event : Event) : ℤ × List SummaryDetail :=
  match renderSdContent jinja sdConfig event with
  | none => state
  | some content =>
    match renderSdHeader jinja sdConfig event with
    | (false, _) => state
    | (true, header) =>
      if state.1 ≥ sdConfig.limit then (state.1 + 1, state.2)
      else (state.1 + 1, state.2 ++ [⟨content, header, sdConfig.format⟩])

/-- What processing a configuration comes to: the details that were added, also where it raises. -/
abbrev Processed := Except (List SummaryDetail) (List SummaryDetail)

def processUngroupedSummaryDetail (queryResults : List Event) : Processed :=
  match forEachNew sdConfig (ungroupedRound jinja sdConfig) [] (0, []) queryResults with
  | .ok state => .ok state.2
  | .error state => .error state.2

/-- The rest of a round of `collect_qualifying_events`. -/
def collectRound (events : List Event) (event : Event) : List Event :=
  if sdConfig.limit ≤ events.length then events else events ++ [event]

def collectQualifyingEvents (queryResults : List Event) : Except (List Event) (List Event) :=
  forEachNew sdConfig (collectRound sdConfig) [] [] queryResults

/-- The detail of a template that goes over the events itself. -/
def renderGroupedJinja : List Event → List SummaryDetail
  | [] => []
  | first :: rest =>
    let context : Items := [(.str "events", .list ((first :: rest).map fun event => .dict event.items))]
    match renderJinjaTemplate jinja sdConfig.content context sdConfig.requiredFields.isNone with
    | .error .raised => []
    | .ok none => []
    | .ok (some content) =>
      if isBlank content then []
      else
        let header :=
          if sdConfig.header.isNone then none
          else
            match renderSdHeader jinja sdConfig first with
            | (true, header) => header
            | (false, _) => none
        [⟨content, header, sdConfig.format⟩]

/-- The rest of a round of the loop of `process_grouped_summary_detail`, with `lines` and
`header`. -/
def groupedRound (state : List String × Option String) (event : Event) :
    List String × Option String :=
  match renderSdContent jinja sdConfig event with
  | none => state
  | some content =>
    let header :=
      if state.2.isNone && sdConfig.header.isSome then
        match renderSdHeader jinja sdConfig event with
        | (true, resolvedHeader) => resolvedHeader
        | (false, _) => state.2
      else state.2
    if sdConfig.limit ≤ state.1.length then (state.1, header) else (state.1 ++ [content], header)

def joinLines (lines : List String) (header : Option String) : List SummaryDetail :=
  if lines.isEmpty then [] else [⟨"\n".intercalate lines, header, sdConfig.format⟩]

/-- `process_grouped_summary_detail`; nothing is added before its loops end. -/
def processGroupedSummaryDetail (queryResults : List Event) : Processed :=
  if sdConfig.format = .jinja then
    match collectQualifyingEvents sdConfig queryResults with
    | .ok events => .ok (renderGroupedJinja jinja sdConfig events)
    | .error _ => .error []
  else
    match forEachNew sdConfig (groupedRound jinja sdConfig) [] ([], none) queryResults with
    | .ok (lines, header) => .ok (joinLines sdConfig lines header)
    | .error _ => .error []

def processSummaryDetail (queryResults : List Event) : Processed :=
  if sdConfig.grouped then processGroupedSummaryDetail jinja sdConfig queryResults
  else processUngroupedSummaryDetail jinja sdConfig queryResults

/-! ## §4 What the loops are for -/

def detailOf (event : Event) : Option SummaryDetail :=
  (renderSdContent jinja sdConfig event).bind fun content =>
    match renderSdHeader jinja sdConfig event with
    | (true, header) => some ⟨content, header, sdConfig.format⟩
    | (false, _) => none

def headerOf (event : Event) : Option String :=
  (renderSdContent jinja sdConfig event).bind fun _ => (renderSdHeader jinja sdConfig event).2

/-- The details of events of which no two are duplicates, up to the limit. -/
def detailsOf (events : List Event) : List SummaryDetail :=
  let limit := sdConfig.limit.toNat
  if sdConfig.grouped then
    if sdConfig.format = .jinja then renderGroupedJinja jinja sdConfig (events.take limit)
    else
      joinLines sdConfig ((events.filterMap (renderSdContent jinja sdConfig)).take limit)
        (events.findSome? (headerOf jinja sdConfig))
  else (events.filterMap (detailOf jinja sdConfig)).take limit

variable {jinja sdConfig}

theorem foldl_ungroupedRound (events : List Event) (count : ℤ) (details : List SummaryDetail) :
    (events.foldl (ungroupedRound jinja sdConfig) (count, details)).2 =
      details ++ (events.filterMap (detailOf jinja sdConfig)).take (sdConfig.limit - count).toNat := by
  induction events generalizing count details with
  | nil => rw [filterMap_nil, List.take_nil, append_nil, foldl_nil]
  | cons event events ih =>
    have hnone : detailOf jinja sdConfig event = none →
        ungroupedRound jinja sdConfig (count, details) event = (count, details) := by
      unfold detailOf ungroupedRound
      cases renderSdContent jinja sdConfig event with
      | none => exact fun _ => rfl
      | some content =>
        rcases renderSdHeader jinja sdConfig event with ⟨_ | _, header⟩
        · exact fun _ => rfl
        · exact nofun
    have hsome : ∀ detail, detailOf jinja sdConfig event = some detail →
        ungroupedRound jinja sdConfig (count, details) event =
          if count ≥ sdConfig.limit then (count + 1, details)
          else (count + 1, details ++ [detail]) := by
      unfold detailOf ungroupedRound
      cases renderSdContent jinja sdConfig event with
      | none => exact nofun
      | some content =>
        rcases renderSdHeader jinja sdConfig event with ⟨_ | _, header⟩
        · exact nofun
        · exact fun detail hdetail => Option.some.inj hdetail ▸ rfl
    rw [foldl_cons]
    cases hdetail : detailOf jinja sdConfig event with
    | none => rw [hnone hdetail, ih, filterMap_cons_none hdetail]
    | some detail =>
      rw [hsome detail hdetail, filterMap_cons_some hdetail]
      split
      case isTrue hlimit =>
        -- the limit is reached: nothing more is taken, now or later
        have hzero : (sdConfig.limit - count).toNat = 0 := by omega
        have hzero' : (sdConfig.limit - (count + 1)).toNat = 0 := by omega
        rw [ih, hzero, hzero', take_zero, take_zero]
      case isFalse hlimit =>
        have hsucc : (sdConfig.limit - count).toNat = (sdConfig.limit - (count + 1)).toNat + 1 := by
          omega
        rw [ih, hsucc, take_succ_cons, append_assoc, singleton_append]

theorem foldl_collectRound (events collected : List Event) :
    events.foldl (collectRound sdConfig) collected =
      collected ++ events.take (sdConfig.limit - collected.length).toNat := by
  induction events generalizing collected with
  | nil => rw [List.take_nil, append_nil, foldl_nil]
  | cons event events ih =>
    rw [foldl_cons, collectRound]
    split
    case isTrue hlimit =>
      have hzero : (sdConfig.limit - collected.length).toNat = 0 := by omega
      rw [ih, hzero, take_zero, take_zero]
    case isFalse hlimit =>
      have hsucc : (sdConfig.limit - collected.length).toNat =
          (sdConfig.limit - (collected ++ [event]).length).toNat + 1 := by
        rw [length_append, length_singleton]
        omega
      rw [ih, hsucc, take_succ_cons, append_assoc, singleton_append]

theorem nextHeader_eq (header : Option String) (event : Event) :
    (if header.isNone && sdConfig.header.isSome then
        match renderSdHeader jinja sdConfig event with
        | (true, resolvedHeader) => resolvedHeader
        | (false, _) => header
      else header) = header.or (renderSdHeader jinja sdConfig event).2 := by
  cases header with
  | some header => rfl
  | none =>
    unfold renderSdHeader
    cases sdConfig.header with
    | none => rfl
    | some template =>
      simp only [Option.isNone_none, Option.isSome_some, Bool.and_self, if_true, Option.none_or]
      rcases renderSdTemplate jinja sdConfig template event with (_ | _) | (_ | _) <;> rfl

theorem foldl_groupedRound (events : List Event) (lines : List String) (header : Option String) :
    events.foldl (groupedRound jinja sdConfig) (lines, header) =
      (lines ++ (events.filterMap (renderSdContent jinja sdConfig)).take
          (sdConfig.limit - lines.length).toNat,
        header.or (events.findSome? (headerOf jinja sdConfig))) := by
  induction events generalizing lines header with
  | nil =>
    rw [filterMap_nil, List.take_nil, append_nil, foldl_nil, List.findSome?_nil,
      Option.or_none]
  | cons event events ih =>
    have hfind : (event :: events).findSome? (headerOf jinja sdConfig) =
        (headerOf jinja sdConfig event).or (events.findSome? (headerOf jinja sdConfig)) := by
      rw [List.findSome?_cons]
      cases headerOf jinja sdConfig event <;> rfl
    rw [foldl_cons, hfind]
    cases hcontent : renderSdContent jinja sdConfig event with
    | none =>
      have hheader : headerOf jinja sdConfig event = none := by rw [headerOf, hcontent, Option.bind_none]
      rw [groupedRound, hcontent, ih, filterMap_cons_none hcontent, hheader, Option.none_or]
    | some content =>
      have hheader : headerOf jinja sdConfig event = (renderSdHeader jinja sdConfig event).2 := by
        rw [headerOf, hcontent, Option.bind_some]
      rw [groupedRound, hcontent, filterMap_cons_some hcontent, hheader]
      simp only [nextHeader_eq]
      split
      case isTrue hlimit =>
        have hzero : (sdConfig.limit - lines.length).toNat = 0 := by omega
        rw [ih, hzero, take_zero, take_zero, Option.or_assoc]
      case isFalse hlimit =>
        have hsucc : (sdConfig.limit - lines.length).toNat =
            (sdConfig.limit - (lines ++ [content]).length).toNat + 1 := by
          rw [length_append, length_singleton]
          omega
        rw [ih, hsucc, take_succ_cons, append_assoc, singleton_append,
          Option.or_assoc]

theorem forEachNew_eq {σ : Type} (body : σ → Event → σ) (dedupFields : List String)
    (h : sdConfig.dedupFields = some dedupFields) (seenKeys : List (List HashedPart)) (state : σ)
    (events : List Event) :
    forEachNew sdConfig body seenKeys state events =
      loopNew (fun event => hashKey (computeDedupKey event dedupFields)) body seenKeys state
        (events.filter sdConfig.qualifies) := by
  induction events generalizing seenKeys state with
  | nil => rfl
  | cons event events ih =>
    rw [forEachNew]
    by_cases hqualifies : sdConfig.qualifies event = true
    · rw [if_pos hqualifies, filter_cons_of_pos hqualifies, loopNew]
      simp only [h]
      cases hashKey (computeDedupKey event dedupFields) with
      | none => rfl
      | some dedupKey =>
        by_cases hseen : dedupKey ∈ seenKeys
        · simp only [if_pos hseen, ih]
        · simp only [if_neg hseen, ih]
    · rw [if_neg hqualifies, filter_cons_of_neg hqualifies]
      exact ih seenKeys state

variable {dedupFields : List String}

/-- With a hash for the key of every event that qualifies, the details are those of the first event
for each key. -/
theorem processSummaryDetail_eq_ok (h : sdConfig.dedupFields = some dedupFields)
    {events : List Event}
    (hkeys : ∀ event ∈ events.filter sdConfig.qualifies,
      (hashKey (computeDedupKey event dedupFields)).isSome) :
    processSummaryDetail jinja sdConfig events =
      .ok (detailsOf jinja sdConfig (firsts
        (fun event => hashKey (computeDedupKey event dedupFields))
        (events.filter sdConfig.qualifies))) := by
  unfold processSummaryDetail detailsOf
  split
  · unfold processGroupedSummaryDetail
    split
    · rw [collectQualifyingEvents, forEachNew_eq _ _ h, loopNew_eq_ok hkeys, foldl_collectRound]
      simp
    · rw [forEachNew_eq _ _ h, loopNew_eq_ok hkeys, foldl_groupedRound]
      simp
  · rw [processUngroupedSummaryDetail, forEachNew_eq _ _ h, loopNew_eq_ok hkeys]
    simp [foldl_ungroupedRound]

theorem isSome_of_processSummaryDetail (h : sdConfig.dedupFields = some dedupFields)
    {events : List Event} {details : List SummaryDetail}
    (hok : processSummaryDetail jinja sdConfig events = .ok details) :
    ∀ event ∈ events.filter sdConfig.qualifies,
      (hashKey (computeDedupKey event dedupFields)).isSome := by
  unfold processSummaryDetail at hok
  split at hok
  · unfold processGroupedSummaryDetail at hok
    split at hok
    · cases hloop : collectQualifyingEvents sdConfig events with
      | error state =>
        rw [hloop] at hok
        cases hok
      | ok collected =>
        rw [collectQualifyingEvents, forEachNew_eq _ _ h] at hloop
        exact isSome_of_loopNew hloop
    · cases hloop : forEachNew sdConfig (groupedRound jinja sdConfig) [] ([], none) events with
      | error state =>
        rw [hloop] at hok
        cases hok
      | ok state =>
        rw [forEachNew_eq _ _ h] at hloop
        exact isSome_of_loopNew hloop
  · unfold processUngroupedSummaryDetail at hok
    cases hloop : forEachNew sdConfig (ungroupedRound jinja sdConfig) [] (0, []) events with
    | error state =>
      rw [hloop] at hok
      cases hok
    | ok state =>
      rw [forEachNew_eq _ _ h] at hloop
      exact isSome_of_loopNew hloop

/-! ## §5 Duplicates -/

/-- The value of a dedup field; a missing field counts as `None`. -/
def dedupValue (event : Event) (fieldSpec : String) : Val :=
  (event.get? (.str fieldSpec)).getD (.atom .null)

def SameJson (dedupFields : List String) (event event' : Event) : Prop :=
  ∀ fieldSpec ∈ dedupFields, meaning (dedupValue event fieldSpec) = meaning (dedupValue event' fieldSpec)

open Classical in
/-- The first event of each class of events with values that are equal as JSON. -/
noncomputable def firstOfJson (dedupFields : List String) (events : List Event) : List Event :=
  firsts (fun event => dedupFields.map fun fieldSpec => meaning (dedupValue event fieldSpec)) events

/-- Processing with dedup fields does not raise, two events that qualify are duplicates exactly when
their values are equal as JSON, and the details are those of the first event of each class. -/
def DedupsExactly (jinja : Jinja) (sdConfig : SummaryDetailConfig) (dedupFields : List String)
    (events : List Event) : Prop :=
  let sdConfig := { sdConfig with dedupFields := some dedupFields }
  let qualifying := events.filter sdConfig.qualifies
  (∀ event ∈ qualifying, ∀ event' ∈ qualifying,
    hashKey (computeDedupKey event dedupFields) = hashKey (computeDedupKey event' dedupFields) ↔
      SameJson dedupFields event event') ∧
  processSummaryDetail jinja sdConfig events =
    .ok (detailsOf jinja sdConfig (firstOfJson dedupFields qualifying))

theorem partOf_dedupValue (event : Event) (fieldSpec : String) :
    partOf (event.get? (.str fieldSpec)) = partOf (some (dedupValue event fieldSpec)) := by
  unfold dedupValue
  cases event.get? (.str fieldSpec) <;> rfl

theorem JsonEvent.isJson (e : JsonEvent) (fieldSpec : String) :
    IsJson (dedupValue e.event fieldSpec) := by
  unfold dedupValue
  cases hget : e.event.get? (.str fieldSpec) with
  | none => exact .atom nofun
  | some v =>
    obtain ⟨event, hjson⟩ := e
    cases hjson with
    | dict _ _ h => exact h _ (OrderedDict.get?_eq_some_iff.mp hget)

theorem hashKey_isSome_iff (event : Event) (dedupFields : List String) :
    (hashKey (computeDedupKey event dedupFields)).isSome ↔
      ∀ fieldSpec ∈ dedupFields, IsFlat (dedupValue event fieldSpec) := by
  simp only [hashKey, computeDedupKey, isSome_mapM_iff, forall_mem_map, partOf_dedupValue,
    hashPart_isSome_iff]

theorem mapM_eq_mapM_iff {α β : Type} {f g : α → Option β} {l : List α}
    (hf : ∀ a ∈ l, (f a).isSome) : l.mapM f = l.mapM g ↔ ∀ a ∈ l, f a = g a := by
  obtain ⟨results, hresults⟩ := Option.isSome_iff_exists.mp (isSome_mapM_iff.mpr hf)
  rw [hresults, eq_comm, FallibleMap.mapM_eq_some_iff]
  have hall := FallibleMap.mapM_eq_some_iff.mp hresults
  clear hresults hf
  induction hall with
  | nil => simp
  | cons hfirst _ ih =>
    rw [forall₂_cons, forall_mem_cons, hfirst]
    exact and_congr eq_comm ih

/-- The keys of two events that have hashes are equal when Python's equality leaves the same of
what the values mean. -/
theorem hashKey_eq_iff (e e' : JsonEvent)
    (h : ∀ fieldSpec ∈ dedupFields, IsFlat (dedupValue e.event fieldSpec))
    (h' : ∀ fieldSpec ∈ dedupFields, IsFlat (dedupValue e'.event fieldSpec)) :
    hashKey (computeDedupKey e.event dedupFields) = hashKey (computeDedupKey e'.event dedupFields) ↔
      ∀ fieldSpec ∈ dedupFields, conflate (meaning (dedupValue e.event fieldSpec)) =
        conflate (meaning (dedupValue e'.event fieldSpec)) := by
  simp only [hashKey, computeDedupKey, mapM_map, Function.comp_def, partOf_dedupValue]
  rw [mapM_eq_mapM_iff fun fieldSpec hmem => hashPart_isSome_iff.mpr (h fieldSpec hmem)]
  exact forall₂_congr fun fieldSpec hmem =>
    hashPart_eq_iff (e.isJson fieldSpec) (e'.isJson fieldSpec) (h fieldSpec hmem) (h' fieldSpec hmem)

/-- Summary details are deduplicated exactly when the dedup values of the events that qualify are
flat, and no two of these events differ only in what Python's equality does not tell apart. -/
theorem summary_details_dedup_exactly_iff (jinja : Jinja) (sdConfig : SummaryDetailConfig)
    (dedupFields : List String) (events : List JsonEvent) :
    DedupsExactly jinja sdConfig dedupFields (events.map (·.event)) ↔
      (∀ e ∈ events, sdConfig.qualifies e.event = true →
        ∀ fieldSpec ∈ dedupFields, IsFlat (dedupValue e.event fieldSpec)) ∧
      ∀ e ∈ events, sdConfig.qualifies e.event = true →
        ∀ e' ∈ events, sdConfig.qualifies e'.event = true →
          (∀ fieldSpec ∈ dedupFields, conflate (meaning (dedupValue e.event fieldSpec)) =
            conflate (meaning (dedupValue e'.event fieldSpec))) →
          SameJson dedupFields e.event e'.event := by
  have hqualifying : ∀ {p : Event → Prop},
      (∀ event ∈ (events.map (·.event)).filter sdConfig.qualifies, p event) ↔
        ∀ e ∈ events, sdConfig.qualifies e.event = true → p e.event := by
    intro p
    simp only [mem_filter, mem_map, and_imp, forall_exists_index, forall_apply_eq_imp_iff₂]
  unfold DedupsExactly
  have hsame : SummaryDetailConfig.qualifies { sdConfig with dedupFields := some dedupFields } =
      sdConfig.qualifies := rfl
  simp only [hsame, hqualifying]
  constructor
  · rintro ⟨hduplicates, hok⟩
    have hflat : ∀ e ∈ events, sdConfig.qualifies e.event = true →
        ∀ fieldSpec ∈ dedupFields, IsFlat (dedupValue e.event fieldSpec) := by
      have hkeys := isSome_of_processSummaryDetail rfl hok
      rw [hsame, hqualifying] at hkeys
      exact fun e he hq => (hashKey_isSome_iff e.event dedupFields).mp (hkeys e he hq)
    refine ⟨hflat, fun e he hq e' he' hq' hconflate => (hduplicates e he hq e' he' hq').mp ?_⟩
    exact (hashKey_eq_iff e e' (hflat e he hq) (hflat e' he' hq')).mpr hconflate
  · rintro ⟨hflat, hsound⟩
    have hduplicates : ∀ e ∈ events, sdConfig.qualifies e.event = true →
        ∀ e' ∈ events, sdConfig.qualifies e'.event = true →
          (hashKey (computeDedupKey e.event dedupFields) =
            hashKey (computeDedupKey e'.event dedupFields) ↔
              SameJson dedupFields e.event e'.event) := by
      intro e he hq e' he' hq'
      rw [hashKey_eq_iff e e' (hflat e he hq) (hflat e' he' hq')]
      refine ⟨hsound e he hq e' he' hq', fun hjson fieldSpec hmem => ?_⟩
      rw [hjson fieldSpec hmem]
    refine ⟨hduplicates, ?_⟩
    rw [processSummaryDetail_eq_ok rfl, firstOfJson]
    · -- the classes of Python's equality are those of JSON
      congr 2
      classical
      apply firsts_congr
      simp only [hsame, hqualifying, map_inj_left]
      exact hduplicates
    · rw [hsame, hqualifying]
      exact fun e he hq => (hashKey_isSome_iff e.event dedupFields).mpr (hflat e he hq)

def taggedEvent : JsonEvent where
  event := ⟨[(.str "tags", .list [.dict [(.str "name", .atom (.str "vpn"))]])], by decide⟩
  json := by
    refine .dict (by decide) (by simp) ?_
    rw [forall_mem_singleton]
    refine .list ?_
    rw [forall_mem_singleton]
    refine .dict (by decide) (by simp) ?_
    rw [forall_mem_singleton]
    exact .atom nofun

/-- The key of a list of objects has no hash. -/
theorem list_of_objects_raises :
    ¬ ∀ (jinja : Jinja) (sdConfig : SummaryDetailConfig) (dedupFields : List String)
      (events : List JsonEvent),
        DedupsExactly jinja sdConfig dedupFields (events.map (·.event)) := by
  intro h
  have hexact := (h ⟨fun _ => some (.other []), fun template _ _ => .text template⟩
    ⟨"tags", none, .md, 100, false, none, none⟩ ["tags"] [taggedEvent]).2
  cases hexact

end Ace3.Query
