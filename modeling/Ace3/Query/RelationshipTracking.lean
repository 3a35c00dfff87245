import Ace3.Query.FileContents

/-!
# Relationship Tracking

The relationships of a mapping are stored in a dictionary under the observables that it produces.
A mapping that produces one again replaces what was stored, so only the relationships of the last
such mapping are left; and equal observables whose texts differ do not even share a key.
-/

namespace Ace3.Query

open List
open Lib Lib.Nested Lib.FallibleMap
open Analysis (Observable ObservableIdentity ObservableTime fFile)

/-! ## §1 Observables -/

structure ObservableSpec where
  type : String
  value : String
  time : Option ObservableTime
  deriving DecidableEq

def specOf (o : ObservableIdentity) : ObservableSpec := ⟨o.type, o.value, o.time⟩

def ExtractedObservable.identity (e : ExtractedObservable) : ObservableIdentity :=
  e.observable.toObservableIdentity

variable (env : ExtractionEnv)

/-- Observables of these kinds are equal: their types, their times, and their values as the type
compares them. -/
def SameSpec (s s' : ObservableSpec) : Prop :=
  s.type = s'.type ∧ s.time = s'.time ∧
    env.runtime.compareKey s.type s.value = env.runtime.compareKey s.type s'.value

/-- The text that is hashed; it does not depend on the uuid. -/
def specText (s : ObservableSpec) : String :=
  observableText env ⟨⟨0, 0⟩, s.type, s.value, s.time, none⟩

/-- Equal observables that a dictionary has under one key. -/
def SameSlot (s s' : ObservableSpec) : Prop :=
  env.hash (specText env s) = env.hash (specText env s') ∧ SameSpec env s s'

variable {env}

theorem SameSpec.refl (s : ObservableSpec) : SameSpec env s s := ⟨rfl, rfl, rfl⟩

theorem SameSpec.symm {s s' : ObservableSpec} (h : SameSpec env s s') : SameSpec env s' s :=
  ⟨h.1.symm, h.2.1.symm, by rw [← h.1]; exact h.2.2.symm⟩

theorem SameSpec.trans {s s' s'' : ObservableSpec} (h : SameSpec env s s')
    (h' : SameSpec env s' s'') : SameSpec env s s'' :=
  ⟨h.1.trans h'.1, h.2.1.trans h'.2.1, h.2.2.trans (by rw [h.1]; exact h'.2.2)⟩

theorem SameSlot.refl (s : ObservableSpec) : SameSlot env s s := ⟨rfl, .refl s⟩

theorem SameSlot.symm {s s' : ObservableSpec} (h : SameSlot env s s') : SameSlot env s' s :=
  ⟨h.1.symm, h.2.symm⟩

theorem SameSlot.trans {s s' s'' : ObservableSpec} (h : SameSlot env s s')
    (h' : SameSlot env s' s'') : SameSlot env s s'' := ⟨h.1.trans h'.1, h.2.trans h'.2⟩

/-- Observables of one extraction: no files, and each with a uuid of its own. -/
def Regular (ids : List ObservableIdentity) : Prop :=
  (∀ o ∈ ids, o.type ≠ fFile) ∧ ∀ o ∈ ids, ∀ o' ∈ ids, o.uuid = o'.uuid → o = o'

theorem Regular.eq_iff {ids : List ObservableIdentity} (h : Regular ids) {o o' : ObservableIdentity}
    (ho : o ∈ ids) (ho' : o' ∈ ids) :
    o.eq env.runtime o' = true ↔ SameSpec env (specOf o) (specOf o') := by
  rw [ObservableIdentity.eq, if_neg (h.1 o ho)]
  simp only [decide_eq_true_eq, ObservableIdentity.matchesSpec]
  constructor
  · rintro (huuid | ⟨htype, htime, hvalue⟩)
    · rw [h.2 o' ho' o ho huuid]
      exact .refl _
    · exact ⟨htype.symm, htime, hvalue⟩
  · exact fun ⟨htype, htime, hvalue⟩ => .inr ⟨htype.symm, htime, hvalue⟩

theorem observableText_eq (o : ObservableIdentity) :
    observableText env o = specText env (specOf o) := rfl

theorem Regular.sameKey_iff {ids : List ObservableIdentity} (h : Regular ids)
    {o o' : ObservableIdentity} (ho : o ∈ ids) (ho' : o' ∈ ids) :
    sameKey env o o' = true ↔ SameSlot env (specOf o) (specOf o') := by
  rw [sameKey, Bool.or_eq_true, Bool.and_eq_true, h.eq_iff ho ho', decide_eq_true_eq,
    decide_eq_true_eq, observableText_eq, observableText_eq]
  refine ⟨?_, .inr⟩
  rintro (huuid | hslot)
  · rw [h.2 o ho o' ho' huuid]
    exact .refl _
  · exact hslot

/-! ## §2 One mapping -/

def Creates (env : ExtractionEnv) (mapping : ObservableMapping) (event : Event)
    (type matchedField value : String) (s : ObservableSpec) : Prop :=
  isSkipped env mapping value = false ∧
    ∃ created, createObservable env mapping event type value matchedField 0 = some created ∧
      specOf created.identity = s

def Produces (env : ExtractionEnv) (event : Event) (mapping : ObservableMapping)
    (s : ObservableSpec) : Prop :=
  ∃ type, mappingType env mapping event = some type ∧ type ≠ fFile ∧
    ∃ groups, fieldGroups env mapping event = .ok groups ∧ ∃ group ∈ groups,
      ∃ values, interpretEventValue env mapping event (overrideOf group) = .ok values ∧
        ∃ value ∈ values, Creates env mapping event type (group.headD "") value s

/-- The dictionary after observables with the same relationships. -/
def trackAll (env : ExtractionEnv) (relationships : List RelationshipMapping)
    (block : List ExtractedObservable) (tracking : Tracking) : Tracking :=
  if relationships.isEmpty then tracking
  else block.foldl (fun tracking e => trackSet env e.identity relationships tracking) tracking

/-- What a mapping adds: a block of observables of its own, with the next uuids. -/
structure Adds (env : ExtractionEnv) (mapping : ObservableMapping) (state next : Extraction)
    (block : List ExtractedObservable) : Prop where
  extracted : next.extracted = state.extracted ++ block
  tracking : next.relationshipTracking =
    trackAll env mapping.relationships block state.relationshipTracking
  drawn : next.drawn = state.drawn + block.length
  uuids : block.map (·.identity.uuid) =
    (List.range' state.drawn block.length).map fun draw => ⟨env.root, draw⟩
  mapping : ∀ e ∈ block, e.mapping = mapping ∧ e.identity.type ≠ fFile

variable {mapping : ObservableMapping} {event : Event} {state next last : Extraction}
  {block block' : List ExtractedObservable} {type matchedField : String}

theorem trackAll_append (relationships : List RelationshipMapping)
    (block block' : List ExtractedObservable) (tracking : Tracking) :
    trackAll env relationships (block ++ block') tracking =
      trackAll env relationships block' (trackAll env relationships block tracking) := by
  unfold trackAll
  split
  · rfl
  · exact foldl_append

theorem trackAll_nil (relationships : List RelationshipMapping) (tracking : Tracking) :
    trackAll env relationships [] tracking = tracking := by
  unfold trackAll
  split <;> rfl

theorem Adds.refl (mapping : ObservableMapping) (state : Extraction) :
    Adds env mapping state state [] :=
  ⟨(append_nil _).symm, (trackAll_nil _ _).symm, rfl, rfl,
    fun _ he => absurd he not_mem_nil⟩

theorem Adds.trans (h : Adds env mapping state next block)
    (h' : Adds env mapping next last block') : Adds env mapping state last (block ++ block') := by
  have hrange : List.range' state.drawn block.length ++ List.range' next.drawn block'.length =
      List.range' state.drawn (block ++ block').length := by
    rw [h.drawn, List.range'_append_1, length_append]
  constructor
  · rw [h'.extracted, h.extracted, append_assoc]
  · rw [h'.tracking, h.tracking, trackAll_append]
  · rw [h'.drawn, h.drawn, length_append, Nat.add_assoc]
  · rw [map_append, h.uuids, h'.uuids, ← map_append, hrange]
  · intro e he
    exact (mem_append.mp he).elim (h.mapping e) (h'.mapping e)

theorem createObservable_drawn {value : String} {drawn : ℕ} {created : ExtractedObservable}
    (h : createObservable env mapping event type value matchedField drawn = some created) :
    created.mapping = mapping ∧ created.identity.uuid = ⟨env.root, drawn⟩ ∧
      created.identity.type = type ∧
      ∃ first, createObservable env mapping event type value matchedField 0 = some first ∧
        specOf first.identity = specOf created.identity := by
  have htags : ∀ (tags : List String) (o : Observable),
      (tags.foldl Observable.addTag o).toObservableIdentity = o.toObservableIdentity := by
    intro tags
    induction tags with
    | nil => exact fun _ => rfl
    | cons tag tags ih => exact fun o => ih (o.addTag tag)
  have hdirectives : ∀ (directives : List String) (o : Observable),
      (directives.foldl Observable.addDirective o).toObservableIdentity =
        o.toObservableIdentity := by
    intro directives
    induction directives with
    | nil => exact fun _ => rfl
    | cons directive directives ih => exact fun o => ih (o.addDirective directive)
  rw [createObservable] at h ⊢
  obtain ⟨constructed, hconstruct, rfl⟩ := Option.map_eq_some_iff.mp h
  simp only [ExtractedObservable.identity, htags, hdirectives, Observable.new, hconstruct,
    Option.map_some, Option.some.injEq, exists_eq_left', specOf, and_self]

theorem createObservable_eq_none {value : String} {drawn drawn' : ℕ}
    (h : createObservable env mapping event type value matchedField drawn = none) :
    createObservable env mapping event type value matchedField drawn' = none := by
  rw [createObservable] at h ⊢
  exact Option.map_eq_none_iff.mpr (Option.map_eq_none_iff.mp h)

/-- The observables of the block are the ones with the property. -/
def Covers (block : List ExtractedObservable) (p : ObservableSpec → Prop) : Prop :=
  ∀ s, (∃ e ∈ block, specOf e.identity = s) ↔ p s

variable {p q : ObservableSpec → Prop}

theorem Covers.append (h : Covers block p) (h' : Covers block' q) :
    Covers (block ++ block') fun s => p s ∨ q s := by
  intro s
  have hsplit : (∃ e ∈ block ++ block', specOf e.identity = s) ↔
      (∃ e ∈ block, specOf e.identity = s) ∨ ∃ e ∈ block', specOf e.identity = s := by
    simp only [mem_append, or_and_right, exists_or]
  exact hsplit.trans (or_congr (h s) (h' s))

theorem Covers.congr (h : Covers block p) (hiff : ∀ s, p s ↔ q s) : Covers block q :=
  fun s => (h s).trans (hiff s)

theorem covers_nil (hp : ∀ s, ¬ p s) : Covers [] p := fun s =>
  ⟨fun ⟨_, he, _⟩ => absurd he not_mem_nil, fun h => absurd h (hp s)⟩

theorem adds_of_processValue (htype : type ≠ fFile) {value : String}
    {loop after : Extraction × Option (List UInt8)}
    (h : processValue env mapping event type matchedField loop value = .ok after) :
    ∃ block, Adds env mapping loop.1 after.1 block ∧
      Covers block (Creates env mapping event type matchedField value) := by
  by_cases hskip : isSkipped env mapping value = true
  · rw [processValue_skipped hskip] at h
    rw [← Except.ok.inj h]
    refine ⟨[], .refl _ _, covers_nil fun s hcreates => ?_⟩
    rw [hcreates.1] at hskip
    cases hskip
  · rw [processValue, if_neg hskip, if_neg htype] at h
    rw [← Except.ok.inj h, extractObservable]
    have hskip' := Bool.eq_false_iff.mpr hskip
    cases hcreate : createObservable env mapping event type value matchedField loop.1.drawn with
    | none =>
      refine ⟨[], .refl _ _, covers_nil ?_⟩
      rintro s ⟨-, created, hcreated, -⟩
      rw [createObservable_eq_none hcreate] at hcreated
      cases hcreated
    | some created =>
      obtain ⟨hmapping, huuid, htype', first, hfirst, hspec⟩ := createObservable_drawn hcreate
      refine ⟨[created], ⟨rfl, ?_, rfl, ?_, ?_⟩, fun s => ?_⟩
      · simp only [trackAll, foldl_cons, foldl_nil, ExtractedObservable.identity]
      · rw [map_singleton, huuid]
        rfl
      · intro e he
        rw [mem_singleton.mp he]
        exact ⟨hmapping, htype' ▸ htype⟩
      · simp only [mem_singleton, exists_eq_left, Creates, hskip', true_and, hfirst,
          Option.some.injEq, exists_eq_left', hspec]

theorem adds_of_values (htype : type ≠ fFile) {values : List String}
    {loop after : Extraction × Option (List UInt8)}
    (h : values.foldlM (processValue env mapping event type matchedField) loop = .ok after) :
    ∃ block, Adds env mapping loop.1 after.1 block ∧
      Covers block fun s => ∃ value ∈ values, Creates env mapping event type matchedField value s := by
  induction values generalizing loop with
  | nil =>
    cases h
    exact ⟨[], .refl _ _, covers_nil (by simp)⟩
  | cons value values ih =>
    obtain ⟨mid, hmid, hrest⟩ := foldlM_cons_eq_ok_iff.mp h
    obtain ⟨block, hadds, hcovers⟩ := adds_of_processValue htype hmid
    obtain ⟨block', hadds', hcovers'⟩ := ih hrest
    refine ⟨block ++ block', hadds.trans hadds', (hcovers.append hcovers').congr fun s => ?_⟩
    simp only [exists_mem_cons_iff]

theorem adds_of_group {group : List String}
    (h : processMappingValues env mapping event (group.headD "") (overrideOf group) state =
      .ok next) :
    ∃ block, Adds env mapping state next block ∧ Covers block fun s =>
      ∃ type, mappingType env mapping event = some type ∧ type ≠ fFile ∧
        ∃ values, interpretEventValue env mapping event (overrideOf group) = .ok values ∧
          ∃ value ∈ values, Creates env mapping event type (group.headD "") value s := by
  cases htype : mappingType env mapping event with
  | none =>
    rw [processMappingValues, htype] at h
    rw [← Except.ok.inj h]
    exact ⟨[], .refl _ _, covers_nil (by simp)⟩
  | some type =>
    by_cases hfile : type = fFile
    · -- files add to the file contents only
      have hmapping : mapping.type = fFile := by
        by_contra hother
        exact mappingType_ne hother htype hfile
      rw [processMappingValues_file hmapping] at h
      cases hblock : filesOfBlock env computedContents event (mapping, group) with
      | error e =>
        rw [hblock] at h
        cases h
      | ok files =>
        rw [hblock] at h
        rw [← Except.ok.inj h]
        refine ⟨[], ⟨(append_nil _).symm, (trackAll_nil _ _).symm, rfl, rfl,
          fun _ he => absurd he not_mem_nil⟩, covers_nil ?_⟩
        rintro s ⟨type', htype', hne, -⟩
        exact hne (Option.some.inj htype' ▸ hfile)
    · rw [processMappingValues, htype] at h
      cases hvalues : interpretEventValue env mapping event (overrideOf group) with
      | error e =>
        simp only [hvalues] at h
        cases h
      | ok values =>
        simp only [hvalues] at h
        cases hloop : values.foldlM (processValue env mapping event type (group.headD ""))
            (state, none) with
        | error e =>
          rw [hloop] at h
          cases h
        | ok loop =>
          rw [hloop] at h
          rw [← Except.ok.inj h]
          obtain ⟨block, hadds, hcovers⟩ := adds_of_values hfile hloop
          refine ⟨block, hadds, hcovers.congr fun s => ?_⟩
          simp [hfile]

theorem adds_of_mapping (h : processMapping env event state mapping = .ok next) :
    ∃ block, Adds env mapping state next block ∧ Covers block (Produces env event mapping) := by
  rw [processMapping] at h
  cases hgroups : fieldGroups env mapping event with
  | error e =>
    rw [hgroups] at h
    cases h
  | ok groups =>
    simp only [hgroups] at h
    have hloop : ∃ block, Adds env mapping state next block ∧ Covers block fun s =>
        ∃ group ∈ groups, ∃ type, mappingType env mapping event = some type ∧ type ≠ fFile ∧
          ∃ values, interpretEventValue env mapping event (overrideOf group) = .ok values ∧
            ∃ value ∈ values, Creates env mapping event type (group.headD "") value s := by
      clear hgroups
      induction groups generalizing state with
      | nil =>
        cases h
        exact ⟨[], .refl _ _, covers_nil (by simp)⟩
      | cons group groups ih =>
        obtain ⟨mid, hmid, hrest⟩ := foldlM_cons_eq_ok_iff.mp h
        obtain ⟨block, hadds, hcovers⟩ := adds_of_group hmid
        obtain ⟨block', hadds', hcovers'⟩ := ih hrest
        refine ⟨block ++ block', hadds.trans hadds', (hcovers.append hcovers').congr fun s => ?_⟩
        simp only [exists_mem_cons_iff]
    obtain ⟨block, hadds, hcovers⟩ := hloop
    refine ⟨block, hadds, hcovers.congr fun s => ?_⟩
    constructor
    · rintro ⟨group, hgroup, type, htype, hne, values, hvalues, hcreates⟩
      exact ⟨type, htype, hne, groups, hgroups, group, hgroup, values, hvalues, hcreates⟩
    · rintro ⟨type, htype, hne, groups', hgroups', group, hgroup, values, hvalues, hcreates⟩
      rw [hgroups, Except.ok.injEq] at hgroups'
      exact ⟨group, hgroups' ▸ hgroup, type, htype, hne, values, hvalues, hcreates⟩

/-- What a list of mappings adds: a block for each of them. -/
structure AddsAll (env : ExtractionEnv) (event : Event) (mappings : List ObservableMapping)
    (state last : Extraction) (blocks : List (List ExtractedObservable)) : Prop where
  extracted : last.extracted = state.extracted ++ blocks.flatten
  tracking : last.relationshipTracking =
    (mappings.zip blocks).foldl (fun tracking added =>
      trackAll env added.1.relationships added.2 tracking) state.relationshipTracking
  uuids : blocks.flatten.map (·.identity.uuid) =
    (List.range' state.drawn blocks.flatten.length).map fun draw => ⟨env.root, draw⟩
  each : List.Forall₂ (fun mapping block => Covers block (Produces env event mapping) ∧
    ∀ e ∈ block, e.mapping = mapping ∧ e.identity.type ≠ fFile) mappings blocks

variable {mappings : List ObservableMapping}

theorem addsAll_of_foldlM (h : mappings.foldlM (processMapping env event) state = .ok last) :
    ∃ blocks, AddsAll env event mappings state last blocks := by
  induction mappings generalizing state with
  | nil =>
    cases h
    exact ⟨[], (append_nil _).symm, rfl, rfl, .nil⟩
  | cons mapping mappings ih =>
    obtain ⟨next, hnext, hrest⟩ := foldlM_cons_eq_ok_iff.mp h
    obtain ⟨block, hadds, hcovers⟩ := adds_of_mapping hnext
    obtain ⟨blocks, hextracted, htracking, huuids, heach⟩ := ih hrest
    have hrange : List.range' state.drawn block.length ++
        List.range' next.drawn blocks.flatten.length =
          List.range' state.drawn (block :: blocks).flatten.length := by
      rw [hadds.drawn, List.range'_append_1, flatten_cons, length_append]
    refine ⟨block :: blocks, ?_, ?_, ?_, .cons ⟨hcovers, hadds.mapping⟩ heach⟩
    · rw [hextracted, hadds.extracted, append_assoc, flatten_cons]
    · rw [htracking, hadds.tracking, zip_cons_cons, foldl_cons]
    · rw [← hrange, flatten_cons, map_append, map_append, hadds.uuids, huuids]

theorem exists_of_forall₂ {α β : Type*} {r : α → β → Prop} {l : List α} {l' : List β}
    (h : List.Forall₂ r l l') {a : α} (ha : a ∈ l) : ∃ b ∈ l', r a b := by
  induction h with
  | nil => cases ha
  | cons hab _ ih =>
    rcases mem_cons.mp ha with rfl | ha
    · exact ⟨_, mem_cons_self, hab⟩
    · obtain ⟨b, hb, hrel⟩ := ih ha
      exact ⟨b, mem_cons_of_mem _ hb, hrel⟩

theorem AddsAll.regular {blocks : List (List ExtractedObservable)}
    (h : AddsAll env event mappings state last blocks) :
    Regular (blocks.flatten.map ExtractedObservable.identity) := by
  constructor
  · intro o ho
    obtain ⟨e, he, rfl⟩ := mem_map.mp ho
    obtain ⟨block, hblock, he⟩ := mem_flatten.mp he
    obtain ⟨mapping, -, -, hmapping⟩ := exists_of_forall₂ h.each.flip hblock
    exact (hmapping e he).2
  · have hnodup : ((blocks.flatten.map ExtractedObservable.identity).map (·.uuid)).Nodup := by
      rw [map_map, Function.comp_def, h.uuids]
      exact List.Nodup.map (fun _ _ heq => (Analysis.NodeUuid.mk.inj heq).2) nodup_range'
    exact inj_on_of_nodup_map hnodup

/-! ## §3 The dictionary -/

variable {ids : List ObservableIdentity} {key other : ObservableIdentity} {tracking : Tracking}

theorem keys_trackSet (relationships : List RelationshipMapping)
    (hkeys : ∀ item ∈ tracking, item.1 ∈ ids) (hother : other ∈ ids) :
    ∀ item ∈ trackSet env other relationships tracking, item.1 ∈ ids := by
  induction tracking with
  | nil =>
    intro item hitem
    rw [mem_singleton.mp hitem]
    exact hother
  | cons held tracking ih =>
    obtain ⟨hheld, hrest⟩ := forall_mem_cons.mp hkeys
    rw [trackSet]
    split
    · exact forall_mem_cons.mpr ⟨hheld, hrest⟩
    · exact forall_mem_cons.mpr ⟨hheld, ih hrest⟩

theorem trackGet_trackSet_same (h : Regular ids) (hkeys : ∀ item ∈ tracking, item.1 ∈ ids)
    (hkey : key ∈ ids) (hother : other ∈ ids) (hslot : SameSlot env (specOf other) (specOf key))
    (relationships : List RelationshipMapping) :
    trackGet env key (trackSet env other relationships tracking) = relationships := by
  induction tracking with
  | nil => rw [trackSet, trackGet, if_pos ((h.sameKey_iff hother hkey).mpr hslot)]
  | cons held tracking ih =>
    obtain ⟨hheld, hrest⟩ := forall_mem_cons.mp hkeys
    rw [trackSet]
    split
    case isTrue hsame =>
      have hheldSlot := ((h.sameKey_iff hheld hother).mp hsame).trans hslot
      rw [trackGet, if_pos ((h.sameKey_iff hheld hkey).mpr hheldSlot)]
    case isFalse hsame =>
      have hne : ¬ sameKey env held.1 key = true := fun hheldKey => hsame <|
        (h.sameKey_iff hheld hother).mpr (((h.sameKey_iff hheld hkey).mp hheldKey).trans hslot.symm)
      rw [trackGet, if_neg hne, ih hrest]

theorem trackGet_trackSet_other (h : Regular ids) (hkeys : ∀ item ∈ tracking, item.1 ∈ ids)
    (hkey : key ∈ ids) (hother : other ∈ ids)
    (hslot : ¬ SameSlot env (specOf other) (specOf key))
    (relationships : List RelationshipMapping) :
    trackGet env key (trackSet env other relationships tracking) = trackGet env key tracking := by
  induction tracking with
  | nil =>
    rw [trackSet, trackGet.eq_2, if_neg (mt (h.sameKey_iff hother hkey).mp hslot)]
  | cons held tracking ih =>
    obtain ⟨hheld, hrest⟩ := forall_mem_cons.mp hkeys
    rw [trackSet]
    split
    case isTrue hsame =>
      have hne : ¬ sameKey env held.1 key = true := fun hheldKey => hslot <|
        ((h.sameKey_iff hheld hother).mp hsame).symm.trans ((h.sameKey_iff hheld hkey).mp hheldKey)
      rw [trackGet, trackGet, if_neg hne, if_neg hne]
    case isFalse => rw [trackGet, trackGet, ih hrest]

theorem keys_trackAll (relationships : List RelationshipMapping)
    (hkeys : ∀ item ∈ tracking, item.1 ∈ ids) (hblock : ∀ e ∈ block, e.identity ∈ ids) :
    ∀ item ∈ trackAll env relationships block tracking, item.1 ∈ ids := by
  unfold trackAll
  split
  · exact hkeys
  · induction block generalizing tracking with
    | nil => exact hkeys
    | cons e block ih =>
      obtain ⟨he, hrest⟩ := forall_mem_cons.mp hblock
      exact ih (keys_trackSet relationships hkeys he) hrest

theorem trackGet_trackAll (h : Regular ids) (hkeys : ∀ item ∈ tracking, item.1 ∈ ids)
    (hkey : key ∈ ids) (hblock : ∀ e ∈ block, e.identity ∈ ids)
    (relationships : List RelationshipMapping) :
    (relationships ≠ [] ∧ (∃ e ∈ block, SameSlot env (specOf e.identity) (specOf key)) ∧
        trackGet env key (trackAll env relationships block tracking) = relationships) ∨
      (¬ (relationships ≠ [] ∧ ∃ e ∈ block, SameSlot env (specOf e.identity) (specOf key)) ∧
        trackGet env key (trackAll env relationships block tracking) =
          trackGet env key tracking) := by
  unfold trackAll
  split
  case isTrue hempty => exact .inr ⟨fun hne => hne.1 (List.isEmpty_iff.mp hempty), rfl⟩
  case isFalse hempty =>
    have hne : relationships ≠ [] := fun heq => hempty (List.isEmpty_iff.mpr heq)
    induction block generalizing tracking with
    | nil => exact .inr ⟨by simp, rfl⟩
    | cons e block ih =>
      obtain ⟨he, hrest⟩ := forall_mem_cons.mp hblock
      rcases ih (keys_trackSet relationships hkeys he) hrest with
        ⟨-, ⟨e', he', hslot⟩, hget⟩ | ⟨hnone, hget⟩
      · exact .inl ⟨hne, ⟨e', mem_cons_of_mem _ he', hslot⟩, hget⟩
      · -- nothing of the rest is under the key, so it is the head that decides
        rw [foldl_cons, hget]
        by_cases hslot : SameSlot env (specOf e.identity) (specOf key)
        · exact .inl ⟨hne, ⟨e, mem_cons_self, hslot⟩,
            trackGet_trackSet_same h hkeys hkey he hslot relationships⟩
        · refine .inr ⟨?_, trackGet_trackSet_other h hkeys hkey he hslot relationships⟩
          rintro ⟨-, e', he', hslot'⟩
          rcases mem_cons.mp he' with rfl | he'
          · exact hslot hslot'
          · exact hnone ⟨hne, e', he', hslot'⟩

/-! ## §4 What is found -/

def ProducesUnder (env : ExtractionEnv) (event : Event) (mapping : ObservableMapping)
    (s : ObservableSpec) : Prop := ∃ s', Produces env event mapping s' ∧ SameSlot env s' s

def LastTracked (env : ExtractionEnv) (event : Event) (mappings : List ObservableMapping)
    (s : ObservableSpec) (mapping : ObservableMapping) : Prop :=
  ∃ before after, mappings = before ++ mapping :: after ∧ mapping.relationships ≠ [] ∧
    ProducesUnder env event mapping s ∧
    ∀ later ∈ after, later.relationships ≠ [] → ¬ ProducesUnder env event later s

theorem LastTracked.unique {s : ObservableSpec} {last last' : ObservableMapping}
    (h : LastTracked env event mappings s last) (h' : LastTracked env event mappings s last') :
    last = last' := by
  obtain ⟨before, after, heq, hne, hproduces, hlater⟩ := h
  obtain ⟨before', after', heq', hne', hproduces', hlater'⟩ := h'
  rcases append_eq_append_iff.mp (heq.symm.trans heq') with
    ⟨between, -, hsplit⟩ | ⟨between, -, hsplit⟩
  · cases between with
    | nil => exact (List.cons.inj hsplit).1
    | cons head between =>
      refine absurd hproduces' (hlater last' ?_ hne')
      rw [(List.cons.inj hsplit).2]
      exact mem_append_right _ mem_cons_self
  · cases between with
    | nil => exact (List.cons.inj hsplit).1.symm
    | cons head between =>
      refine absurd hproduces (hlater' last ?_ hne)
      rw [(List.cons.inj hsplit).2]
      exact mem_append_right _ mem_cons_self

theorem exists_under_iff (hcovers : Covers block (Produces env event mapping))
    (s : ObservableSpec) :
    (∃ e ∈ block, SameSlot env (specOf e.identity) s) ↔ ProducesUnder env event mapping s := by
  constructor
  · rintro ⟨e, he, hslot⟩
    exact ⟨specOf e.identity, (hcovers _).mp ⟨e, he, rfl⟩, hslot⟩
  · rintro ⟨s', hproduces, hslot⟩
    obtain ⟨e, he, rfl⟩ := (hcovers s').mpr hproduces
    exact ⟨e, he, hslot⟩

theorem trackGet_blocks {blocks : List (List ExtractedObservable)} (h : Regular ids)
    (heach : List.Forall₂ (fun mapping block => Covers block (Produces env event mapping) ∧
      ∀ e ∈ block, e.mapping = mapping ∧ e.identity.type ≠ fFile) mappings blocks)
    (hblocks : ∀ e ∈ blocks.flatten, e.identity ∈ ids) (hkey : key ∈ ids)
    (hkeys : ∀ item ∈ tracking, item.1 ∈ ids) :
    (∃ last, LastTracked env event mappings (specOf key) last ∧
        trackGet env key ((mappings.zip blocks).foldl (fun tracking added =>
          trackAll env added.1.relationships added.2 tracking) tracking) = last.relationships) ∨
      ((∀ mapping ∈ mappings, mapping.relationships ≠ [] →
          ¬ ProducesUnder env event mapping (specOf key)) ∧
        trackGet env key ((mappings.zip blocks).foldl (fun tracking added =>
          trackAll env added.1.relationships added.2 tracking) tracking) =
            trackGet env key tracking) := by
  induction heach generalizing tracking with
  | nil => exact .inr ⟨fun _ hmem => absurd hmem not_mem_nil, rfl⟩
  | @cons mapping block mappings blocks hblock _ ih =>
    have hfirst : ∀ e ∈ block, e.identity ∈ ids := fun e he =>
      hblocks e (mem_flatten.mpr ⟨block, mem_cons_self, he⟩)
    have hrest : ∀ e ∈ blocks.flatten, e.identity ∈ ids := fun e he =>
      hblocks e (mem_append_right _ he)
    rw [zip_cons_cons, foldl_cons]
    rcases ih hrest (keys_trackAll mapping.relationships hkeys hfirst) with
      ⟨last, ⟨before, after, rfl, hlast⟩, hget⟩ | ⟨hnone, hget⟩
    · exact .inl ⟨last, ⟨mapping :: before, after, rfl, hlast⟩, hget⟩
    · -- no later mapping writes under the key
      rw [hget]
      have hunder := exists_under_iff hblock.1 (specOf key)
      rcases trackGet_trackAll h hkeys hkey hfirst mapping.relationships with
        ⟨hne, hex, hfound⟩ | ⟨hnot, hold⟩
      · exact .inl ⟨mapping, ⟨[], mappings, rfl, hne, hunder.mp hex, hnone⟩, hfound⟩
      · refine .inr ⟨forall_mem_cons.mpr ⟨fun hne hproduces => ?_, hnone⟩, hold⟩
        exact hnot ⟨hne, hunder.mpr hproduces⟩

/-- For each observable that was extracted, every relationship of every mapping that produced an
equal one is found exactly when, for all equal observables that mappings produce, the relationships
of the first one's mapping are among those of the last mapping under the other one's key. -/
theorem no_relationship_lost_iff (env : ExtractionEnv) (event : Event)
    (mappings : List ObservableMapping) (result : Extraction)
    (h : extractObservablesFromEvent env event mappings = .ok result) :
    (∀ x ∈ result.extracted, ∀ y ∈ result.extracted,
        x.identity.eq env.runtime y.identity = true → ∀ relationship ∈ y.mapping.relationships,
          relationship ∈ trackGet env x.identity result.relationshipTracking) ↔
      ∀ mapping ∈ mappings, ∀ s, Produces env event mapping s →
        ∀ mapping' ∈ mappings, ∀ s', Produces env event mapping' s' → SameSpec env s s' →
          ∀ relationship ∈ mapping.relationships,
            ∃ last, LastTracked env event mappings s' last ∧
              relationship ∈ last.relationships := by
  obtain ⟨blocks, hadds⟩ := addsAll_of_foldlM h
  have hextracted : result.extracted = blocks.flatten := hadds.extracted
  have hregular := hadds.regular
  have hids : ∀ e ∈ blocks.flatten, e.identity ∈
      blocks.flatten.map ExtractedObservable.identity := fun e he => mem_map_of_mem he
  -- what is found for an extracted observable
  have hfound : ∀ x ∈ blocks.flatten, ∀ relationship,
      relationship ∈ trackGet env x.identity result.relationshipTracking ↔
        ∃ last, LastTracked env event mappings (specOf x.identity) last ∧
          relationship ∈ last.relationships := by
    intro x hx relationship
    rw [hadds.tracking]
    rcases trackGet_blocks hregular hadds.each hids (hids x hx) (forall_mem_nil _)
      with ⟨last, hlast, hget⟩ | ⟨hnone, hget⟩
    · rw [hget]
      constructor
      · exact fun hrel => ⟨last, hlast, hrel⟩
      · rintro ⟨last', hlast', hrel⟩
        rwa [hlast.unique hlast']
    · rw [hget]
      constructor
      · exact fun hrel => absurd hrel not_mem_nil
      · rintro ⟨last, ⟨before, after, rfl, hne, hproduces, -⟩, -⟩
        exact absurd hproduces (hnone last (mem_append_right _ mem_cons_self) hne)
  -- the extracted observables of a mapping are those that it produces
  have hproduced : ∀ x ∈ blocks.flatten,
      x.mapping ∈ mappings ∧ Produces env event x.mapping (specOf x.identity) := by
    intro x hx
    obtain ⟨block, hblock, hx⟩ := mem_flatten.mp hx
    obtain ⟨mapping, hmem, hcovers, hmapping⟩ := exists_of_forall₂ hadds.each.flip hblock
    rw [(hmapping x hx).1]
    exact ⟨hmem, (hcovers _).mp ⟨x, hx, rfl⟩⟩
  have hextracts : ∀ mapping ∈ mappings, ∀ s, Produces env event mapping s →
      ∃ x ∈ blocks.flatten, x.mapping = mapping ∧ specOf x.identity = s := by
    intro mapping hmem s hproduces
    obtain ⟨block, hblock, hcovers, hmapping⟩ := exists_of_forall₂ hadds.each hmem
    obtain ⟨x, hx, hspec⟩ := (hcovers s).mpr hproduces
    exact ⟨x, mem_flatten.mpr ⟨block, hblock, hx⟩, (hmapping x hx).1, hspec⟩
  rw [hextracted]
  constructor
  · intro hall mapping hmem s hproduces mapping' hmem' s' hproduces' hsame relationship hrel
    obtain ⟨y, hy, rfl, rfl⟩ := hextracts mapping hmem s hproduces
    obtain ⟨x, hx, -, rfl⟩ := hextracts mapping' hmem' s' hproduces'
    apply (hfound x hx relationship).mp
    exact hall x hx y hy ((hregular.eq_iff (hids x hx) (hids y hy)).mpr hsame.symm) relationship hrel
  · intro hall x hx y hy heq relationship hrel
    obtain ⟨hmem, hproduces⟩ := hproduced y hy
    obtain ⟨hmem', hproduces'⟩ := hproduced x hx
    apply (hfound x hx relationship).mpr
    exact hall _ hmem _ hproduces _ hmem' _ hproduces'
      ((hregular.eq_iff (hids x hx) (hids y hy)).mp heq).symm relationship hrel

def addressMapping (field relationship : String) : ObservableMapping :=
  { fileMapping with
    fields := [field]
    type := "ipv4"
    fileName := none
    relationships := [⟨relationship, "hostname", "host"⟩]
    fields_ne := cons_ne_nil _ _
    displayValue_of_file := fun _ => rfl
    file_of_template := by decide
    fallback_of_static := fun _ => rfl }

def addressEvent : Event :=
  ⟨[(.str "src", .atom (.str "10.0.0.1")), (.str "dst", .atom (.str "10.0.0.1"))], by decide⟩

def addressExtraction : Except ExtractionError Extraction :=
  extractObservablesFromEvent plainEnv addressEvent
    [addressMapping "src" "logged_into", addressMapping "dst" "executed_on"]

/-- With one mapping for the observables of a kind, nothing is lost. -/
theorem one_mapping_is_found : ∃ result,
    extractObservablesFromEvent plainEnv addressEvent [addressMapping "src" "logged_into"] =
      .ok result ∧
    ∀ x ∈ result.extracted, ∀ y ∈ result.extracted,
      x.identity.eq plainEnv.runtime y.identity = true →
        ∀ relationship ∈ y.mapping.relationships,
          relationship ∈ trackGet plainEnv x.identity result.relationshipTracking := by
  have hok : (extractObservablesFromEvent plainEnv addressEvent
      [addressMapping "src" "logged_into"]).isOk = true := by decide
  cases hextract : extractObservablesFromEvent plainEnv addressEvent
      [addressMapping "src" "logged_into"] with
  | error e =>
    rw [hextract] at hok
    cases hok
  | ok result =>
    refine ⟨result, rfl, (no_relationship_lost_iff _ _ _ _ hextract).mpr ?_⟩
    intro mapping hmem s hproduces mapping' hmem' s' hproduces' hsame relationship hrel
    obtain rfl := mem_singleton.mp hmem
    obtain rfl := mem_singleton.mp hmem'
    refine ⟨_, ⟨[], [], rfl, cons_ne_nil _ _, ?_, fun _ hlater => ?_⟩, hrel⟩
    · exact ⟨s', hproduces', .refl s'⟩
    · exact absurd hlater not_mem_nil

/-- The second mapping replaces the relationships of the first one. -/
theorem first_mapping_is_lost :
    ¬ ∀ (env : ExtractionEnv) (event : Event) (mappings : List ObservableMapping)
      (result : Extraction), extractObservablesFromEvent env event mappings = .ok result →
        ∀ x ∈ result.extracted, ∀ y ∈ result.extracted,
          x.identity.eq env.runtime y.identity = true →
            ∀ relationship ∈ y.mapping.relationships,
              relationship ∈ trackGet env x.identity result.relationshipTracking := by
  intro h
  have hfailed : addressExtraction.map (fun result => decide (∀ x ∈ result.extracted,
      ∀ y ∈ result.extracted, x.identity.eq plainEnv.runtime y.identity = true →
        ∀ relationship ∈ y.mapping.relationships,
          relationship ∈ trackGet plainEnv x.identity result.relationshipTracking)) =
        .ok false := by decide
  cases hextract : addressExtraction with
  | error e =>
    rw [hextract] at hfailed
    cases hfailed
  | ok result =>
    rw [hextract] at hfailed
    exact of_decide_eq_false (Except.ok.inj hfailed) (h _ _ _ result hextract)

end Ace3.Query
