import Ace3.Query.Extraction
import Mathlib.Tactic.Ring

/-!
# File Contents

The bytes of a file are computed in a variable that lives as long as the loop over the values of a
mapping. A decoder sets it for every value; without one it is only set while it is empty, so every
file after the first value gets the content of the first value.
-/

namespace Ace3.Query

open List
open Lib Lib.Nested Lib.FallibleMap
open Analysis (fFile)

variable (env : ExtractionEnv)

/-! ## §1 Contents by value -/

/-- The values of a mapping for a field group that are neither empty nor ignored. -/
def keptValues (mapping : ObservableMapping) (event : Event) (group : List String) :
    Except ExtractionError (List String) :=
  (interpretEventValue env mapping event (overrideOf group)).map fun values =>
    values.filter fun value => !isSkipped env mapping value

/-- The decoding of a value, or its encoding when there is no decoder. -/
def contentOf (mapping : ObservableMapping) (value : String) :
    Except ExtractionError (List UInt8) :=
  match mapping.fileDecoder with
  | some decoder => (decodeValue value decoder).mapError .decode
  | none => .ok (encodeUtf8 value)

/-- A mapping of files with a field group that it is processed for. -/
abbrev FileBlock := ObservableMapping × List String

def filesOfBlock
    (contents : ObservableMapping → List String → Except ExtractionError (List (List UInt8)))
    (event : Event) (block : FileBlock) : Except ExtractionError (List FileContent) :=
  match keptValues env block.1 event block.2 with
  | .error e => .error e
  | .ok values =>
    (contents block.1 values).map fun contents =>
      contents.flatMap (fileContentsOf env block.1 event)

def contentsByValue (mapping : ObservableMapping) (values : List String) :
    Except ExtractionError (List (List UInt8)) :=
  values.mapM (contentOf mapping)

def fileBlocks (event : Event) : List ObservableMapping → Except ExtractionError (List FileBlock)
  | [] => .ok []
  | mapping :: mappings =>
    if mapping.type = fFile then
      match fieldGroups env mapping event, fileBlocks event mappings with
      | .ok groups, .ok blocks => .ok (groups.map (mapping, ·) ++ blocks)
      | .error e, _ => .error e
      | _, .error e => .error e
    else fileBlocks event mappings

def expectedContents (event : Event) (mappings : List ObservableMapping) :
    Except ExtractionError (List FileContent) :=
  match fileBlocks env event mappings with
  | .error e => .error e
  | .ok blocks => (blocks.mapM (filesOfBlock env contentsByValue event)).map List.flatten

/-! ## §2 Contents as they are computed -/

/-- The contents that the loop computes: without a decoder, the encoding of the first value. -/
def computedContents (mapping : ObservableMapping) (values : List String) :
    Except ExtractionError (List (List UInt8)) :=
  match mapping.fileDecoder with
  | some _ => values.mapM (contentOf mapping)
  | none => .ok (values.map fun _ => encodeUtf8 (values.headD ""))

def Extraction.addFiles (state : Extraction) (files : List FileContent) : Extraction :=
  { state with fileContents := state.fileContents ++ files }

variable {env} {mapping : ObservableMapping} {event : Event} {state : Extraction}
  {matchedField : String}

theorem addFiles_nil (state : Extraction) : state.addFiles [] = state := by
  simp [Extraction.addFiles]

theorem addFiles_append (state : Extraction) (files more : List FileContent) :
    (state.addFiles files).addFiles more = state.addFiles (files ++ more) := by
  simp [Extraction.addFiles]

variable {loop : Extraction × Option (List UInt8)}

theorem processValue_skipped {type value : String} (hskip : isSkipped env mapping value = true) :
    processValue env mapping event type matchedField loop value = .ok loop := by
  rw [processValue, if_pos hskip]

theorem processValue_decoder {value : String} {decoder : DecoderType}
    (hdecoder : mapping.fileDecoder = some decoder) (hskip : ¬ isSkipped env mapping value = true) :
    processValue env mapping event fFile matchedField loop value =
      (contentOf mapping value).map fun content =>
        (loop.1.addFiles (fileContentsOf env mapping event content), some content) := by
  rw [processValue, if_neg hskip, if_pos rfl, contentOf, hdecoder]
  cases hdecode : decodeValue value decoder with
  | error e => simp [Except.map, Except.mapError, hdecode]
  | ok content =>
    simp only [hdecode]
    rfl

theorem processValue_plain {value : String} (hdecoder : mapping.fileDecoder = none)
    (hskip : ¬ isSkipped env mapping value = true) :
    processValue env mapping event fFile matchedField loop value =
      .ok (loop.1.addFiles
        (fileContentsOf env mapping event (loop.2.getD (encodeUtf8 value))),
        some (loop.2.getD (encodeUtf8 value))) := by
  rw [processValue, if_neg hskip, if_pos rfl, hdecoder]
  rfl

theorem foldlM_processValue_decoder {decoder : DecoderType}
    (hdecoder : mapping.fileDecoder = some decoder) (values : List String)
    (carried : Option (List UInt8)) :
    (values.foldlM (processValue env mapping event fFile matchedField) (state, carried)).map (·.1) =
      ((values.filter fun value => !isSkipped env mapping value).mapM (contentOf mapping)).map
        fun contents => state.addFiles (contents.flatMap (fileContentsOf env mapping event)) := by
  induction values generalizing state carried with
  | nil =>
    rw [foldlM_nil, filter_nil, mapM_nil]
    show Except.ok state = Except.ok (state.addFiles [])
    rw [addFiles_nil]
  | cons value values ih =>
    rw [foldlM_cons]
    by_cases hskip : isSkipped env mapping value = true
    · rw [processValue_skipped hskip, filter_cons_of_neg (by simp [hskip])]
      exact ih carried
    · rw [processValue_decoder hdecoder hskip, filter_cons_of_pos (by simp [hskip]),
        mapM_cons]
      cases contentOf mapping value with
      | error e => rfl
      | ok content =>
        refine (ih (some content)).trans ?_
        simp only [addFiles_append]
        cases (values.filter fun value => !isSkipped env mapping value).mapM (contentOf mapping) <;>
          rfl

theorem foldlM_processValue_plain (hdecoder : mapping.fileDecoder = none) (values : List String)
    (carried : Option (List UInt8)) :
    (values.foldlM (processValue env mapping event fFile matchedField) (state, carried)).map (·.1) =
      .ok (state.addFiles (((values.filter fun value => !isSkipped env mapping value).map fun _ =>
        carried.getD (encodeUtf8
          ((values.filter fun value => !isSkipped env mapping value).headD ""))).flatMap
            (fileContentsOf env mapping event))) := by
  induction values generalizing state carried with
  | nil => exact congrArg Except.ok (addFiles_nil state).symm
  | cons value values ih =>
    rw [foldlM_cons]
    by_cases hskip : isSkipped env mapping value = true
    · rw [processValue_skipped hskip, filter_cons_of_neg (by simp [hskip])]
      exact ih carried
    · rw [processValue_plain hdecoder hskip, filter_cons_of_pos (by simp [hskip])]
      refine (ih (some (carried.getD (encodeUtf8 value)))).trans ?_
      rw [addFiles_append]
      rfl

/-! ## §3 Blocks -/

theorem mappingType_file (hfile : mapping.type = fFile) :
    mappingType env mapping event = some fFile := by
  rw [mappingType, hfile, if_neg (by decide)]

theorem mappingType_ne (hother : mapping.type ≠ fFile) {type : String}
    (htype : mappingType env mapping event = some type) : type ≠ fFile := by
  rw [mappingType] at htype
  split at htype
  · rename_i htemplate
    unfold resolveMappingType at htype
    split at htype
    · cases htype
    · cases htype
    · simp only at htype
      split at htype
      · rename_i hresolved
        rw [← Option.some.inj htype]
        exact hresolved.1
      · split at htype
        · rename_i fallback hfallback
          split at htype
          · rw [← Option.some.inj htype]
            exact (mapping.fallback_static fallback hfallback).2
          · cases htype
        · cases htype
  · rwa [← Option.some.inj htype]

theorem processMappingValues_file (hfile : mapping.type = fFile) (group : List String) :
    processMappingValues env mapping event matchedField (overrideOf group) state =
      (filesOfBlock env computedContents event (mapping, group)).map state.addFiles := by
  rw [processMappingValues, mappingType_file hfile, filesOfBlock, keptValues]
  cases interpretEventValue env mapping event (overrideOf group) with
  | error e => rfl
  | ok values =>
    cases hdecoder : mapping.fileDecoder with
    | some decoder =>
      refine (foldlM_processValue_decoder hdecoder values none).trans ?_
      simp only [Except.map, computedContents, hdecoder]
      cases (values.filter fun value => !isSkipped env mapping value).mapM (contentOf mapping) <;>
        rfl
    | none =>
      refine (foldlM_processValue_plain hdecoder values none).trans ?_
      simp only [Except.map, computedContents, hdecoder]
      rfl

theorem processValue_other {type value : String} {loop next : Extraction × Option (List UInt8)}
    (hother : type ≠ fFile)
    (h : processValue env mapping event type matchedField loop value = .ok next) :
    next.1.fileContents = loop.1.fileContents := by
  rw [processValue] at h
  by_cases hskip : isSkipped env mapping value = true
  · rw [if_pos hskip] at h
    rw [← Except.ok.inj h]
  · rw [if_neg hskip, if_neg hother] at h
    rw [← Except.ok.inj h, extractObservable]
    split <;> rfl

theorem processMappingValues_other (hother : mapping.type ≠ fFile) {override : Option String}
    {next : Extraction}
    (h : processMappingValues env mapping event matchedField override state = .ok next) :
    next.fileContents = state.fileContents := by
  unfold processMappingValues at h
  split at h
  · rw [← Except.ok.inj h]
  · rename_i type htype
    split at h
    · cases h
    · rename_i values _
      cases hloop : values.foldlM (processValue env mapping event type matchedField)
          (state, none) with
      | error e =>
        rw [hloop] at h
        cases h
      | ok loop =>
        rw [hloop] at h
        rw [← Except.ok.inj h]
        refine foldlM_invariant (p := fun loop : Extraction × Option (List UInt8) =>
          loop.1.fileContents = state.fileContents) (fun b a next _ hb hstep => ?_) rfl hloop
        exact (processValue_other (mappingType_ne hother htype) hstep).trans hb

theorem exists_files {mappings : List ObservableMapping} {result : Extraction}
    (h : mappings.foldlM (processMapping env event) state = .ok result) :
    ∃ blocks files, fileBlocks env event mappings = .ok blocks ∧
      List.Forall₂ (fun block added => filesOfBlock env computedContents event block = .ok added)
        blocks files ∧
      result.fileContents = state.fileContents ++ files.flatten := by
  induction mappings generalizing state with
  | nil =>
    cases h
    exact ⟨[], [], rfl, .nil, by simp⟩
  | cons mapping mappings ih =>
    obtain ⟨next, hnext, hrest⟩ := foldlM_cons_eq_ok_iff.mp h
    obtain ⟨blocks, files, hblocks, hfiles, hresult⟩ := ih hrest
    rw [processMapping] at hnext
    cases hgroups : fieldGroups env mapping event with
    | error e =>
      rw [hgroups] at hnext
      cases hnext
    | ok groups =>
      simp only [hgroups] at hnext
      by_cases hfile : mapping.type = fFile
      · have hadded : ∃ added, List.Forall₂ (fun block added =>
            filesOfBlock env computedContents event block = .ok added)
              (groups.map (mapping, ·)) added ∧
            next.fileContents = state.fileContents ++ added.flatten := by
          clear h hrest ih hresult hgroups
          induction groups generalizing state with
          | nil =>
            cases hnext
            exact ⟨[], .nil, by simp⟩
          | cons group groups ih =>
            obtain ⟨mid, hmid, hnext⟩ := foldlM_cons_eq_ok_iff.mp hnext
            obtain ⟨added, hadded, heq⟩ := ih hnext
            rw [processMappingValues_file hfile] at hmid
            cases hblock : filesOfBlock env computedContents event (mapping, group) with
            | error e =>
              rw [hblock] at hmid
              cases hmid
            | ok first =>
              rw [hblock] at hmid
              rw [← Except.ok.inj hmid] at heq
              exact ⟨first :: added, .cons hblock hadded,
                heq.trans (by simp [Extraction.addFiles])⟩
        obtain ⟨added, hadded, heq⟩ := hadded
        refine ⟨groups.map (mapping, ·) ++ blocks, added ++ files, ?_,
          rel_append hadded hfiles, ?_⟩
        · rw [fileBlocks, if_pos hfile, hgroups, hblocks]
        · rw [hresult, heq, flatten_append, append_assoc]
      · have heq : next.fileContents = state.fileContents :=
          foldlM_invariant (p := fun s : Extraction => s.fileContents = state.fileContents)
            (fun _ _ _ _ hb hstep => (processMappingValues_other hfile hstep).trans hb) rfl hnext
        refine ⟨blocks, files, ?_, hfiles, heq ▸ hresult⟩
        rw [fileBlocks, if_neg hfile, hblocks]

theorem mem_fileBlocks_iff {mappings : List ObservableMapping} {blocks : List FileBlock}
    (h : fileBlocks env event mappings = .ok blocks) {group : List String} :
    (mapping, group) ∈ blocks ↔ mapping ∈ mappings ∧ mapping.type = fFile ∧
      ∃ groups, fieldGroups env mapping event = .ok groups ∧ group ∈ groups := by
  induction mappings generalizing blocks with
  | nil =>
    cases h
    simp
  | cons first mappings ih =>
    rw [fileBlocks] at h
    split at h
    · rename_i hfile
      split at h
      · rename_i groups rest hgroups hrest
        rw [← Except.ok.inj h, mem_append, mem_map, ih hrest, mem_cons, or_and_right]
        refine or_congr_left ⟨?_, ?_⟩
        · rintro ⟨g, hg, heq⟩
          obtain ⟨rfl, rfl⟩ := Prod.mk.inj heq
          exact ⟨rfl, hfile, groups, hgroups, hg⟩
        · rintro ⟨rfl, -, groups', hgroups', hg⟩
          rw [hgroups, Except.ok.injEq] at hgroups'
          exact ⟨group, hgroups' ▸ hg, rfl⟩
      · cases h
      · cases h
    · rename_i hother
      rw [ih h, mem_cons]
      refine ⟨fun ⟨hmem, hrest⟩ => ⟨.inr hmem, hrest⟩, ?_⟩
      rintro ⟨rfl | hmem, hfile, hrest⟩
      · exact absurd hfile hother
      · exact ⟨hmem, hfile, hrest⟩

/-! ## §4 When the contents follow -/

def fileNames (env : ExtractionEnv) (mapping : ObservableMapping) (event : Event) : List String :=
  (interpolateStrict env mapping.fileName event).filter (· ≠ "")

/-- A mapping has at most one value for a field group, apart from repetitions. -/
def SameValues (env : ExtractionEnv) (event : Event) (mapping : ObservableMapping)
    (group : List String) : Prop :=
  ∀ values, keptValues env mapping event group = .ok values → ∀ v ∈ values, ∀ w ∈ values, v = w

theorem encodeUtf8_inj {v w : String} : encodeUtf8 v = encodeUtf8 w ↔ v = w := by
  refine ⟨fun h => ?_, congrArg encodeUtf8⟩
  exact String.toByteArray_inj.mp (ByteArray.ext (Array.toList_inj.mp h))

theorem length_fileContentsOf (content : List UInt8) :
    (fileContentsOf env mapping event content).length = (fileNames env mapping event).length :=
  length_map _

theorem length_flatMap_fileContentsOf (contents : List (List UInt8)) :
    (contents.flatMap (fileContentsOf env mapping event)).length =
      contents.length * (fileNames env mapping event).length := by
  induction contents with
  | nil => simp
  | cons content contents ih =>
    rw [flatMap_cons, length_append, ih, length_fileContentsOf, length_cons]
    ring

theorem fileContentsOf_eq_iff {content other : List UInt8} :
    fileContentsOf env mapping event content = fileContentsOf env mapping event other ↔
      fileNames env mapping event = [] ∨ content = other := by
  unfold fileContentsOf
  rw [← fileNames]
  cases fileNames env mapping event with
  | nil => simp
  | cons name names =>
    refine ⟨fun h => .inr ?_, fun h => ?_⟩
    · exact (FileContent.mk.inj (List.cons.inj h).1).2.1
    · obtain h | rfl := h
      · cases h
      · rfl

/-- Two lists of contents give the same files only when they are equal, or there are no names. -/
theorem flatMap_fileContentsOf_eq_iff {contents others : List (List UInt8)}
    (hlength : contents.length = others.length) :
    contents.flatMap (fileContentsOf env mapping event) =
        others.flatMap (fileContentsOf env mapping event) ↔
      fileNames env mapping event = [] ∨ contents = others := by
  induction contents generalizing others with
  | nil =>
    rw [length_eq_zero_iff.mp hlength.symm]
    simp
  | cons content contents ih =>
    obtain ⟨other, others, rfl⟩ := exists_cons_of_length_eq_add_one hlength.symm
    have hrest := @ih others (by simpa using hlength)
    rw [flatMap_cons, flatMap_cons]
    constructor
    · intro h
      obtain ⟨hfirst, htail⟩ := append_inj h
        (by rw [length_fileContentsOf, length_fileContentsOf])
      obtain hnames | rfl := fileContentsOf_eq_iff.mp hfirst
      · exact .inl hnames
      · exact (hrest.mp htail).imp_right (congrArg (content :: ·))
    · rintro (hnames | heq)
      · rw [fileContentsOf_eq_iff.mpr (.inl hnames), hrest.mpr (.inl hnames)]
      · rw [(List.cons.inj heq).1, (List.cons.inj heq).2]

/-- The contents of a block follow its values exactly when it has a decoder, or no names, or one
value. -/
theorem filesOfBlock_eq_iff {block : FileBlock} {files : List FileContent}
    (h : filesOfBlock env computedContents event block = .ok files) :
    ∃ expected, filesOfBlock env contentsByValue event block = .ok expected ∧
      expected.length = files.length ∧
      (expected = files ↔ (block.1.fileDecoder = none →
        fileNames env block.1 event = [] ∨ SameValues env event block.1 block.2)) := by
  rw [filesOfBlock] at h ⊢
  cases hvalues : keptValues env block.1 event block.2 with
  | error e =>
    rw [hvalues] at h
    cases h
  | ok values =>
    simp only [hvalues] at h ⊢
    cases hdecoder : block.1.fileDecoder with
    | some decoder =>
      have hsame : computedContents block.1 values = contentsByValue block.1 values := by
        simp only [computedContents, hdecoder, contentsByValue]
      exact ⟨files, hsame ▸ h, rfl, by simp⟩
    | none =>
      have hexpected : contentsByValue block.1 values = .ok (values.map encodeUtf8) :=
        mapM_eq_ok fun value _ => by simp only [contentOf, hdecoder]
      have hcomputed : computedContents block.1 values =
          .ok (values.map fun _ => encodeUtf8 (values.headD "")) := by
        simp only [computedContents, hdecoder]
      rw [hcomputed] at h
      obtain rfl := (Except.ok.inj h).symm
      refine ⟨_, by rw [hexpected]; rfl, ?_, ?_⟩
      · rw [length_flatMap_fileContentsOf, length_flatMap_fileContentsOf, length_map,
          length_map]
      · rw [flatMap_fileContentsOf_eq_iff (by simp)]
        simp only [forall_const]
        refine or_congr_right ⟨fun heq => ?_, fun hsame => ?_⟩
        · have hhead : ∀ v ∈ values, v = values.headD "" := fun v hv =>
            encodeUtf8_inj.mp (map_inj_left.mp heq v hv)
          intro values' hvalues' v hv w hw
          obtain rfl := Except.ok.inj (hvalues.symm.trans hvalues')
          rw [hhead v hv, hhead w hw]
        · refine map_inj_left.mpr fun v hv => congrArg encodeUtf8 ?_
          obtain ⟨first, rest, rfl⟩ := exists_cons_of_ne_nil (ne_nil_of_mem hv)
          exact hsame _ hvalues v hv first mem_cons_self

/-- Where an extraction returns, the contents of its files follow their values exactly when every
mapping without a decoder has no names, or one value for each field group. -/
theorem file_contents_follow_values_iff (env : ExtractionEnv) (event : Event)
    (mappings : List ObservableMapping) :
    (∀ result, extractObservablesFromEvent env event mappings = .ok result →
        expectedContents env event mappings = .ok result.fileContents) ↔
      ((∃ e, extractObservablesFromEvent env event mappings = .error e) ∨
        ∀ mapping ∈ mappings, mapping.type = fFile → mapping.fileDecoder = none →
          fileNames env mapping event = [] ∨
            ∀ groups, fieldGroups env mapping event = .ok groups →
              ∀ group ∈ groups, SameValues env event mapping group) := by
  cases hextract : extractObservablesFromEvent env event mappings with
  | error e => simp
  | ok result =>
    obtain ⟨blocks, files, hblocks, hfiles, hresult⟩ := exists_files hextract
    rw [nil_append] at hresult
    simp only [Except.ok.injEq, forall_eq', reduceCtorEq, exists_false, false_or]
    -- the blocks have as many files as they should have, so they can be compared one by one
    have hexpected : ∃ expected,
        blocks.mapM (filesOfBlock env contentsByValue event) = .ok expected ∧
        (expected.flatten = files.flatten ↔ ∀ block ∈ blocks, block.1.fileDecoder = none →
          fileNames env block.1 event = [] ∨ SameValues env event block.1 block.2) := by
      clear hextract hblocks hresult
      induction hfiles with
      | nil => exact ⟨[], rfl, by simp⟩
      | @cons block added blocks files hblock _ ih =>
        obtain ⟨first, hfirst, hlength, hiff⟩ := filesOfBlock_eq_iff hblock
        obtain ⟨rest, hrest, hiff'⟩ := ih
        refine ⟨first :: rest, ?_, ?_⟩
        · rw [mapM_cons, hfirst, hrest]
          rfl
        · rw [flatten_cons, flatten_cons, forall_mem_cons, ← hiff, ← hiff']
          exact ⟨fun h => append_inj h hlength, fun ⟨h, h'⟩ => by rw [h, h']⟩
    obtain ⟨expected, hmapM, hiff⟩ := hexpected
    rw [expectedContents, hblocks]
    simp only [hmapM, hresult, Except.map, Except.ok.injEq, hiff]
    constructor
    · intro h mapping hmem hfile hdecoder
      by_cases hnames : fileNames env mapping event = []
      · exact .inl hnames
      · refine .inr fun groups hgroups group hgroup => ?_
        exact (h (mapping, group) ((mem_fileBlocks_iff hblocks).mpr
          ⟨hmem, hfile, groups, hgroups, hgroup⟩) hdecoder).resolve_left hnames
    · rintro h ⟨mapping, group⟩ hblock hdecoder
      obtain ⟨hmem, hfile, groups, hgroups, hgroup⟩ := (mem_fileBlocks_iff hblocks).mp hblock
      exact (h mapping hmem hfile hdecoder).imp_right fun h => h groups hgroups group hgroup

def fileMapping : ObservableMapping where
  field := none
  fields := ["data"]
  type := fFile
  tags := []
  directives := []
  time := false
  ignoredValuePatterns := []
  displayType := none
  displayValue := none
  fieldsMode := .all
  fieldLookupType := .key
  value := none
  fileName := some "out.txt"
  fileDecoder := none
  volatile := false
  relationships := []
  limit := none
  fallbackType := none
  fields_ne := by decide
  value_of_any := fun _ => rfl
  displayValue_of_file := fun _ => rfl
  file_of_template := by decide
  fallback_of_static := fun _ => rfl
  fallback_static := nofun

/-- The file for the second value of a list gets the content of the first value. -/
theorem second_file_has_first_content :
    ¬ ∀ (env : ExtractionEnv) (event : Event) (mappings : List ObservableMapping) (result : Extraction),
      extractObservablesFromEvent env event mappings = .ok result →
        expectedContents env event mappings = .ok result.fileContents := by
  intro h
  let event : Event :=
    ⟨[(.str "data", .list [.atom (.str "one"), .atom (.str "two")])], by decide⟩
  have hexpected : (expectedContents plainEnv event [fileMapping]).map (·.map (·.content)) =
      .ok [encodeUtf8 "one", encodeUtf8 "two"] := by decide
  have hcomputed : (extractObservablesFromEvent plainEnv event [fileMapping]).map
      (fun result => result.fileContents.map (·.content)) =
        .ok [encodeUtf8 "one", encodeUtf8 "one"] := by decide
  cases hextract : extractObservablesFromEvent plainEnv event [fileMapping] with
  | error e =>
    rw [hextract] at hcomputed
    cases hcomputed
  | ok result =>
    rw [h plainEnv event [fileMapping] result hextract] at hexpected
    rw [hextract] at hcomputed
    have hboth := (Except.ok.inj hcomputed).symm.trans (Except.ok.inj hexpected)
    revert hboth
    decide

end Ace3.Query
