import Ace3.Lib.Tokens
import Ace3.HuntCompiler.Compiler

/-!
# Expanding the Token Re-roots the References

A plan spells its references with the token, the loader expands the token in what came of it. Where
the token occurs neither in the document nor in a packaged path, this is the plan with its
references spelled below the directory.
-/

namespace Ace3.HuntCompiler

open List
open Lib

/-! ## §1 Strings of documents -/

theorem pkgToken_ne_nil : pkgToken ≠ [] := by decide

theorem expand_tokenPath {tempDir path : Text} (h : ¬ pkgToken <:+: path) :
    expand tempDir (pkgToken ++ path) = expansion tempDir ++ path := by
  unfold expand
  rw [Tokens.replace_word_append pkgToken_ne_nil, Tokens.replace_of_not_infix h]

namespace Yaml

mutual

theorem mapText_of_lacks {tempDir : Text} :
    ∀ {value : Yaml}, value.Lacks pkgToken → value.mapText (expand tempDir) = value
  | scalar _ _, _ => rfl
  | str _, h => congrArg str <| Tokens.replace_of_not_infix h
  | seq _, h => congrArg seq (mapTexts_of_lacks h)
  | map _, h => congrArg map (mapTextEntries_of_lacks h)

theorem mapTexts_of_lacks {tempDir : Text} :
    ∀ {items : List Yaml}, LacksAll pkgToken items → mapTexts (expand tempDir) items = items
  | [], _ => rfl
  | _ :: _, h => by rw [mapTexts, mapText_of_lacks h.1, mapTexts_of_lacks h.2]

theorem mapTextEntries_of_lacks {tempDir : Text} : ∀ {entries : YamlMap},
    LacksEntries pkgToken entries → mapTextEntries (expand tempDir) entries = entries
  | [], _ => rfl
  | (_, _) :: _, h => by rw [mapTextEntries, mapText_of_lacks h.2.1, mapTextEntries_of_lacks h.2.2]

end

theorem mapTexts_eq_map (change : Text → Text) (items : List Yaml) :
    mapTexts change items = items.map (mapText change) := by
  induction items with
  | nil => rfl
  | cons value items ih => rw [mapTexts, ih, map_cons]

theorem mapTextEntries_eq_map (change : Text → Text) (entries : YamlMap) :
    mapTextEntries change entries =
      entries.map fun entry => (entry.1, entry.2.mapText change) := by
  induction entries with
  | nil => rfl
  | cons entry entries ih =>
    obtain ⟨key, value⟩ := entry
    rw [mapTextEntries, ih, map_cons]

theorem lacksAll_iff {word : Text} {items : List Yaml} :
    LacksAll word items ↔ ∀ value ∈ items, value.Lacks word := by
  induction items with
  | nil => exact iff_of_true trivial nofun
  | cons value items ih => rw [LacksAll, ih, forall_mem_cons]

theorem lacks_of_get {word : Text} {entries : YamlMap} {key : String} {value : Yaml}
    (h : LacksEntries word entries) (hget : entries.get key = some value) : value.Lacks word := by
  induction entries with
  | nil => cases hget
  | cons entry entries ih =>
    obtain ⟨key', value'⟩ := entry
    unfold YamlMap.get at hget ih
    rw [lookup_cons] at hget
    split at hget
    · cases hget
      exact h.2.1
    · exact ih h.2.2 hget

theorem mapTextEntries_set (change : Text → Text) (entries : YamlMap) (key : String)
    (value : Yaml) :
    mapTextEntries change (entries.set key value) =
      YamlMap.set (mapTextEntries change entries) key (value.mapText change) := by
  rw [mapTextEntries_eq_map, mapTextEntries_eq_map, YamlMap.set, YamlMap.set, map_map,
    map_map]
  refine map_congr_left fun entry _ => ?_
  simp only [Function.comp_apply]
  split <;> rfl

end Yaml

/-! ## §2 Query texts -/

theorem eq_of_markerAt {text authored : Text} (h : markerAt text = some authored) :
    ∃ rest, text = markerStart ++ authored ++ '>' :: rest := by
  unfold markerAt at h
  simp only at h
  split at h
  · next hmarker =>
    obtain ⟨⟨after, rfl⟩, _, hlength⟩ := hmarker
    rw [drop_left] at h hlength
    have hauthored : after.takeWhile (· ≠ '>') = authored := Option.some.inj h
    have hsplit := after.takeWhile_append_dropWhile (p := (· ≠ '>'))
    rw [hauthored] at hsplit hlength
    rw [length_append] at hlength
    cases hafter : after.dropWhile (· ≠ '>') with
    | nil =>
      -- the path would take all of the text
      rw [hafter, append_nil] at hsplit
      rw [hsplit] at hlength
      exact absurd hlength (Nat.lt_irrefl _)
    | cons sign rest =>
      have hsign : sign = '>' := by
        have hhead := List.head?_dropWhile_not (p := (· ≠ '>')) (l := after)
        rw [hafter] at hhead
        simpa using hhead
      refine ⟨rest, ?_⟩
      rw [append_assoc, ← hsign, ← hafter, hsplit]
  · cases h

theorem flatMap_queryPiecesFrom (skip : Nat) (text : Text) :
    (queryPiecesFrom skip text).flatMap (QueryPiece.render id) = text.drop skip := by
  induction text generalizing skip with
  | nil => cases skip <;> rfl
  | cons sign text ih =>
    cases skip with
    | succ skip => exact ih skip
    | zero =>
      unfold queryPiecesFrom
      cases hmarker : markerAt (sign :: text) with
      | none =>
        show sign :: (queryPiecesFrom 0 text).flatMap (QueryPiece.render id) = sign :: text
        rw [ih 0, drop_zero]
      | some authored =>
        obtain ⟨rest, htext⟩ := eq_of_markerAt hmarker
        show QueryPiece.render id (.marker authored) ++
          (queryPiecesFrom (markerStart.length + authored.length) text).flatMap _ = sign :: text
        have hrest : text.drop (markerStart.length + authored.length) = rest := by
          have hdrop : (sign :: text).drop (markerStart.length + authored.length + 1) = rest := by
            have hlength : markerStart.length + authored.length + 1 =
                (markerStart ++ authored ++ ['>']).length := by simp [Nat.add_assoc]
            have hsplit : markerStart ++ authored ++ '>' :: rest =
                markerStart ++ authored ++ ['>'] ++ rest := append_cons _ _ _
            rw [htext, hlength, hsplit, drop_left]
          exact hdrop
        rw [ih, hrest, htext, append_cons]
        rfl

theorem flatMap_queryPieces (text : Text) :
    (queryPieces text).flatMap (QueryPiece.render id) = text := flatMap_queryPiecesFrom 0 text

theorem prefix_of_render {word : Text} {spell : Text → Text} {pieces : List QueryPiece}
    (hword : '<' ∉ word) (h : word <+: pieces.flatMap (QueryPiece.render spell)) :
    word <+: pieces.flatMap (QueryPiece.render id) := by
  induction pieces generalizing word with
  | nil => exact h
  | cons piece pieces ih =>
    cases word with
    | nil => exact nil_prefix
    | cons first word =>
      cases piece with
      | letter sign =>
        obtain ⟨rfl, hrest⟩ := cons_prefix_cons.mp h
        have hword' : '<' ∉ word := fun hmem => hword (mem_cons_of_mem _ hmem)
        exact cons_prefix_cons.mpr ⟨rfl, ih hword' hrest⟩
      | marker authored =>
        -- a marker begins with `<`
        obtain ⟨rfl, _⟩ := cons_prefix_cons.mp h
        exact absurd mem_cons_self hword

theorem expand_pieces {tempDir : Text} {path : Text → Text} {pieces : List QueryPiece}
    (hquery : ¬ pkgToken <:+: pieces.flatMap (QueryPiece.render id))
    (hpaths : ∀ authored, .marker authored ∈ pieces → ¬ pkgToken <:+: path authored) :
    expand tempDir (pieces.flatMap (QueryPiece.render fun authored => pkgToken ++ path authored)) =
      pieces.flatMap (QueryPiece.render fun authored => expansion tempDir ++ path authored) := by
  induction pieces with
  | nil => rfl
  | cons piece pieces ih =>
    have hrest : ¬ pkgToken <:+: pieces.flatMap (QueryPiece.render id) := fun h =>
      hquery (h.trans (suffix_append _ _).isInfix)
    have hih := ih hrest fun authored hmem => hpaths authored (mem_cons_of_mem _ hmem)
    unfold expand at hih ⊢
    rw [flatMap_cons, flatMap_cons]
    cases piece with
    | letter sign =>
      have hstart : ¬ pkgToken <+: sign :: pieces.flatMap
          (QueryPiece.render fun authored => pkgToken ++ path authored) := by
        intro h
        have hbefore : pkgToken <+: (QueryPiece.letter sign :: pieces).flatMap
            (QueryPiece.render id) := prefix_of_render (by decide) h
        exact hquery hbefore.isInfix
      simp only [QueryPiece.render, singleton_append]
      rw [Tokens.replace_cons hstart, hih]
    | marker authored =>
      have hpath := hpaths authored mem_cons_self
      have hstart : markerStart = "<include".toList ++ [':'] := by decide
      simp only [QueryPiece.render, hstart, append_assoc, cons_append, nil_append]
      rw [Tokens.replace_append_cons (by decide) (by decide),
        Tokens.replace_word_append pkgToken_ne_nil,
        Tokens.replace_append_cons hpath (by decide), hih]

/-! ## §3 Combinators -/

namespace Plan

variable {β γ : Type} {tempDir : Text} {change : β → β}

def authoredOf (references : List Reference) : List Text :=
  references.filterMap fun reference =>
    match reference.authored with
    | .str authored => some authored
    | _ => none

def authored (plan : Plan β) : List Text := authoredOf plan.references

/-- Expanding the token in the plan's part re-roots its references, for packaged paths without the
token. -/
def Expands (tempDir : Text) (change : β → β) (plan : Plan β) : Prop :=
  ∀ path : Text → Text, (∀ authored ∈ plan.authored, ¬ pkgToken <:+: path authored) →
    change (plan.fill fun authored => pkgToken ++ path authored) =
      plan.fill fun authored => expansion tempDir ++ path authored

/-- The fields of a mapping re-root their references. -/
def FieldsExpand (tempDir : Text) (fields : List (String × Plan Yaml)) : Prop :=
  ∀ field ∈ fields, field.2.Expands tempDir (Yaml.mapText (expand tempDir))

theorem expands_keep {part : β} (h : change part = part) :
    (Plan.keep part).Expands tempDir change := fun _ _ => h

theorem Expands.map {plan : Plan β} (h : plan.Expands tempDir change) {change' : γ → γ}
    (f : β → γ) (hf : ∀ part, change' (f part) = f (change part)) :
    (plan.map f).Expands tempDir change' := by
  intro path hpaths
  show change' (f _) = f _
  rw [hf, h path hpaths]

theorem expands_reference {role : Role} {value : Yaml} (h : value.Lacks pkgToken) :
    (Plan.reference role value).Expands tempDir (Yaml.mapText (expand tempDir)) := by
  intro path hpaths
  cases value with
  | str text =>
    have hpath := hpaths text (mem_singleton.mpr rfl)
    exact congrArg Yaml.str (expand_tokenPath hpath)
  | scalar repr truthy => exact Yaml.mapText_of_lacks h
  | seq items => exact Yaml.mapText_of_lacks h
  | map entries => exact Yaml.mapText_of_lacks h

theorem authored_list (plans : List (Plan β)) :
    (Plan.list plans).authored = plans.flatMap (·.authored) := by
  simp only [authored, authoredOf, list, filterMap_flatMap]

theorem authored_keys (entries : YamlMap) (fields : List (String × Plan Yaml)) :
    (Plan.keys entries fields).authored = fields.flatMap (·.2.authored) := by
  simp only [authored, authoredOf, keys, filterMap_flatMap]

theorem expands_list {plans : List (Plan β)} (h : ∀ plan ∈ plans, plan.Expands tempDir change) :
    (Plan.list plans).Expands tempDir (List.map change) := by
  intro path hpaths
  rw [authored_list] at hpaths
  show List.map change (plans.map _) = plans.map _
  rw [map_map]
  refine map_congr_left fun plan hplan => h plan hplan path fun authored hauthored => ?_
  exact hpaths authored (mem_flatMap.mpr ⟨plan, hplan, hauthored⟩)

theorem expands_keys {entries : YamlMap} {fields : List (String × Plan Yaml)}
    (hentries : Yaml.LacksEntries pkgToken entries) (h : FieldsExpand tempDir fields) :
    (Plan.keys entries fields).Expands tempDir (Yaml.mapTextEntries (expand tempDir)) := by
  intro path hpaths
  rw [authored_keys] at hpaths
  -- the mapping before a field is set expands to the mapping before it is set
  have hfold : ∀ entries', Yaml.mapTextEntries (expand tempDir)
      (fields.foldl (fun entries field =>
        entries.set field.1 (field.2.fill fun authored => pkgToken ++ path authored)) entries') =
      fields.foldl (fun entries field =>
        entries.set field.1 (field.2.fill fun authored => expansion tempDir ++ path authored))
        (Yaml.mapTextEntries (expand tempDir) entries') := by
    induction fields with
    | nil => exact fun _ => rfl
    | cons field fields ih =>
      intro entries'
      have hfield := h field mem_cons_self path fun authored hauthored =>
        hpaths authored (mem_flatMap.mpr ⟨field, mem_cons_self, hauthored⟩)
      rw [foldl_cons, foldl_cons, ih, Yaml.mapTextEntries_set, hfield]
      · exact fun other hother => h other (mem_cons_of_mem _ hother)
      · intro authored hauthored
        obtain ⟨other, hother, hmem⟩ := mem_flatMap.mp hauthored
        exact hpaths authored (mem_flatMap.mpr ⟨other, mem_cons_of_mem _ hother, hmem⟩)
  show Yaml.mapTextEntries (expand tempDir) (fields.foldl _ entries) = _
  rw [hfold, Yaml.mapTextEntries_of_lacks hentries]
  rfl

theorem fieldsExpand_nil : FieldsExpand tempDir [] := nofun

theorem fieldsExpand_singleton {key : String} {plan : Plan Yaml}
    (h : plan.Expands tempDir (Yaml.mapText (expand tempDir))) :
    FieldsExpand tempDir [(key, plan)] := by
  intro field hfield
  rw [mem_singleton.mp hfield]
  exact h

theorem FieldsExpand.append {fields others : List (String × Plan Yaml)}
    (h : FieldsExpand tempDir fields) (h' : FieldsExpand tempDir others) :
    FieldsExpand tempDir (fields ++ others) := fun field hfield =>
  (mem_append.mp hfield).elim (h field) (h' field)

theorem expands_references {role : Role} {items : List Yaml}
    (h : Yaml.LacksAll pkgToken items) :
    ((Plan.list (items.map (Plan.reference role))).map .seq).Expands tempDir
      (Yaml.mapText (expand tempDir)) := by
  refine (expands_list ?_).map Yaml.seq fun part => congrArg Yaml.seq (Yaml.mapTexts_eq_map _ part)
  intro plan hplan
  obtain ⟨value, hvalue, rfl⟩ := mem_map.mp hplan
  exact expands_reference (Yaml.lacksAll_iff.mp h value hvalue)

theorem Expands.toMap {plan : Plan YamlMap}
    (h : plan.Expands tempDir (Yaml.mapTextEntries (expand tempDir))) :
    (plan.map .map).Expands tempDir (Yaml.mapText (expand tempDir)) :=
  h.map Yaml.map fun _ => rfl

theorem Expands.toSeq {plan : Plan (List Yaml)}
    (h : plan.Expands tempDir (List.map (Yaml.mapText (expand tempDir)))) :
    (plan.map .seq).Expands tempDir (Yaml.mapText (expand tempDir)) :=
  h.map Yaml.seq fun part => congrArg Yaml.seq (Yaml.mapTexts_eq_map _ part)

end Plan

/-! ## §4 Commands, rules and documents -/

section Documents

open Plan

variable {tempDir : Text}

theorem authored_rewriteQueryIncludes {text authored : Text}
    (h : .marker authored ∈ queryPieces text) :
    authored ∈ (rewriteQueryIncludes text).authored := by
  refine mem_filterMap.mpr ⟨⟨.queryInclude, .str authored⟩, ?_, rfl⟩
  exact mem_filterMap.mpr ⟨.marker authored, h, rfl⟩

theorem expands_rewriteQueryIncludes {text : Text} (h : ¬ pkgToken <:+: text) :
    (rewriteQueryIncludes text).Expands tempDir (expand tempDir) := by
  intro path hpaths
  refine expand_pieces ?_ fun authored hauthored =>
    hpaths authored (authored_rewriteQueryIncludes hauthored)
  rwa [flatMap_queryPieces]

theorem fieldsExpand_commandPath {cmd : YamlMap} (h : Yaml.LacksEntries pkgToken cmd) :
    FieldsExpand tempDir (commandPath cmd) := by
  unfold commandPath
  split
  · next hpath =>
    split
    · exact fieldsExpand_singleton (expands_reference (Yaml.lacks_of_get h hpath))
    · exact fieldsExpand_nil
  · exact fieldsExpand_nil

theorem fieldsExpand_commandFiles {cmd : YamlMap} (h : Yaml.LacksEntries pkgToken cmd) :
    FieldsExpand tempDir (commandFiles cmd) := by
  unfold commandFiles
  split
  · next hfiles => exact fieldsExpand_singleton (expands_references (Yaml.lacks_of_get h hfiles))
  · exact fieldsExpand_nil

theorem expands_rewriteCommand {cmd : YamlMap} (h : Yaml.LacksEntries pkgToken cmd) :
    (rewriteCommand cmd).Expands tempDir (Yaml.mapTextEntries (expand tempDir)) :=
  expands_keys h ((fieldsExpand_commandPath h).append (fieldsExpand_commandFiles h))

theorem fieldsExpand_transformCommand {step : YamlMap} (h : Yaml.LacksEntries pkgToken step) :
    FieldsExpand tempDir (transformCommand step) := by
  unfold transformCommand
  split
  · next transform htransform =>
    have htransform' : Yaml.LacksEntries pkgToken transform := Yaml.lacks_of_get h htransform
    split
    · next cmd hcmd =>
      refine fieldsExpand_singleton (Expands.toMap (expands_keys htransform' ?_))
      exact fieldsExpand_singleton
        (Expands.toMap (expands_rewriteCommand (Yaml.lacks_of_get htransform' hcmd)))
    · exact fieldsExpand_nil
  · exact fieldsExpand_nil

theorem fieldsExpand_branches {step : YamlMap} {execute otherwise : Option (Plan (List Yaml))}
    (h : ∀ plan ∈ execute, plan.Expands tempDir (List.map (Yaml.mapText (expand tempDir))))
    (h' : ∀ plan ∈ otherwise, plan.Expands tempDir (List.map (Yaml.mapText (expand tempDir)))) :
    FieldsExpand tempDir (branches step execute otherwise) := by
  unfold branches
  split
  · refine FieldsExpand.append ?_ ?_ <;> intro field hfield <;>
      obtain ⟨plan, hplan, rfl⟩ := mem_map.mp hfield
    · exact Expands.toSeq (h plan (Option.mem_toList.mp hplan))
    · exact Expands.toSeq (h' plan (Option.mem_toList.mp hplan))
  · exact fieldsExpand_nil

mutual

theorem expands_rewriteLogic : ∀ {steps : List Yaml}, Yaml.LacksAll pkgToken steps →
    ∀ plan ∈ rewriteLogic steps, plan.Expands tempDir (Yaml.mapText (expand tempDir))
  | [], _, _, hplan => by
    rw [rewriteLogic] at hplan
    cases hplan
  | step :: steps, h, plan, hplan => by
    rw [rewriteLogic] at hplan
    rcases mem_cons.mp hplan with rfl | hplan
    · exact expands_rewriteStep h.1
    · exact expands_rewriteLogic h.2 plan hplan

theorem expands_rewriteStep : ∀ {step : Yaml}, step.Lacks pkgToken →
    (rewriteStep step).Expands tempDir (Yaml.mapText (expand tempDir))
  | .map step, h => by
    rw [rewriteStep]
    refine Expands.toMap (expands_keys h ((fieldsExpand_transformCommand h).append ?_))
    exact fieldsExpand_branches (expands_branch "execute" h) (expands_branch "else" h)
  | .scalar _ _, _ => by
    rw [rewriteStep]
    exact expands_keep rfl
  | .str _, h => by
    rw [rewriteStep]
    exact expands_keep (Yaml.mapText_of_lacks h)
  | .seq _, h => by
    rw [rewriteStep]
    exact expands_keep (Yaml.mapText_of_lacks h)

theorem expands_branch (key : String) : ∀ {step : YamlMap}, Yaml.LacksEntries pkgToken step →
    ∀ plan ∈ branch key step, plan.Expands tempDir (List.map (Yaml.mapText (expand tempDir)))
  | [], _, _, hplan => by
    rw [branch] at hplan
    cases hplan
  | (key', value) :: entries, h, plan, hplan => by
    unfold branch at hplan
    split at hplan
    · split at hplan
      · cases hplan
        exact expands_list (expands_rewriteLogic h.2.1)
      · cases hplan
    · exact expands_branch key h.2.2 plan hplan

end

theorem lacks_of_truthyField {entries : YamlMap} {key : String} {value : Yaml}
    (h : Yaml.LacksEntries pkgToken entries) (hfield : truthyField entries key = some value) :
    value.Lacks pkgToken :=
  Yaml.lacks_of_get h (Option.filter_eq_some_iff.mp hfield).1

variable {rule : YamlMap}

theorem fieldsExpand_ruleQueryFile (h : Yaml.LacksEntries pkgToken rule) :
    FieldsExpand tempDir (ruleQueryFile rule) := by
  unfold ruleQueryFile
  split
  · next hpath => exact fieldsExpand_singleton (expands_reference (lacks_of_truthyField h hpath))
  · next hpath => exact fieldsExpand_singleton (expands_reference (lacks_of_truthyField h hpath))
  · exact fieldsExpand_nil

theorem fieldsExpand_ruleQuery (h : Yaml.LacksEntries pkgToken rule) :
    FieldsExpand tempDir (ruleQuery rule) := by
  unfold ruleQuery
  split
  · next hquery =>
    refine fieldsExpand_singleton ?_
    exact (expands_rewriteQueryIncludes (Yaml.lacks_of_get h hquery)).map Yaml.str fun _ => rfl
  · exact fieldsExpand_nil

theorem fieldsExpand_ruleCorrelate (h : Yaml.LacksEntries pkgToken rule) :
    FieldsExpand tempDir (ruleCorrelate rule) := by
  unfold ruleCorrelate
  split
  · next correlate hcorrelate =>
    have hcorrelate' : Yaml.LacksEntries pkgToken correlate := Yaml.lacks_of_get h hcorrelate
    split
    · next steps hlogic =>
      refine fieldsExpand_singleton (Expands.toMap (expands_keys hcorrelate' ?_))
      refine fieldsExpand_singleton (Expands.toSeq (expands_list ?_))
      exact expands_rewriteLogic (Yaml.lacks_of_get hcorrelate' hlogic)
    · exact fieldsExpand_nil
  · exact fieldsExpand_nil

theorem expands_rewriteRule (h : Yaml.LacksEntries pkgToken rule) :
    (rewriteRule rule).Expands tempDir (Yaml.mapTextEntries (expand tempDir)) :=
  expands_keys h (((fieldsExpand_ruleQueryFile h).append (fieldsExpand_ruleQuery h)).append
    (fieldsExpand_ruleCorrelate h))

variable {parsed : YamlMap}

theorem fieldsExpand_documentIncludes (h : Yaml.LacksEntries pkgToken parsed) :
    FieldsExpand tempDir (documentIncludes parsed) := by
  unfold documentIncludes
  split
  · next hincludes =>
    exact fieldsExpand_singleton (expands_references (Yaml.lacks_of_get h hincludes))
  · exact fieldsExpand_nil

theorem expands_predefinedCommand {value : Yaml} (h : value.Lacks pkgToken) :
    (predefinedCommand value).Expands tempDir (Yaml.mapText (expand tempDir)) := by
  unfold predefinedCommand
  split
  · exact Expands.toMap (expands_rewriteCommand h)
  · exact expands_keep (Yaml.mapText_of_lacks h)

theorem fieldsExpand_documentCommands (h : Yaml.LacksEntries pkgToken parsed) :
    FieldsExpand tempDir (documentCommands parsed) := by
  unfold documentCommands
  split
  · next commands hcommands =>
    have hcommands' : Yaml.LacksAll pkgToken commands := Yaml.lacks_of_get h hcommands
    refine fieldsExpand_singleton (Expands.toSeq (expands_list ?_))
    intro plan hplan
    obtain ⟨value, hvalue, rfl⟩ := mem_map.mp hplan
    exact expands_predefinedCommand (Yaml.lacksAll_iff.mp hcommands' value hvalue)
  · exact fieldsExpand_nil

theorem fieldsExpand_documentRule (h : Yaml.LacksEntries pkgToken parsed) :
    FieldsExpand tempDir (documentRule parsed) := by
  unfold documentRule
  split
  · next hrule =>
    exact fieldsExpand_singleton (Expands.toMap (expands_rewriteRule (Yaml.lacks_of_get h hrule)))
  · exact fieldsExpand_nil

theorem expands_rewriteDocument (h : Yaml.LacksEntries pkgToken parsed) :
    (rewriteDocument parsed).Expands tempDir (Yaml.mapTextEntries (expand tempDir)) :=
  expands_keys h (((fieldsExpand_documentIncludes h).append
    (fieldsExpand_documentCommands h)).append (fieldsExpand_documentRule h))

end Documents

end Ace3.HuntCompiler
