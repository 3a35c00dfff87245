import Ace3.Lib.JsonText
import Ace3.Lib.Masking

/-!
# The Literals of Yara Rules

`_format_strings` of `saq/observables/export/yara.py` writes the text literals by hand. Here they
are read again, by the escapes of yara.
-/

namespace Ace3.Export.YaraLiterals

open List
open Lib

abbrev Text := List Char

/-! ## §1 What is written -/

/-- The four replacements, of which the first one gives a backslash. -/
def escapeValue (backslash value : Text) : Text :=
  let value := Masking.replace backslash ['\\'] value
  let value := Masking.replace ['\\', '"'] ['"'] value
  Masking.replace [] ['\r'] (Masking.replace [] ['\n'] value)

def formatYaraString (value : Text) : Text :=
  escapeValue ['\\', '\\'] value

def formatYaraJsonString (value : Text) : Text :=
  escapeValue ['\\', '\\', '\\', '\\'] value

/-- What is read of an `ExportEntry`. -/
structure Entry where
  id : ℕ
  value : Text

def rawName (entry : Entry) : Text := "obsd_".toList ++ Nat.toDigits 10 entry.id

def jsonName (entry : Entry) : Text := "obsd_json_".toList ++ Nat.toDigits 10 entry.id

def opening (name : Text) : Text := "          $".toList ++ name ++ " = \"".toList

def closing (modifiers : Text) : Text := ' ' :: modifiers ++ ['\n']

/-- A line of `_format_strings`. -/
def declaration (name literal modifiers : Text) : Text :=
  opening name ++ (literal ++ '"' :: closing modifiers)

def formatStrings (entry : Entry) (modifiers : Text) : Text :=
  let yaraValue := formatYaraString entry.value
  let yaraJsonValue := formatYaraJsonString entry.value
  declaration (rawName entry) yaraValue modifiers ++
    if yaraValue ≠ yaraJsonValue then declaration (jsonName entry) yaraJsonValue modifiers else []

def ruleData (entries : List Entry) (modifiers : Text) : Text :=
  entries.flatMap (formatStrings · modifiers)

/-! ## §2 How yara reads it -/

def hexValue (c : Char) : Option ℕ :=
  if c.isDigit then some (c.toNat - '0'.toNat)
  else if 'a' ≤ c ∧ c ≤ 'f' then some (c.toNat - 'a'.toNat + 10)
  else if 'A' ≤ c ∧ c ≤ 'F' then some (c.toNat - 'A'.toNat + 10)
  else none

/-- A text string behind its opening quote: the characters it denotes, and what follows its
closing quote. A line does not end within a string, and there are no other escapes. -/
def lexString : Text → Option (Text × Text)
  | [] => none
  | '"' :: rest => some ([], rest)
  | '\\' :: '"' :: rest => (lexString rest).map (.map ('"' :: ·) id)
  | '\\' :: '\\' :: rest => (lexString rest).map (.map ('\\' :: ·) id)
  | '\\' :: 't' :: rest => (lexString rest).map (.map ('\t' :: ·) id)
  | '\\' :: 'n' :: rest => (lexString rest).map (.map ('\n' :: ·) id)
  | '\\' :: 'r' :: rest => (lexString rest).map (.map ('\r' :: ·) id)
  | '\\' :: 'x' :: high :: low :: rest =>
    match hexValue high, hexValue low with
    | some high, some low => (lexString rest).map (.map (Char.ofNat (16 * high + low) :: ·) id)
    | _, _ => none
  | '\\' :: _ => none
  | '\n' :: _ => none
  | c :: rest => (lexString rest).map (.map (c :: ·) id)

def dropStart (start text : Text) : Option Text :=
  if start <+: text then some (text.drop start.length) else none

def readDeclaration (modifiers name text : Text) : Option (Text × Text) := do
  let literal ← dropStart (opening name) text
  let (denoted, rest) ← lexString literal
  let rest ← dropStart (closing modifiers) rest
  pure (denoted, rest)

def readDeclarations (modifiers : Text) : List Text → Text → Option (List Text)
  | [], text => if text = [] then some [] else none
  | name :: names, text => do
    let (denoted, rest) ← readDeclaration modifiers name text
    let others ← readDeclarations modifiers names rest
    pure (denoted :: others)

/-! ## §3 What a value should be read as -/

def isBreak (c : Char) : Bool := c = '\n' || c = '\r'

def withoutBreaks (value : Text) : Text := value.filter (!isBreak ·)

/-- A character in a JSON string, without escapes that JSON does not ask for. -/
def jsonEscape (c : Char) : Text :=
  if c = '"' ∨ c = '\\' ∨ c.toNat < 32 then JsonText.escape c else [c]

def names (entry : Entry) : List Text :=
  rawName entry :: if '\\' ∈ entry.value then [jsonName entry] else []

def denoted (entry : Entry) : List Text :=
  withoutBreaks entry.value ::
    if '\\' ∈ entry.value then
      [(withoutBreaks entry.value).flatMap fun c => if c = '\\' then ['\\', '\\'] else [c]]
    else []

/-! ## §4 Reading what is written -/

theorem replace_letter (mask text : Text) (letter : Char) :
    Masking.replace mask [letter] text =
      text.flatMap fun c => if c = letter then mask else [c] := by
  unfold Masking.replace
  induction text with
  | nil => rfl
  | cons c text ih =>
    rw [Masking.replaceFrom, flatMap_cons]
    by_cases hc : c = letter
    · simp [hc, ih]
    · have hnot : ¬ [letter] <+: c :: text := by simp [cons_prefix_cons, Ne.symm hc]
      rw [if_neg hnot, if_neg hc, ih]
      rfl

/-- What becomes of a character, by what becomes of a backslash. -/
def literalLetter (backslash : Text) (c : Char) : Text :=
  if c = '\\' then backslash else if c = '"' then ['\\', '"'] else if isBreak c then [] else [c]

theorem escapeValue_eq {backslash : Text} (h : ∀ c ∈ backslash, c = '\\') (value : Text) :
    escapeValue backslash value = value.flatMap (literalLetter backslash) := by
  simp only [escapeValue, replace_letter, flatMap_assoc]
  congr 1
  funext c
  -- the later replacements leave the backslashes of the first one alone
  have hkeep : ∀ letter mask, letter ≠ '\\' →
      backslash.flatMap (fun c => if c = letter then mask else [c]) = backslash := by
    intro letter mask hne
    calc backslash.flatMap (fun c => if c = letter then mask else [c])
        = backslash.flatMap (fun c => [c]) := by
          refine flatMap_congr fun c hc => if_neg ?_
          rw [h c hc]
          exact hne.symm
      _ = backslash := by simp
  unfold literalLetter isBreak
  by_cases hbackslash : c = '\\'
  · simp [hbackslash, ← flatMap_assoc, hkeep]
  by_cases hquote : c = '"'
  · simp [hquote]
  by_cases hfeed : c = '\n'
  · simp [hfeed]
  by_cases hreturn : c = '\r'
  · simp [hreturn]
  · simp [hbackslash, hquote, hfeed, hreturn]

/-- The string ends at the quote behind the value, whatever the value is and whatever follows. -/
theorem lexString_literal (k : ℕ) (value rest : Text) :
    lexString (value.flatMap (literalLetter (List.replicate (2 * k) '\\')) ++ '"' :: rest) =
      some ((withoutBreaks value).flatMap
        fun c => if c = '\\' then List.replicate k '\\' else [c], rest) := by
  have hbackslashes : ∀ k after, lexString (List.replicate (2 * k) '\\' ++ after) =
      (lexString after).map (.map (List.replicate k '\\' ++ ·) id) := by
    intro k after
    induction k with
    | zero => cases hlex : lexString after with
      | none => simp [hlex]
      | some read => simp [hlex, Prod.map]
    | succ k ih =>
      rw [show 2 * (k + 1) = 2 * k + 1 + 1 from rfl, replicate_succ, replicate_succ,
        cons_append, cons_append, lexString, ih, Option.map_map]
      rfl
  induction value with
  | nil => simp [lexString, withoutBreaks]
  | cons c value ih =>
    rw [flatMap_cons, append_assoc]
    by_cases hbackslash : c = '\\'
    · subst hbackslash
      rw [literalLetter, if_pos rfl, hbackslashes, ih]
      simp [withoutBreaks, isBreak]
    by_cases hquote : c = '"'
    · subst hquote
      rw [literalLetter, if_neg hbackslash, if_pos rfl, cons_append, cons_append,
        nil_append, lexString, ih]
      simp [withoutBreaks, isBreak]
    by_cases hbreak : isBreak c
    · rw [literalLetter, if_neg hbackslash, if_neg hquote, if_pos hbreak, nil_append, ih]
      simp [withoutBreaks, hbreak]
    · rw [literalLetter, if_neg hbackslash, if_neg hquote, if_neg hbreak, singleton_append]
      have hfeed : c ≠ '\n' := fun heq => hbreak (by simp [isBreak, heq])
      have hlex : ∀ after, lexString (c :: after) = (lexString after).map (.map (c :: ·) id) := by
        intro after
        rw [lexString]
        all_goals simp_all
      rw [hlex, ih]
      simp [withoutBreaks, hbreak, hbackslash]

/-! ## §5 Reading a rule -/

theorem dropStart_append (start rest : Text) : dropStart start (start ++ rest) = some rest := by
  simp [dropStart]

theorem readDeclaration_declaration (k : ℕ) (modifiers name value rest : Text) :
    readDeclaration modifiers name (declaration name
      (value.flatMap (literalLetter (List.replicate (2 * k) '\\'))) modifiers ++ rest) =
      some ((withoutBreaks value).flatMap
        fun c => if c = '\\' then List.replicate k '\\' else [c], rest) := by
  have hline : declaration name (value.flatMap (literalLetter (List.replicate (2 * k) '\\')))
      modifiers ++ rest = opening name ++
        (value.flatMap (literalLetter (List.replicate (2 * k) '\\')) ++
          '"' :: (closing modifiers ++ rest)) := by
    simp [declaration]
  simp only [hline, readDeclaration, dropStart_append, lexString_literal, Option.bind_eq_bind,
    Option.bind_some]
  rfl

theorem formatYaraString_eq_iff (value : Text) :
    formatYaraString value = formatYaraJsonString value ↔ '\\' ∉ value := by
  have hlength : (formatYaraJsonString value).length =
      (formatYaraString value).length + 2 * value.count '\\' := by
    rw [formatYaraString, formatYaraJsonString, escapeValue_eq (by simp), escapeValue_eq (by simp)]
    induction value with
    | nil => rfl
    | cons c value ih =>
      simp only [flatMap_cons, length_append, ih, count_cons, literalLetter]
      by_cases hc : c = '\\'
      · simp only [hc, if_true, length_cons, length_nil, beq_self_eq_true]
        omega
      · simp only [hc, if_false, beq_iff_eq]
        omega
  constructor
  · intro heq hmem
    have := count_pos_iff.mpr hmem
    rw [heq] at hlength
    omega
  · intro hmem
    rw [formatYaraString, formatYaraJsonString, escapeValue_eq (by simp), escapeValue_eq (by simp)]
    refine flatMap_congr fun c hc => ?_
    have hne : c ≠ '\\' := fun heq => hmem (heq ▸ hc)
    rw [literalLetter, literalLetter, if_neg hne, if_neg hne]

/-- The declarations of one detection are read as what they stand for, and what follows them is
read as if they were not there. -/
theorem readDeclarations_formatStrings (entry : Entry) (modifiers : Text) (others : List Text)
    (rest : Text) :
    readDeclarations modifiers (names entry ++ others) (formatStrings entry modifiers ++ rest) =
      (readDeclarations modifiers others rest).map (denoted entry ++ ·) := by
  have hraw : formatYaraString entry.value =
      entry.value.flatMap (literalLetter (List.replicate (2 * 1) '\\')) :=
    escapeValue_eq (by simp) _
  have hjson : formatYaraJsonString entry.value =
      entry.value.flatMap (literalLetter (List.replicate (2 * 2) '\\')) :=
    escapeValue_eq (by simp) _
  have hsame : (withoutBreaks entry.value).flatMap
      (fun c => if c = '\\' then List.replicate 1 '\\' else [c]) = withoutBreaks entry.value := by
    calc _ = (withoutBreaks entry.value).flatMap fun c => [c] :=
          flatMap_congr fun c _ => by split <;> simp_all
      _ = _ := by simp
  by_cases hmem : '\\' ∈ entry.value
  · have hdiffer := mt (formatYaraString_eq_iff entry.value).mp (not_not.mpr hmem)
    simp only [formatStrings, names, denoted, if_pos hmem, if_pos hdiffer, cons_append,
      nil_append, append_assoc, readDeclarations]
    rw [hraw, hjson, readDeclaration_declaration, hsame]
    simp only [Option.bind_eq_bind, Option.bind_some, readDeclaration_declaration]
    cases readDeclarations modifiers others rest with
    | none => rfl
    | some read => rfl
  · have hsame' := not_not.mpr ((formatYaraString_eq_iff entry.value).mpr hmem)
    simp only [formatStrings, names, denoted, if_neg hmem, if_neg hsame', cons_append,
      nil_append, append_nil, readDeclarations]
    rw [hraw, readDeclaration_declaration, hsame]
    simp only [Option.bind_eq_bind, Option.bind_some]
    cases readDeclarations modifiers others rest with
    | none => rfl
    | some read => rfl

/-- A text that JSON asks no more than backslashes to be escaped in is denoted as JSON has it. -/
theorem jsonEscape_mem_denoted {entry : Entry}
    (h : ∀ c ∈ entry.value, c ≠ '"' ∧ 32 ≤ c.toNat) :
    entry.value.flatMap jsonEscape ∈ denoted entry := by
  have hbreaks : withoutBreaks entry.value = entry.value := by
    refine filter_eq_self.mpr fun c hc => ?_
    have hlow := (h c hc).2
    have hfeed : c ≠ '\n' := by
      rintro rfl
      exact absurd hlow (by decide)
    have hreturn : c ≠ '\r' := by
      rintro rfl
      exact absurd hlow (by decide)
    simp [isBreak, hfeed, hreturn]
  have hletters : entry.value.flatMap jsonEscape =
      entry.value.flatMap fun c => if c = '\\' then ['\\', '\\'] else [c] := by
    refine flatMap_congr fun c hc => ?_
    obtain ⟨hquote, hlow⟩ := h c hc
    by_cases hbackslash : c = '\\'
    · subst hbackslash
      decide
    · rw [jsonEscape, if_neg (by simp [hquote, hbackslash, hlow]), if_neg hbackslash]
  rw [hletters, denoted, hbreaks]
  by_cases hmem : '\\' ∈ entry.value
  · simp [hmem]
  · have hplain : entry.value.flatMap (fun c => if c = '\\' then ['\\', '\\'] else [c]) =
        entry.value.flatMap fun c => [c] := by
      refine flatMap_congr fun c hc => if_neg ?_
      rintro rfl
      exact hmem hc
    simp [hplain]

/-- A rule is read as its detections, one by one: each value without its line breaks, and with its
backslashes doubled if it has any. -/
theorem exported_literals (entries : List Entry) (modifiers : Text) :
    readDeclarations modifiers (entries.flatMap names) (ruleData entries modifiers) =
        some (entries.flatMap denoted) ∧
      ∀ entry ∈ entries, withoutBreaks entry.value ∈ denoted entry ∧
        ((∀ c ∈ entry.value, c ≠ '"' ∧ 32 ≤ c.toNat) →
          entry.value.flatMap jsonEscape ∈ denoted entry) := by
  refine ⟨?_, fun entry _ => ⟨mem_cons_self, jsonEscape_mem_denoted⟩⟩
  unfold ruleData
  induction entries with
  | nil => rfl
  | cons entry entries ih =>
    rw [flatMap_cons, flatMap_cons, flatMap_cons, readDeclarations_formatStrings, ih]
    rfl

/-- A line break is not denoted. -/
theorem line_break_dropped :
    readDeclarations [] [rawName ⟨1, "a\nb".toList⟩] (formatStrings ⟨1, "a\nb".toList⟩ []) ≠
      some ["a\nb".toList] := by
  decide

end Ace3.Export.YaraLiterals
