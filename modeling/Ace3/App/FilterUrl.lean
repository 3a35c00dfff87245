import Ace3.Analysis.Observable
import Ace3.App.AlertFilters
import Ace3.Lib.FallibleMap
import Ace3.Lib.Separators
import Ace3.Lib.Trim
import Ace3.Query.Decoder

/-!
# Filter Links

The `f` parameters of a share link (`saq/gui/filter_url.py`): what is encoded, and what is read
back. `quote` and `unquote` are those of `urllib.parse`.
-/

namespace Ace3.App

open List Lib Lib.Trim Lib.FallibleMap Analysis Query

/-! ## §1 Percent encoding -/

/-- A byte of `_ALWAYS_SAFE`. -/
def isSafe (b : UInt8) : Bool :=
  let c := Char.ofNat b.toNat
  c.isAlphanum || "_.-~".toList.contains c

def quoteByte (b : UInt8) : List Char :=
  if isSafe b then [Char.ofNat b.toNat]
  else ['%', (Nat.digitChar (b.toNat / 16)).toUpper, (Nat.digitChar (b.toNat % 16)).toUpper]

/-- `quote(text, safe="")`. -/
def quote (text : List Char) : List Char :=
  (text.flatMap String.utf8EncodeChar).flatMap quoteByte

/-- `unquote_to_bytes` of text in ASCII. -/
def unquoteToBytes : List Char → List UInt8
  | [] => []
  | '%' :: c :: d :: rest =>
    match hexDigit c, hexDigit d with
    | some high, some low => UInt8.ofNat (high * 16 + low) :: unquoteToBytes rest
    | _, _ => UInt8.ofNat '%'.toNat :: unquoteToBytes (c :: d :: rest)
  | c :: rest => UInt8.ofNat c.toNat :: unquoteToBytes rest

/-- The second byte of a sequence of three or four, after its first byte. -/
def isSecond (lead second : UInt8) : Bool :=
  0xE0 ≤ lead && lead ≤ 0xF4 &&
    (if lead = 0xE0 then 0xA0 else if lead = 0xF0 then 0x90 else 0x80) ≤ second &&
    second ≤ (if lead = 0xED then 0x9F else if lead = 0xF4 then 0x8F else 0xBF)

/-- How many bytes of an ill-formed sequence one replacement character stands for. -/
def replacedBytes : List UInt8 → ℕ
  | lead :: second :: rest =>
    if isSecond lead second then
      if 0xF0 ≤ lead ∧ rest.head?.any (fun third => 0x80 ≤ third ∧ third ≤ 0xBF) then 3 else 2
    else 1
  | _ => 1

/-- `bytes.decode("utf-8", errors="replace")`. -/
def decodeUtf8 (bytes : List UInt8) : List Char :=
  match bytes with
  | [] => []
  | _ :: rest =>
    match bytes.toByteArray.utf8DecodeChar? 0 with
    | some c => c :: decodeUtf8 (rest.drop (c.utf8Size - 1))
    | none => '\uFFFD' :: decodeUtf8 (rest.drop (replacedBytes bytes - 1))
termination_by bytes.length
decreasing_by all_goals grind

/-- `unquote(text)`: the runs of ASCII are decoded, the others stay. -/
def unquote (text : List Char) : List Char :=
  if '%' ∈ text then
    (text.splitBy fun c d => decide (c.toNat < 128) == decide (d.toNat < 128)).flatMap fun run =>
      if run.all (·.toNat < 128) then decodeUtf8 (unquoteToBytes run) else run
  else text

/-! ## §2 What is quoted is read back -/

theorem unquoteToBytes_cons {c : Char} (hc : c ≠ '%') (rest : List Char) :
    unquoteToBytes (c :: rest) = UInt8.ofNat c.toNat :: unquoteToBytes rest := by
  rw [unquoteToBytes]
  rintro d e rest rfl
  exact absurd rfl hc

/-- Each byte comes back, and is written without separators, white space or other characters
beyond ASCII. -/
theorem quoteByte_spec : ∀ n < 256,
    (isSafe (UInt8.ofNat n) → Char.ofNat n ≠ '%' ∧ (Char.ofNat n).toNat = n) ∧
      hexDigit (Nat.digitChar (n / 16)).toUpper = some (n / 16) ∧
      hexDigit (Nat.digitChar (n % 16)).toUpper = some (n % 16) ∧
      (quoteByte (UInt8.ofNat n)).all
        fun c => c.toNat < 128 ∧ isSpace c = false ∧ c ≠ ',' ∧ c ≠ ':' := by
  decide +kernel

theorem unquoteToBytes_quoteByte_append (b : UInt8) (rest : List Char) :
    unquoteToBytes (quoteByte b ++ rest) = b :: unquoteToBytes rest := by
  obtain ⟨hsafe, hhigh, hlow, -⟩ := quoteByte_spec b.toNat b.toNat_lt
  rw [UInt8.ofNat_toNat] at hsafe
  unfold quoteByte
  split
  next h =>
    obtain ⟨hne, hcode⟩ := hsafe h
    rw [singleton_append, unquoteToBytes_cons hne, hcode, UInt8.ofNat_toNat]
  next =>
    have hbyte : b.toNat / 16 * 16 + b.toNat % 16 = b.toNat := Nat.div_add_mod' ..
    simp only [cons_append, nil_append, unquoteToBytes, hhigh, hlow, hbyte, UInt8.ofNat_toNat]

theorem unquoteToBytes_flatMap_quoteByte (bytes : List UInt8) :
    unquoteToBytes (bytes.flatMap quoteByte) = bytes := by
  induction bytes with
  | nil => rfl
  | cons b bytes ih => rw [flatMap_cons, unquoteToBytes_quoteByte_append, ih]

theorem decodeUtf8_utf8EncodeChar (text : List Char) :
    decodeUtf8 (text.flatMap String.utf8EncodeChar) = text := by
  induction text with
  | nil => simp [decodeUtf8]
  | cons c text ih =>
    have hfirst : ((c :: text).flatMap String.utf8EncodeChar).toByteArray.utf8DecodeChar? 0 =
        some c := by
      rw [flatMap_cons, List.toByteArray_append]
      exact ByteArray.utf8DecodeChar?_utf8EncodeChar_append
    obtain ⟨first, rest, hbytes⟩ : ∃ first rest, String.utf8EncodeChar c = first :: rest :=
      exists_cons_of_length_pos (by rw [String.length_utf8EncodeChar]; exact c.utf8Size_pos)
    have hlength : rest.length = c.utf8Size - 1 := by
      rw [← String.length_utf8EncodeChar, hbytes, length_cons, Nat.add_sub_cancel]
    rw [flatMap_cons, hbytes, cons_append] at hfirst ⊢
    rw [decodeUtf8]
    simp only [hfirst]
    rw [drop_left' hlength, ih]

theorem of_mem_quote {text : List Char} {c : Char} (hc : c ∈ quote text) :
    c.toNat < 128 ∧ isSpace c = false ∧ c ≠ ',' ∧ c ≠ ':' := by
  obtain ⟨b, -, hb⟩ := mem_flatMap.mp hc
  have hspec := (quoteByte_spec b.toNat b.toNat_lt).2.2.2
  rw [UInt8.ofNat_toNat, all_eq_true] at hspec
  exact of_decide_eq_true (hspec c hb)

theorem unquoteToBytes_eq_of_notMem {text : List Char} (hpercent : '%' ∉ text)
    (hascii : ∀ c ∈ text, c.toNat < 128) :
    unquoteToBytes text = text.flatMap String.utf8EncodeChar := by
  induction text with
  | nil => rfl
  | cons c text ih =>
    obtain ⟨hne, hpercent⟩ := not_or.mp (mem_cons.not.mp hpercent)
    have hsize : c.utf8Size = 1 := Char.utf8Size_eq_one_iff.mpr
      (UInt32.le_iff_toNat_le.mpr (Nat.le_of_lt_succ (hascii c mem_cons_self)))
    rw [unquoteToBytes_cons (Ne.symm hne), flatMap_cons, String.utf8EncodeChar_eq_singleton hsize,
      ih hpercent fun d hd => hascii d (mem_cons_of_mem c hd)]
    rfl

theorem unquote_quote (text : List Char) : unquote (quote text) = text := by
  have hascii : ∀ c ∈ quote text, c.toNat < 128 := fun c hc => (of_mem_quote hc).1
  have hback : decodeUtf8 (unquoteToBytes (quote text)) = text := by
    rw [quote, unquoteToBytes_flatMap_quoteByte, decodeUtf8_utf8EncodeChar]
  unfold unquote
  split
  next hpercent =>
    -- all of it is one run
    rw [splitBy_of_isChain (ne_nil_of_mem hpercent), flatMap_singleton, if_pos (by simpa), hback]
    refine (pairwise_of_forall_mem_list fun c hc d hd => ?_).isChain
    simp [hascii c hc, hascii d hd]
  next hpercent =>
    rwa [unquoteToBytes_eq_of_notMem hpercent hascii, decodeUtf8_utf8EncodeChar] at hback

/-! ## §3 The parameters -/

def FilterName.slug : FilterName → List Char
  | alertDate => "alert_date".toList
  | alertType => "alert_type".toList
  | description => "description".toList
  | disposition => "disposition".toList
  | dispositionBy => "disposition_by".toList
  | dispositionDate => "disposition_date".toList
  | eventDate => "event_date".toList
  | observable => "observable".toList
  | owner => "owner".toList
  | queue => "queue".toList
  | reviewed => "reviewed".toList
  | tag => "tag".toList

/-- `FILTER_NAMES_BY_SLUG.get`. -/
def filterNameOf (text : List Char) : Option FilterName :=
  [.alertDate, .alertType, .description, .disposition, .dispositionBy, .dispositionDate,
    .eventDate, .observable, .owner, .queue, .reviewed, .tag].find? (·.slug = text)

/-- `str.lower`, which leaves small letters alone. -/
structure LowerCase where
  lower : List Char → List Char
  lower_slug (name : FilterName) : lower name.slug = name.slug

/-- An entry of a filter list, as a dictionary. -/
structure FilterDict where
  name : FilterName
  inverted : Bool
  values : List FilterValue
  deriving DecidableEq

inductive FilterQueryError where
  | notPair (name : FilterName) (value : FilterValue)
  | notString (name : FilterName) (value : FilterValue)
  | emptyParameter
  | noSeparator (parameter : List Char)
  | emptyName (parameter : List Char)
  | emptyValue (slug : List Char)
  | noType (name : FilterName) (token : List Char)
  deriving DecidableEq

def isEmpty : FilterValue → Bool
  | .text value => value.getD "" = ""
  | .list values => values.all (·.getD "" = "")

def encodeValue (name : FilterName) (value : FilterValue) :
    Except FilterQueryError (List Char) :=
  match name, value with
  | .observable, .list [type, value] =>
    .ok (quote (type.getD "None").toList ++ ':' :: quote (value.getD "None").toList)
  | .observable, value => .error (.notPair .observable value)
  | name, .list values => .error (.notString name (.list values))
  | _, .text value => .ok (quote (value.getD "").toList)

/-- The parameter of an entry, unless its values are empty. -/
def encodeEntry (entry : FilterDict) : Except FilterQueryError (Option (List Char)) := do
  let encoded ← (entry.values.filter (!isEmpty ·)).mapM (encodeValue entry.name)
  if encoded = [] then return none
  return some ((if entry.inverted then ['!'] else []) ++ entry.name.slug ++
    ':' :: [','].intercalate encoded)

def encodeFilterQuery (filters : List FilterDict) : Except FilterQueryError (List (List Char)) :=
  return (← filters.mapM encodeEntry).reduceOption

def decodeValue (name : FilterName) (token : List Char) : Except FilterQueryError FilterValue :=
  let text (part : List Char) : Option String := some (String.ofList (unquote part))
  if name = .observable then
    match partition ':' token with
    | (_, none) => .error (.noType name token)
    | (type, some value) => .ok (.list [text type, text value])
  else .ok (.text (text token))

/-- `inverted`, the slug and what stands behind its colon. -/
def readParameter (parameter : List Char) :
    Except FilterQueryError (Bool × List Char × List Char) :=
  let stripped := trimEnds isSpace isSpace parameter
  let inverted := stripped.head? == some '!'
  match stripped, partition ':' (if inverted then stripped.tail else stripped) with
  | [], _ => .error .emptyParameter
  | _, (_, none) => .error (.noSeparator parameter)
  | _, ([], some _) => .error (.emptyName parameter)
  | _, (slug, some part) => .ok (inverted, slug, part)

variable (case : LowerCase)

/-- The entry of a parameter, or the slug that a warning names. -/
def decodeParameter (parameter : List Char) :
    Except FilterQueryError (FilterDict ⊕ List Char) := do
  let (inverted, slug, part) ← readParameter parameter
  match filterNameOf (case.lower slug) with
  | none => return .inr slug
  | some name =>
    if [] ∈ part.splitOn ',' then throw (.emptyValue slug)
    return .inl ⟨name, inverted, ← (part.splitOn ',').mapM (decodeValue name)⟩

/-- The filters, and the slugs that are warned of. -/
def decodeFilterQuery (parameters : List (List Char)) :
    Except FilterQueryError (List FilterDict × List (List Char)) := do
  let results ← parameters.mapM (decodeParameter case)
  return (results.filterMap Sum.getLeft?, results.filterMap Sum.getRight?)

/-! ## §4 Values -/

variable {case} {name : FilterName} {value : FilterValue} {text : List Char}

/-- A type and a value for `Observable`, a string for the other filters. -/
def IsTyped (name : FilterName) : FilterValue → Prop
  | .text (some _) => name ≠ .observable
  | .list [some _, some _] => name = .observable
  | _ => False

/-- What a typed value is written as. -/
def token : FilterValue → List Char
  | .text value => quote (value.getD "").toList
  | .list [type, value] =>
    quote (type.getD "None").toList ++ ':' :: quote (value.getD "None").toList
  | .list _ => []

theorem unquote_eq_nil_iff : unquote text = [] ↔ text = [] := by
  refine ⟨fun h => ?_, by rintro rfl; rfl⟩
  have hbytes (run : List Char) (h : unquoteToBytes run = []) : run = [] := by
    unfold unquoteToBytes at h
    grind
  have hdecoded (bytes : List UInt8) (h : decodeUtf8 bytes = []) : bytes = [] := by
    unfold decodeUtf8 at h
    grind
  unfold unquote at h
  split at h
  · rw [← flatten_splitBy (fun c d => decide (c.toNat < 128) == decide (d.toNat < 128)) text,
      flatten_eq_nil_iff]
    intro run hrun
    have hnil := flatMap_eq_nil_iff.mp h run hrun
    split at hnil
    · exact hbytes run (hdecoded _ hnil)
    · exact hnil
  · exact h

theorem quote_eq_nil_iff : quote text = [] ↔ text = [] := by
  rw [← unquote_eq_nil_iff, unquote_quote]

theorem encodeValue_eq (h : IsTyped name value) : encodeValue name value = .ok (token value) := by
  cases value with
  | text value => cases value <;> cases name <;> simp_all [IsTyped, encodeValue, token]
  | list values =>
    rcases values with _ | ⟨_ | _, _ | ⟨_ | _, _ | _⟩⟩ <;>
      simp_all [IsTyped, encodeValue, token]

theorem decodeValue_token (h : IsTyped name value) : decodeValue name (token value) = .ok value := by
  have hcolon (text : List Char) : ':' ∉ quote text := fun hc => (of_mem_quote hc).2.2.2 rfl
  cases value with
  | text value =>
    cases value <;> simp_all [IsTyped, decodeValue, token, unquote_quote]
  | list values =>
    rcases values with _ | ⟨_ | _, _ | ⟨_ | _, _ | _⟩⟩ <;>
      simp_all [IsTyped, decodeValue, token, partition_append_cons, unquote_quote]

theorem token_ne_nil (h : IsTyped name value) (hvalue : isEmpty value = false) :
    token value ≠ [] := by
  cases value with
  | text value => cases value <;> simp_all [isEmpty, token, quote_eq_nil_iff]
  | list values =>
    rcases values with _ | ⟨_ | _, _ | ⟨_ | _, _ | _⟩⟩ <;> simp_all [IsTyped, token]

theorem of_mem_token {c : Char} (hc : c ∈ token value) : isSpace c = false ∧ c ≠ ',' := by
  have hquote {text : List Char} (hc : c ∈ quote text) : isSpace c = false ∧ c ≠ ',' :=
    ⟨(of_mem_quote hc).2.1, (of_mem_quote hc).2.2.1⟩
  cases value with
  | text value => exact hquote hc
  | list values =>
    rcases values with _ | ⟨type, _ | ⟨value, _ | _⟩⟩ <;> try exact absurd hc not_mem_nil
    rcases mem_append.mp hc with h | h
    · exact hquote h
    · obtain rfl | h := mem_cons.mp h
      · decide
      · exact hquote h

/-- What is read is typed, and it is empty if it is a colon between no type and no value. -/
theorem isTyped_of_decodeValue {part : List Char} (h : decodeValue name part = .ok value)
    (hpart : part ≠ []) :
    IsTyped name value ∧ (isEmpty value = true ↔ name = .observable ∧ part = [':']) := by
  unfold decodeValue at h
  split at h
  next hname =>
    cases hcut : partition ':' part with
    | mk type rest =>
      cases rest with
      | none => simp [hcut] at h
      | some rest =>
        obtain rfl := eq_append_cons_of_partition hcut
        simp only [hcut, Except.ok.injEq] at h
        subst h
        simp [IsTyped, hname, isEmpty, unquote_eq_nil_iff, append_eq_cons_iff]
  next hname =>
    obtain rfl := Except.ok.inj h
    simp [IsTyped, hname, isEmpty, unquote_eq_nil_iff, hpart]

/-! ## §5 Entries -/

variable {entry : FilterDict}

/-- The entry without its empty values, if it has others. -/
def withoutEmpty (entry : FilterDict) : Option FilterDict :=
  if entry.values.filter (!isEmpty ·) = [] then none
  else some { entry with values := entry.values.filter (!isEmpty ·) }

def parameter (entry : FilterDict) : List Char :=
  (if entry.inverted then ['!'] else []) ++ entry.name.slug ++
    ':' :: [','].intercalate (entry.values.map token)

theorem encodeEntry_eq (h : ∀ value ∈ entry.values, IsTyped entry.name value) :
    encodeEntry entry = .ok ((withoutEmpty entry).map parameter) := by
  have hencoded : (entry.values.filter (!isEmpty ·)).mapM (encodeValue entry.name) =
      .ok ((entry.values.filter (!isEmpty ·)).map token) :=
    mapM_eq_ok fun value hvalue => encodeValue_eq (h value (mem_of_mem_filter hvalue))
  unfold encodeEntry withoutEmpty
  rw [hencoded]
  by_cases hnil : entry.values.filter (!isEmpty ·) = []
  · simp only [hnil]
    rfl
  · simp only [if_neg hnil]
    exact if_neg (map_eq_nil_iff.not.mpr hnil)

theorem of_mem_slug {c : Char} (hc : c ∈ name.slug) : isSpace c = false ∧ c ≠ '!' ∧ c ≠ ':' := by
  have hslug : name.slug.all fun c => isSpace c = false ∧ c ≠ '!' ∧ c ≠ ':' := by
    cases name <;> decide
  exact of_decide_eq_true (all_eq_true.mp hslug c hc)

theorem readParameter_parameter : readParameter (parameter entry) =
    .ok (entry.inverted, entry.name.slug, [','].intercalate (entry.values.map token)) := by
  have hspace : ∀ c ∈ parameter entry, isSpace c = false := by
    intro c hc
    simp only [parameter, mem_append, mem_cons] at hc
    rcases hc with (hc | hc) | rfl | hc
    · split at hc
      · rw [mem_singleton.mp hc]
        decide
      · cases hc
    · exact (of_mem_slug hc).1
    · decide
    · obtain rfl | ⟨part, hpart, hc⟩ := mem_intercalate hc
      · decide
      · obtain ⟨value, -, rfl⟩ := mem_map.mp hpart
        exact (of_mem_token hc).1
  have htrim : trimEnds isSpace isSpace (parameter entry) = parameter entry :=
    Trimmed.trimEnds_eq ⟨fun c hc => hspace c (mem_of_mem_head? hc),
      fun c hc => hspace c (mem_of_mem_getLast? hc)⟩
  have hcut : partition ':' (entry.name.slug ++ ':' :: [','].intercalate (entry.values.map token))
      = (entry.name.slug, some _) :=
    partition_append_cons fun h => (of_mem_slug h).2.2 rfl
  obtain ⟨first, rest, hslug⟩ : ∃ first rest, entry.name.slug = first :: rest := by
    cases entry.name <;> exact ⟨_, _, rfl⟩
  have hmem : first ∈ entry.name.slug := by simp [hslug]
  have hfirst : first ≠ '!' := (of_mem_slug hmem).2.1
  unfold readParameter
  rw [htrim]
  unfold parameter
  cases entry.inverted <;> simp_all

theorem decodeParameter_parameter
    (h : ∀ value ∈ entry.values, IsTyped entry.name value ∧ isEmpty value = false)
    (hne : entry.values ≠ []) : decodeParameter case (parameter entry) = .ok (.inl entry) := by
  have hname : filterNameOf entry.name.slug = some entry.name := by
    cases entry.name <;> decide
  have hsplit : ([','].intercalate (entry.values.map token)).splitOn ',' =
      entry.values.map token := by
    refine splitOn_intercalate _ (fun part hpart hcomma => ?_) (map_eq_nil_iff.not.mpr hne)
    obtain ⟨value, -, rfl⟩ := mem_map.mp hpart
    exact (of_mem_token hcomma).2 rfl
  have hnil : [] ∉ entry.values.map token := by
    rw [mem_map]
    rintro ⟨value, hvalue, htoken⟩
    exact token_ne_nil (h value hvalue).1 (h value hvalue).2 htoken
  have hvalues : (entry.values.map token).mapM (decodeValue entry.name) = .ok entry.values := by
    rw [mapM_map]
    exact (mapM_eq_ok fun value hvalue => decodeValue_token (h value hvalue).1).trans
      (congrArg _ (map_id _))
  simp only [decodeParameter, readParameter_parameter, bind, Except.bind,
    case.lower_slug, hname, hsplit, if_neg hnil, hvalues]
  rfl

/-- Typed filters are read back from their link, without what is empty. -/
theorem exists_encode_decode (case : LowerCase) (filters : List FilterDict)
    (h : ∀ entry ∈ filters, ∀ value ∈ entry.values, IsTyped entry.name value) :
    ∃ parameters, encodeFilterQuery filters = .ok parameters ∧
      decodeFilterQuery case parameters = .ok (filters.filterMap withoutEmpty, []) := by
  refine ⟨(filters.filterMap withoutEmpty).map parameter, ?_, ?_⟩
  · rw [encodeFilterQuery, mapM_eq_ok fun entry hentry => encodeEntry_eq (h entry hentry)]
    simp [bind, Except.bind, pure, Except.pure, reduceOption, filterMap_map, map_filterMap]
  · have hread : ((filters.filterMap withoutEmpty).map parameter).mapM (decodeParameter case) =
        .ok ((filters.filterMap withoutEmpty).map .inl) := by
      rw [mapM_map]
      refine mapM_eq_ok fun entry hentry => ?_
      obtain ⟨whole, hwhole, hkept⟩ := mem_filterMap.mp hentry
      unfold withoutEmpty at hkept
      split at hkept
      · cases hkept
      · obtain rfl := Option.some.inj hkept
        refine decodeParameter_parameter (fun value hvalue => ?_) ‹_›
        obtain ⟨hmem, hvalue⟩ := mem_filter.mp hvalue
        exact ⟨h whole hwhole value hmem, by simpa using hvalue⟩
    have hleft : Sum.getLeft? ∘ (Sum.inl : FilterDict → FilterDict ⊕ List Char) = some := rfl
    simp [decodeFilterQuery, hread, bind, Except.bind, pure, Except.pure, filterMap_map, hleft]

/-! ## §6 Parameters that are read and written again -/

/-- A parameter for observables with a value that has neither type nor value. -/
def HasBarePair (case : LowerCase) (parameter : List Char) : Prop :=
  ∃ inverted slug part, readParameter parameter = .ok (inverted, slug, part) ∧
    filterNameOf (case.lower slug) = some .observable ∧ [':'] ∈ part.splitOn ','

theorem withoutEmpty_eq_some_iff (hne : entry.values ≠ []) :
    withoutEmpty entry = some entry ↔ ∀ value ∈ entry.values, isEmpty value = false := by
  have hkept : entry.values.filter (!isEmpty ·) = entry.values ↔
      ∀ value ∈ entry.values, isEmpty value = false := by simp
  rw [← hkept, withoutEmpty]
  constructor
  · intro h
    split at h
    · cases h
    · exact congrArg FilterDict.values (Option.some.inj h)
  · intro h
    simp only [h, if_neg hne]

theorem filterMap_withoutEmpty_eq_iff {filters : List FilterDict} :
    filters.filterMap withoutEmpty = filters ↔
      ∀ entry ∈ filters, withoutEmpty entry = some entry := by
  induction filters with
  | nil => simp
  | cons entry filters ih =>
    rw [forall_mem_cons]
    cases hentry : withoutEmpty entry with
    | none =>
      rw [filterMap_cons_none hentry]
      constructor
      · intro h
        have hle := length_filterMap_le withoutEmpty filters
        rw [h, length_cons] at hle
        omega
      · rintro ⟨h, -⟩
        cases h
    | some kept => simp [filterMap_cons_some hentry, ih]

theorem of_decodeParameter {param : List Char}
    (h : decodeParameter case param = .ok (.inl entry)) :
    (∀ value ∈ entry.values, IsTyped entry.name value) ∧
      (withoutEmpty entry = some entry ↔ ¬ HasBarePair case param) := by
  unfold decodeParameter at h
  cases hread : readParameter param with
  | error error => simp [hread, bind, Except.bind] at h
  | ok read =>
    obtain ⟨inverted, slug, part⟩ := read
    simp only [hread, bind, Except.bind] at h
    cases hname : filterNameOf (case.lower slug) with
    | none => simp [hname, pure, Except.pure] at h
    | some name =>
      simp only [hname] at h
      split at h
      · simp [throw, throwThe, MonadExceptOf.throw] at h
      next hnil =>
        cases hvalues : (part.splitOn ',').mapM (decodeValue name) with
        | error error => simp [hvalues] at h
        | ok values =>
          simp only [hvalues, pure, Except.pure, Except.ok.injEq, Sum.inl.injEq] at h
          subst h
          have hpart (part' : List Char) (hmem : part' ∈ part.splitOn ',') : part' ≠ [] :=
            fun heq => hnil (heq ▸ hmem)
          have htyped (value : FilterValue) (hvalue : value ∈ values) : IsTyped name value := by
            obtain ⟨part', hmem, hdecoded⟩ := exists_of_mem_mapM hvalues hvalue
            exact (isTyped_of_decodeValue hdecoded (hpart part' hmem)).1
          refine ⟨htyped, ?_⟩
          have hne : values ≠ [] := by
            rintro rfl
            obtain ⟨first, hfirst⟩ := exists_mem_of_ne_nil (part.splitOn ',') (splitOn_ne_nil _ _)
            obtain ⟨value, hvalue, -⟩ := exists_result_of_mapM hvalues hfirst
            cases hvalue
          rw [withoutEmpty_eq_some_iff hne]
          constructor
          · rintro hfull ⟨inverted', slug', part', hread', hname', hbare⟩
            rw [hread] at hread'
            cases hread'
            rw [hname] at hname'
            cases hname'
            obtain ⟨value, hvalue, hdecoded⟩ := exists_result_of_mapM hvalues hbare
            have hempty := (isTyped_of_decodeValue hdecoded (by simp)).2.mpr ⟨rfl, rfl⟩
            rw [hfull value hvalue] at hempty
            cases hempty
          · intro hbare value hvalue
            obtain ⟨part', hmem, hdecoded⟩ := exists_of_mem_mapM hvalues hvalue
            rw [Bool.eq_false_iff]
            intro hempty
            obtain ⟨rfl, rfl⟩ := (isTyped_of_decodeValue hdecoded (hpart part' hmem)).2.mp hempty
            exact hbare ⟨inverted, slug, part, hread, hname, hmem⟩

/-- What is read without a warning is typed, and it is all kept if no parameter has a bare pair. -/
theorem of_decodeFilterQuery {parameters : List (List Char)} {filters : List FilterDict}
    (h : decodeFilterQuery case parameters = .ok (filters, [])) :
    (∀ entry ∈ filters, ∀ value ∈ entry.values, IsTyped entry.name value) ∧
      (filters.filterMap withoutEmpty = filters ↔
        ∀ param ∈ parameters, ¬ HasBarePair case param) := by
  unfold decodeFilterQuery at h
  cases hresults : parameters.mapM (decodeParameter case) with
  | error error => simp [hresults, bind, Except.bind] at h
  | ok results =>
    simp only [hresults, bind, Except.bind, pure, Except.pure, Except.ok.injEq,
      Prod.mk.injEq] at h
    obtain ⟨rfl, hright⟩ := h
    have hentry (entry : FilterDict) (hmem : entry ∈ results.filterMap Sum.getLeft?) :
        ∃ param ∈ parameters, decodeParameter case param = .ok (.inl entry) := by
      obtain ⟨result, hresult, hleft⟩ := mem_filterMap.mp hmem
      rw [Sum.getLeft?_eq_some_iff] at hleft
      exact exists_of_mem_mapM hresults (hleft ▸ hresult)
    refine ⟨fun entry hmem => ?_, ?_⟩
    · obtain ⟨param, -, hparam⟩ := hentry entry hmem
      exact (of_decodeParameter hparam).1
    · rw [filterMap_withoutEmpty_eq_iff]
      constructor
      · intro hkept param hparam
        obtain ⟨result, hresult, hdecoded⟩ := exists_result_of_mapM hresults hparam
        cases result with
        | inl entry =>
          exact (of_decodeParameter hdecoded).2.mp
            (hkept entry (mem_filterMap.mpr ⟨_, hresult, rfl⟩))
        | inr slug =>
          have hmem : slug ∈ results.filterMap Sum.getRight? :=
            mem_filterMap.mpr ⟨_, hresult, rfl⟩
          rw [hright] at hmem
          cases hmem
      · intro hbare entry hmem
        obtain ⟨param, hparam, hdecoded⟩ := hentry entry hmem
        exact (of_decodeParameter hdecoded).2.mpr (hbare param hparam)

/-- The filters of a link come back from the link that is made of them. -/
def ComesBack (case : LowerCase) (filters : List FilterDict) : Prop :=
  ∃ again, encodeFilterQuery filters = .ok again ∧
    decodeFilterQuery case again = .ok (filters, [])

theorem comesBack_iff {filters : List FilterDict}
    (h : ∀ entry ∈ filters, ∀ value ∈ entry.values, IsTyped entry.name value) :
    ComesBack case filters ↔ filters.filterMap withoutEmpty = filters := by
  obtain ⟨again, hencoded, hdecoded⟩ := exists_encode_decode case filters h
  constructor
  · rintro ⟨again', hencoded', hdecoded'⟩
    rw [hencoded] at hencoded'
    cases hencoded'
    rw [hdecoded] at hdecoded'
    exact congrArg Prod.fst (Except.ok.inj hdecoded')
  · intro hkept
    rw [hkept] at hdecoded
    exact ⟨again, hencoded, hdecoded⟩

/-- Filters come back from their link without what is empty; and filters that are read from
parameters come back from theirs unless a parameter has a pair of an empty type and an empty
value. -/
theorem filter_links_round_trip (case : LowerCase) :
    (∀ filters : List FilterDict,
      (∀ entry ∈ filters, ∀ value ∈ entry.values, IsTyped entry.name value) →
        ∃ parameters, encodeFilterQuery filters = .ok parameters ∧
          decodeFilterQuery case parameters = .ok (filters.filterMap withoutEmpty, [])) ∧
      ∀ parameters filters, decodeFilterQuery case parameters = .ok (filters, []) →
        (ComesBack case filters ↔ ∀ param ∈ parameters, ¬ HasBarePair case param) :=
  ⟨exists_encode_decode case, fun _ _ h =>
    (comesBack_iff (of_decodeFilterQuery h).1).trans (of_decodeFilterQuery h).2⟩

/-- Small letters only, for the example. -/
def noCase : LowerCase := ⟨id, fun _ => rfl⟩

theorem queue_and_tag_come_back :
    (∃ parameters, encodeFilterQuery [⟨.tag, true, [.text (some "a,b:")]⟩] = .ok parameters ∧
      decodeFilterQuery noCase parameters = .ok ([⟨.tag, true, [.text (some "a,b:")]⟩], [])) ∧
      ComesBack noCase [⟨.queue, false, [.text (some "default")]⟩] :=
  ⟨(filter_links_round_trip noCase).1 [⟨.tag, true, [.text (some "a,b:")]⟩] (by simp [IsTyped]),
    ((filter_links_round_trip noCase).2 ["queue:default".toList] _ (by decide)).mpr (by
      rintro param hparam ⟨inverted, slug, part, hread, hname, -⟩
      obtain rfl := mem_singleton.mp hparam
      have hqueue : readParameter "queue:default".toList =
          .ok (false, "queue".toList, "default".toList) := by decide
      cases hqueue.symm.trans hread
      cases hname)⟩

theorem bare_pair_is_lost : ¬ ∀ parameters filters,
    decodeFilterQuery noCase parameters = .ok (filters, []) → ComesBack noCase filters := by
  intro h
  have hread : decodeFilterQuery noCase ["observable::".toList] =
      .ok ([⟨.observable, false, [.list [some "", some ""]]⟩], []) := by decide
  have hback := h _ _ hread
  rw [comesBack_iff (of_decodeFilterQuery hread).1] at hback
  exact absurd hback (by decide)

end Ace3.App
