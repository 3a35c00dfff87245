import Ace3.Lib.FallibleMap
import Ace3.Lib.JsonText
import Ace3.Lib.OrderedDict
import Mathlib.Data.List.Lex
import Mathlib.Order.Fin.Basic

/-!
# Cache Keys

The bytes that are hashed for the key under which the result of a module is cached
(`saq/analysis/cache.py`).
-/

namespace Ace3.Cache

open List
open Lib Lib.FallibleMap Lib.JsonText Lib.StableSort

/-! ## §1 Strings -/

/-- A code point of a Python string, which may be a surrogate. -/
abbrev CodePoint := Fin 0x110000

abbrev PyString := List CodePoint

/-- The character, unless the code point is a surrogate. -/
def CodePoint.char? (c : CodePoint) : Option Char :=
  if h : c.val.isValidChar then some (Char.ofNatAux c.val h) else none

/-- What `encode("utf-8", "ignore")` encodes of a string: all but surrogates. -/
def encodable (s : PyString) : String := String.ofList (s.filterMap CodePoint.char?)

/-- What `encode("utf-8")` encodes. It raises where there is a surrogate. -/
def text? (s : PyString) : Option String := (s.mapM CodePoint.char?).map String.ofList

/-! ## §2 The key -/

def cacheKeyFormat : String := "ace-analysis-cache-key-v2"

def configHashExcludedFields : List String :=
  ["name", "version",
    "enabled", "description", "priority", "automation_limit",
    "maximum_analysis_time", "cooldown_period", "semaphore_name",
    "cache_ttl", "default_collapsed",
    "observable_exclusions", "expected_observables", "is_grouped_by_time",
    "observation_grouping_time_range", "file_size_limit",
    "valid_observable_types", "valid_queues", "invalid_queues",
    "invalid_alert_types", "required_directives", "required_tags",
    "requires_detection_path", "wide_diff"]

/-- `model_dump(mode="json")` of a module's configuration. Its strings are Unicode text. -/
structure ConfigDump where
  items : List (String × Json)
  distinct : (Json.dict items).Distinct

def ConfigDump.filtered (config : ConfigDump) : Json :=
  .dict (config.items.filter fun item => item.1 ∉ configHashExcludedFields)

/-- `hexdigest()` of sha256. -/
abbrev HexDigest := {digest : String // digest.length = 64}

/-- The type and value of an `Observable`. -/
structure KeyedObservable where
  type : PyString
  value : PyString
  deriving DecidableEq

structure KeyedModule where
  /-- A `timedelta`, in microseconds. -/
  cacheTtl : Option ℤ
  name : PyString
  version : ℤ
  /-- None where the configuration has no `model_dump`. -/
  config : Option ConfigDump
  extendedVersion : OrderedDict PyString PyString

variable (sha256 : ByteArray → HexDigest)

def ConfigDump.serialized (config : ConfigDump) : ByteArray :=
  (String.ofList config.filtered.dumps).toByteArray

def configHash : Option ConfigDump → String
  | none => "none"
  | some config => (sha256 config.serialized).val

/-- What `_update` hashes. -/
def field (label : String) (value : String) : ByteArray :=
  let encoded := value.toByteArray
  (label ++ ":" ++ toString encoded.size ++ ":").toByteArray ++ encoded

def extendedEntries (ext : OrderedDict PyString PyString) : Option (List (String × String)) :=
  (sortBy (·.1) ext.items).mapM fun (key, value) =>
    (text? key).map fun key => (key, encodable value)

def fields (observable : KeyedObservable) (module : KeyedModule) : List (String × String) :=
  [("format", cacheKeyFormat), ("type", encodable observable.type),
    ("value", encodable observable.value), ("module", encodable module.name),
    ("version", String.ofList (intText module.version)),
    ("config", configHash sha256 module.config)]

/-- The bytes that `generate_cache_key` hashes. None stands for a `UnicodeEncodeError`. -/
def hashedBytes (observable : KeyedObservable) (module : KeyedModule) : Option ByteArray :=
  (extendedEntries module.extendedVersion).map fun ext =>
    (fields sha256 observable module ++ ext.map fun item => ("ext:" ++ item.1, item.2)).foldl
      (fun hashed item => hashed ++ field item.1 item.2) ByteArray.empty

def generateCacheKey (observable : KeyedObservable) (module : KeyedModule) :
    Option (Option HexDigest) :=
  if module.cacheTtl = none then some none
  else (hashedBytes sha256 observable module).map fun bytes => some (sha256 bytes)

/-! ## §3 Fields -/

variable {sha256}

def fieldText (item : String × String) : List Char :=
  item.1.toList ++ ':' :: (Nat.toDigits 10 item.2.utf8ByteSize ++ ':' :: item.2.toList)

theorem field_eq (item : String × String) :
    field item.1 item.2 = (String.ofList (fieldText item)).toByteArray := by
  have hdigits : toString item.2.utf8ByteSize =
      String.ofList (Nat.toDigits 10 item.2.utf8ByteSize) := Nat.toString_eq_ofList_toDigits
  show (item.1 ++ ":" ++ toString item.2.utf8ByteSize ++ ":").toByteArray ++ item.2.toByteArray = _
  rw [← String.toByteArray_append, String.toByteArray_inj, hdigits, ← String.toList_inj]
  simp [fieldText]

theorem hashed_eq (items : List (String × String)) (hashed : ByteArray) :
    items.foldl (fun hashed item => hashed ++ field item.1 item.2) hashed =
      hashed ++ (String.ofList (items.flatMap fieldText)).toByteArray := by
  induction items generalizing hashed with
  | nil => exact (ByteArray.append_empty).symm
  | cons item items ih =>
    rw [foldl_cons, ih, field_eq, flatMap_cons, String.ofList_append,
      String.toByteArray_append, ByteArray.append_assoc]

variable {r s : List Char}

theorem length_append_inj {m n : ℕ}
    (h : Nat.toDigits 10 m ++ ':' :: r = Nat.toDigits 10 n ++ ':' :: s) : m = n ∧ r = s := by
  have hplain : ∀ n, ∀ c ∈ Nat.toDigits 10 n, plainChar c = true := by
    intro n c hc
    simp [plainChar, Char.isAlphanum, isDigit_toDigits hc]
  have hends : ∀ r, Ends (':' :: r) := by
    rintro r c ⟨⟩
    decide
  obtain ⟨hdigits, hrest⟩ := plain_append_inj (hplain m) (hplain n) (hends r) (hends s) h
  exact ⟨toDigits_inj hdigits, (List.cons.inj hrest).2⟩

variable {u v : List Char}

theorem value_append_inj (hlength : (String.ofList u).utf8ByteSize = (String.ofList v).utf8ByteSize)
    (h : u ++ r = v ++ s) : u = v ∧ r = s := by
  -- A longer value would have more bytes.
  have hempty : ∀ u w : List Char,
      (String.ofList (u ++ w)).utf8ByteSize = (String.ofList u).utf8ByteSize → w = [] := by
    intro u w hsize
    rw [String.ofList_append, String.utf8ByteSize_append] at hsize
    have hw : String.ofList w = "" := String.utf8ByteSize_eq_zero_iff.mp (by omega)
    exact String.ofList_injective hw
  rcases append_eq_append_iff.mp h with ⟨w, rfl, rfl⟩ | ⟨w, rfl, rfl⟩
  · rw [hempty u w hlength.symm]
    exact ⟨(append_nil u).symm, rfl⟩
  · rw [hempty v w hlength]
    exact ⟨append_nil v, rfl⟩

/-- A key of which a part, from a colon on, reads like the length of a field. -/
def ReadsLikeLength (key : List Char) : Prop :=
  ∃ before digits after : List Char, digits ≠ [] ∧ (∀ c ∈ digits, c.isDigit = true) ∧
    (key = before ++ ':' :: digits ∨ key = before ++ ':' :: (digits ++ ':' :: after))

theorem before_colon {d u : List Char} (hd : ':' ∉ d) (h : d ++ ':' :: r = u ++ ':' :: s) :
    u = d ∨ ∃ after, u = d ++ ':' :: after := by
  rcases append_eq_append_iff.mp h with ⟨w, rfl, hw⟩ | ⟨w, rfl, hw⟩
  · cases w with
    | nil => exact .inl (append_nil d)
    | cons c w =>
      obtain ⟨rfl, -⟩ := List.cons.inj hw
      exact .inr ⟨w, rfl⟩
  · cases w with
    | nil => exact .inl (append_nil u).symm
    | cons c w =>
      obtain ⟨rfl, -⟩ := List.cons.inj hw
      exact absurd (mem_append_right u (mem_cons_self ..)) hd

theorem readsLikeLength_of_append {m n : ℕ} (hne : v ≠ [])
    (h : ':' :: (Nat.toDigits 10 m ++ ':' :: r) = v ++ ':' :: (Nat.toDigits 10 n ++ ':' :: s)) :
    ReadsLikeLength (u ++ v) := by
  obtain ⟨c, v, rfl⟩ := exists_cons_of_ne_nil hne
  obtain ⟨rfl, hv⟩ := List.cons.inj h
  have hcolon : ':' ∉ Nat.toDigits 10 m := fun hc => absurd (isDigit_toDigits hc) (by decide)
  refine ⟨u, Nat.toDigits 10 m, ?_⟩
  rcases before_colon hcolon hv with rfl | ⟨after, rfl⟩
  · exact ⟨[], Nat.toDigits_ne_nil, fun c => isDigit_toDigits, .inl rfl⟩
  · exact ⟨after, Nat.toDigits_ne_nil, fun c => isDigit_toDigits, .inr rfl⟩

theorem key_append_inj {m n : ℕ} (hu : ¬ ReadsLikeLength u) (hv : ¬ ReadsLikeLength v)
    (h : u ++ ':' :: (Nat.toDigits 10 m ++ ':' :: r) = v ++ ':' :: (Nat.toDigits 10 n ++ ':' :: s)) :
    u = v ∧ Nat.toDigits 10 m ++ ':' :: r = Nat.toDigits 10 n ++ ':' :: s := by
  rcases append_eq_append_iff.mp h with ⟨w, rfl, hw⟩ | ⟨w, rfl, hw⟩
  · cases w with
    | nil => exact ⟨(append_nil u).symm, (List.cons.inj hw).2⟩
    | cons c w => exact absurd (readsLikeLength_of_append (cons_ne_nil c w) hw) hv
  · cases w with
    | nil => exact ⟨append_nil v, (List.cons.inj hw).2.symm⟩
    | cons c w => exact absurd (readsLikeLength_of_append (cons_ne_nil c w) hw) hu

theorem labelled_append_inj {label u v : String}
    (h : fieldText (label, u) ++ r = fieldText (label, v) ++ s) : u = v ∧ r = s := by
  simp only [fieldText, append_assoc, cons_append, append_cancel_left_eq,
    List.cons.injEq, true_and] at h
  obtain ⟨hlength, h⟩ := length_append_inj h
  obtain ⟨hvalue, hrest⟩ := value_append_inj (by simpa using hlength) h
  exact ⟨String.toList_inj.mp hvalue, hrest⟩

def entryText (item : String × String) : List Char := fieldText ("ext:" ++ item.1, item.2)

theorem entry_append_inj {item item' : String × String} (hitem : ¬ ReadsLikeLength item.1.toList)
    (hitem' : ¬ ReadsLikeLength item'.1.toList)
    (h : entryText item ++ r = entryText item' ++ s) : item = item' ∧ r = s := by
  simp only [entryText, fieldText, String.toList_append, append_assoc, cons_append,
    append_cancel_left_eq] at h
  obtain ⟨hkey, h⟩ := key_append_inj hitem hitem' h
  obtain ⟨hlength, h⟩ := length_append_inj h
  obtain ⟨hvalue, hrest⟩ := value_append_inj (by simpa using hlength) h
  exact ⟨Prod.ext (String.toList_inj.mp hkey) (String.toList_inj.mp hvalue), hrest⟩

theorem entries_inj : ∀ {items items' : List (String × String)},
    (∀ item ∈ items, ¬ ReadsLikeLength item.1.toList) →
    (∀ item ∈ items', ¬ ReadsLikeLength item.1.toList) →
    items.flatMap entryText = items'.flatMap entryText → items = items'
  | [], [], _, _, _ => rfl
  | [], item :: _, _, _, h => by simp [entryText, fieldText] at h
  | item :: _, [], _, _, h => by simp [entryText, fieldText] at h
  | item :: items, item' :: items', hitems, hitems', h => by
    rw [flatMap_cons, flatMap_cons] at h
    obtain ⟨rfl, hrest⟩ := entry_append_inj (hitems item (mem_cons_self ..))
      (hitems' item' (mem_cons_self ..)) h
    rw [entries_inj (fun item hitem => hitems item (mem_cons_of_mem _ hitem))
      (fun item hitem => hitems' item (mem_cons_of_mem _ hitem)) hrest]

/-! ## §4 Invocations -/

theorem codePoints_eq {u : PyString} {text : List Char} (h : u.mapM CodePoint.char? = some text) :
    u.map (·.val) = text.map Char.toNat := by
  induction u generalizing text with
  | nil =>
    cases h
    rfl
  | cons c u ih =>
    rw [mapM_cons] at h
    obtain ⟨d, hd, h⟩ := Option.bind_eq_some_iff.mp h
    obtain ⟨rest, hrest, h⟩ := Option.bind_eq_some_iff.mp h
    cases h
    have hc : c.val = d.toNat := by
      unfold CodePoint.char? at hd
      by_cases hvalid : c.val.isValidChar
      · rw [dif_pos hvalid] at hd
        cases hd
        rfl
      · rw [dif_neg hvalid] at hd
        cases hd
    rw [map_cons, map_cons, ih hrest, hc]

theorem text?_inj {u v : PyString} {text : String} (hu : text? u = some text)
    (hv : text? v = some text) : u = v := by
  obtain ⟨us, hus, rfl⟩ := Option.map_eq_some_iff.mp hu
  obtain ⟨vs, hvs, heq⟩ := Option.map_eq_some_iff.mp hv
  obtain rfl := String.ofList_injective heq
  exact map_injective_iff.mpr Fin.val_injective
    ((codePoints_eq hus).trans (codePoints_eq hvs).symm)

variable {entries : List (String × String)} {ext : OrderedDict PyString PyString}

theorem mem_extendedEntries_iff (h : extendedEntries ext = some entries) {key value : String} :
    (key, value) ∈ entries ↔
      ∃ item ∈ ext.items, text? item.1 = some key ∧ encodable item.2 = value := by
  rw [mem_mapM_iff h]
  constructor
  · rintro ⟨item, hitem, heq⟩
    obtain ⟨key', hkey, heq⟩ := Option.map_eq_some_iff.mp heq
    cases heq
    exact ⟨item, mem_sortBy.mp hitem, hkey, rfl⟩
  · rintro ⟨item, hitem, hkey, rfl⟩
    exact ⟨item, mem_sortBy.mpr hitem, Option.map_eq_some_iff.mpr ⟨key, hkey, rfl⟩⟩

theorem hashedBytes_eq (sha256 : ByteArray → HexDigest) (observable : KeyedObservable)
    (module : KeyedModule) :
    hashedBytes sha256 observable module = (extendedEntries module.extendedVersion).map fun ext =>
      (String.ofList ((fields sha256 observable module).flatMap fieldText ++
        ext.flatMap entryText)).toByteArray := by
  rw [hashedBytes]
  refine congrArg (Option.map · _) (funext fun ext => ?_)
  rw [hashed_eq, flatMap_append, flatMap_map, ByteArray.empty_append]
  rfl

def SameEncoded (ext ext' : OrderedDict PyString PyString) : Prop :=
  ∀ key, (ext.get? key).map encodable = (ext'.get? key).map encodable

theorem sameEncoded_of_entries {ext ext' : OrderedDict PyString PyString}
    (h : extendedEntries ext = some entries) (h' : extendedEntries ext' = some entries) :
    SameEncoded ext ext' := by
  -- An item of one map is in the entries, so the other one has it as well.
  have hitem : ∀ {ext ext' : OrderedDict PyString PyString}, extendedEntries ext = some entries →
      extendedEntries ext' = some entries → ∀ {key value}, ext.get? key = some value →
      ∃ value', ext'.get? key = some value' ∧ encodable value' = encodable value := by
    intro ext ext' h h' key value hget
    have hmem : (key, value) ∈ sortBy (·.1) ext.items :=
      mem_sortBy.mpr (OrderedDict.get?_eq_some_iff.mp hget)
    obtain ⟨entry, hentry, heq⟩ := exists_of_mapM h hmem
    obtain ⟨text, htext, rfl⟩ := Option.map_eq_some_iff.mp heq
    obtain ⟨⟨key', value'⟩, hmem', htext', hvalue⟩ := (mem_extendedEntries_iff h').mp hentry
    obtain rfl := text?_inj htext htext'
    exact ⟨value', OrderedDict.get?_eq_some_iff.mpr hmem', hvalue⟩
  intro key
  cases hget : ext.get? key with
  | some value =>
    obtain ⟨value', hget', hvalue⟩ := hitem h h' hget
    rw [hget', Option.map_some, Option.map_some, hvalue]
  | none =>
    cases hget' : ext'.get? key with
    | none => rfl
    | some value =>
      obtain ⟨value', hget'', -⟩ := hitem h' h hget'
      rw [hget] at hget''
      cases hget''

/-- The configurations are the same after the filtering, up to the order of their items, or their
serializations collide. Where there is none, there is none in either. -/
def SameConfig (sha256 : ByteArray → HexDigest) : Option ConfigDump → Option ConfigDump → Prop
  | none, none => True
  | some config, some config' => config.filtered.Same config'.filtered ∨
      (config.serialized ≠ config'.serialized ∧
        sha256 config.serialized = sha256 config'.serialized)
  | _, _ => False

theorem ConfigDump.distinct_filtered (config : ConfigDump) : config.filtered.Distinct := by
  obtain ⟨hkeys, hitems⟩ := config.distinct
  refine ⟨hkeys.sublist (filter_sublist.map _), Json.distinctFields_iff.mpr ?_⟩
  exact fun item hitem => Json.distinctFields_iff.mp hitems item (mem_of_mem_filter hitem)

theorem sameConfig_of_hash {sha256 : ByteArray → HexDigest} {config config' : Option ConfigDump}
    (h : configHash sha256 config = configHash sha256 config') :
    SameConfig sha256 config config' := by
  cases config with
  | none =>
    cases config' with
    | none => trivial
    | some config' =>
      have hlength := (sha256 config'.serialized).property
      rw [← show "none" = (sha256 config'.serialized).val from h] at hlength
      exact absurd hlength (by decide)
  | some config =>
    cases config' with
    | none =>
      have hlength := (sha256 config.serialized).property
      rw [show (sha256 config.serialized).val = "none" from h] at hlength
      exact absurd hlength (by decide)
    | some config' =>
      by_cases heq : config.serialized = config'.serialized
      · left
        have htext := String.ofList_injective (String.toByteArray_inj.mp heq)
        exact (Json.dumps_eq_iff_same config.distinct_filtered config'.distinct_filtered).mp htext
      · exact .inr ⟨heq, Subtype.ext h⟩

/-- The modules differ in the order of their maps at most. -/
structure KeyedModule.SameUpToOrder (module module' : KeyedModule) : Prop where
  name : module.name = module'.name
  version : module.version = module'.version
  config : Option.Rel (fun config config' => (Json.dict config.items).Same (.dict config'.items))
    module.config module'.config
  extendedVersion : module.extendedVersion.Same module'.extendedVersion

theorem serialized_eq_of_same {config config' : ConfigDump}
    (h : (Json.dict config.items).Same (.dict config'.items)) :
    config.serialized = config'.serialized := by
  have hsorted : sortBy (·.1) (Json.sortFields config.items) =
      sortBy (·.1) (Json.sortFields config'.items) := Json.dict.inj h.sortKeys_eq
  have hfiltered : config.filtered.sortKeys = config'.filtered.sortKeys := by
    rw [ConfigDump.filtered, ConfigDump.filtered,
      Json.sortKeys_filter config.distinct.1 fun key => key ∉ configHashExcludedFields,
      Json.sortKeys_filter config'.distinct.1 fun key => key ∉ configHashExcludedFields, hsorted]
  rw [ConfigDump.serialized, ConfigDump.serialized, Json.dumps_eq_iff.mpr hfiltered]

theorem configHash_eq_of_rel (sha256 : ByteArray → HexDigest) {config config' : Option ConfigDump}
    (h : Option.Rel (fun config config' => (Json.dict config.items).Same (.dict config'.items))
      config config') : configHash sha256 config = configHash sha256 config' := by
  cases h with
  | none => rfl
  | some hsame => rw [configHash, configHash, serialized_eq_of_same hsame]

theorem extendedEntries_eq_of_same {ext ext' : OrderedDict PyString PyString} (h : ext.Same ext') :
    extendedEntries ext = extendedEntries ext' := by
  have hperm : ext.items.Perm ext'.items :=
    (perm_ext_iff_of_nodup ext.nodup.of_map ext'.nodup.of_map).mpr fun item =>
      ⟨fun hitem => h.1 hitem, fun hitem => h.2 hitem⟩
  rw [extendedEntries, extendedEntries, sortBy_eq_of_perm ext.nodup hperm]

def ReadableKeys (ext : OrderedDict PyString PyString) : Prop :=
  ∀ key ∈ ext.keys, ¬ ReadsLikeLength (encodable key).toList

theorem text?_eq_encodable {u : PyString} {text : String} (h : text? u = some text) :
    encodable u = text := by
  obtain ⟨chars, hchars, rfl⟩ := Option.map_eq_some_iff.mp h
  refine congrArg String.ofList ?_
  clear h
  induction u generalizing chars with
  | nil =>
    cases hchars
    rfl
  | cons c u ih =>
    rw [mapM_cons] at hchars
    obtain ⟨d, hd, hchars⟩ := Option.bind_eq_some_iff.mp hchars
    obtain ⟨rest, hrest, heq⟩ := Option.bind_eq_some_iff.mp hchars
    cases heq
    rw [filterMap_cons_some hd, ih rest hrest]

theorem readable_entries (h : extendedEntries ext = some entries) (hreadable : ReadableKeys ext) :
    ∀ item ∈ entries, ¬ ReadsLikeLength item.1.toList := by
  rintro ⟨key, value⟩ hitem
  obtain ⟨item, hmem, htext, -⟩ := (mem_extendedEntries_iff h).mp hitem
  rw [← text?_eq_encodable htext]
  exact hreadable item.1 (mem_map_of_mem hmem)

/-- The order of the maps does not matter. The bytes tell the type, the value, the module's name
and version, its configuration and its extended version: surrogates are left out, and keys of the
extended version must not read like a length. -/
theorem cache_keys_separate (sha256 : ByteArray → HexDigest)
    (observable observable' : KeyedObservable) (module module' : KeyedModule) :
    (module.SameUpToOrder module' →
      hashedBytes sha256 observable module = hashedBytes sha256 observable module') ∧
    ∀ bytes, hashedBytes sha256 observable module = some bytes →
      hashedBytes sha256 observable' module' = some bytes →
      ReadableKeys module.extendedVersion → ReadableKeys module'.extendedVersion →
      encodable observable.type = encodable observable'.type ∧
        encodable observable.value = encodable observable'.value ∧
        encodable module.name = encodable module'.name ∧
        module.version = module'.version ∧
        SameConfig sha256 module.config module'.config ∧
        SameEncoded module.extendedVersion module'.extendedVersion := by
  constructor
  · intro h
    rw [hashedBytes_eq, hashedBytes_eq, extendedEntries_eq_of_same h.extendedVersion, fields, fields,
      h.name, h.version, configHash_eq_of_rel sha256 h.config]
  · intro bytes hbytes hbytes' hreadable hreadable'
    rw [hashedBytes_eq] at hbytes hbytes'
    obtain ⟨ext, hext, rfl⟩ := Option.map_eq_some_iff.mp hbytes
    obtain ⟨ext', hext', heq⟩ := Option.map_eq_some_iff.mp hbytes'
    have htext := String.ofList_injective (String.toByteArray_inj.mp heq)
    simp only [fields, flatMap_cons, flatMap_nil, append_nil, append_assoc] at htext
    obtain ⟨-, htext⟩ := labelled_append_inj htext
    obtain ⟨htype, htext⟩ := labelled_append_inj htext
    obtain ⟨hvalue, htext⟩ := labelled_append_inj htext
    obtain ⟨hname, htext⟩ := labelled_append_inj htext
    obtain ⟨hversion, htext⟩ := labelled_append_inj htext
    obtain ⟨hconfig, htext⟩ := labelled_append_inj htext
    obtain rfl := entries_inj (readable_entries hext' hreadable') (readable_entries hext hreadable)
      htext
    exact ⟨htype.symm, hvalue.symm, hname.symm, intText_inj (String.ofList_injective hversion.symm),
      sameConfig_of_hash hconfig.symm, sameEncoded_of_entries hext hext'⟩

def ofText (text : String) : PyString := text.toList.map fun c => Fin.ofNat _ c.toNat

/-- What sha256 gives for two braces, which is what an empty configuration is written as. -/
def emptyConfigDigest : HexDigest :=
  ⟨"44136fa355b3678a1146ad16f7e8649e94fb4fc21fe77e8310c060f61caaff8a", by decide⟩

def moduleWith (ext : OrderedDict PyString PyString) : KeyedModule where
  cacheTtl := some 604800000000
  name := ofText "ocr"
  version := 1
  config := some ⟨[], nodup_nil, trivial⟩
  extendedVersion := ext

theorem hashedBytes_moduleWith (observable : KeyedObservable)
    (h : extendedEntries ext = some entries) :
    hashedBytes (fun _ => emptyConfigDigest) observable (moduleWith ext) =
      some (String.ofList ((fields (fun _ => emptyConfigDigest) observable
        (moduleWith .empty)).flatMap fieldText ++ entries.flatMap entryText)).toByteArray := by
  rw [hashedBytes_eq]
  simp only [moduleWith, h, Option.map_some, fields]

theorem cache_keys_separate_ocr :
    encodable (ofText "10" ++ [0xd800]) = "10" ∧
      SameEncoded ⟨[(ofText "gs", ofText "10")], nodup_singleton _⟩
        ⟨[(ofText "gs", ofText "10" ++ [0xd800])], nodup_singleton _⟩ := by
  have hentries : extendedEntries ⟨[(ofText "gs", ofText "10")], nodup_singleton _⟩ =
      some [("gs", "10")] := by
    rw [extendedEntries, sortBy_of_pairwise (by decide)]
    decide
  have hentries' : extendedEntries
      ⟨[(ofText "gs", ofText "10" ++ [0xd800])], nodup_singleton _⟩ = some [("gs", "10")] := by
    rw [extendedEntries, sortBy_of_pairwise (by decide)]
    decide
  -- There is no colon in the only key.
  have hreadable : ∀ value : PyString,
      ReadableKeys ⟨[(ofText "gs", value)], nodup_singleton _⟩ := by
    rintro value key hkey ⟨before, digits, after, -, -, heq⟩
    obtain rfl := mem_singleton.mp hkey
    have hcolon : ':' ∉ (encodable (ofText "gs")).toList := by decide
    rcases heq with heq | heq <;> exact hcolon (by rw [heq]; simp)
  have hsame := (cache_keys_separate (fun _ => emptyConfigDigest)
    ⟨ofText "url", ofText "x"⟩ ⟨ofText "url", ofText "x"⟩
    (moduleWith ⟨[(ofText "gs", ofText "10")], nodup_singleton _⟩)
    (moduleWith ⟨[(ofText "gs", ofText "10" ++ [0xd800])], nodup_singleton _⟩)).2 _
    (hashedBytes_moduleWith _ hentries) (hashedBytes_moduleWith _ hentries')
    (hreadable _) (hreadable _)
  exact ⟨by decide, hsame.2.2.2.2.2⟩

/-- Values that differ in a surrogate have the same bytes, and so do extended versions of which one
has a key that reads like fields of the other. -/
theorem colliding_invocations :
    (∃ observable observable' : KeyedObservable, observable.value ≠ observable'.value ∧
      ∃ bytes, hashedBytes (fun _ => emptyConfigDigest) observable (moduleWith .empty) = some bytes ∧
        hashedBytes (fun _ => emptyConfigDigest) observable' (moduleWith .empty) = some bytes) ∧
    ∃ ext ext' : OrderedDict PyString PyString, ¬ SameEncoded ext ext' ∧ ∃ bytes,
      hashedBytes (fun _ => emptyConfigDigest) ⟨ofText "url", ofText "x"⟩ (moduleWith ext) =
          some bytes ∧
        hashedBytes (fun _ => emptyConfigDigest) ⟨ofText "url", ofText "x"⟩ (moduleWith ext') =
          some bytes := by
  constructor
  · have hempty : extendedEntries .empty = some [] := by
      show (sortBy (·.1) ([] : List (PyString × PyString))).mapM _ = _
      rw [sortBy_of_pairwise .nil]
      rfl
    refine ⟨⟨ofText "url", ofText "x"⟩, ⟨ofText "url", ofText "x" ++ [0xd800]⟩, by decide, _,
      hashedBytes_moduleWith _ hempty, ?_⟩
    rw [hashedBytes_moduleWith _ hempty]
    have hvalue : encodable (ofText "x" ++ [0xd800]) = encodable (ofText "x") := by decide
    simp only [fields, hvalue]
  · have hpair : extendedEntries ⟨[(ofText "a", []), (ofText "b", [])], by decide⟩ =
        some [("a", ""), ("b", "")] := by
      rw [extendedEntries, sortBy_of_pairwise (by decide)]
      decide
    have hlong : extendedEntries ⟨[(ofText "a:0:ext:b", [])], by decide⟩ =
        some [("a:0:ext:b", "")] := by
      rw [extendedEntries, sortBy_of_pairwise (by decide)]
      decide
    refine ⟨⟨[(ofText "a", []), (ofText "b", [])], by decide⟩,
      ⟨[(ofText "a:0:ext:b", [])], by decide⟩, ?_, _, hashedBytes_moduleWith _ hpair, ?_⟩
    · intro h
      exact absurd (h (ofText "a")) (by decide)
    · rw [hashedBytes_moduleWith _ hlong]
      rfl

end Ace3.Cache
