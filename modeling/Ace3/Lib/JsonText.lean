import Ace3.Lib.StableSort
import Mathlib.Data.String.Basic

/-!
# Writing JSON

The text that a JSON serializer writes for a value, with the keys of each dictionary sorted and
with everything but printable ASCII escaped. The text tells the value, up to the order of the
items of dictionaries.
-/

namespace Ace3.Lib.JsonText

open List
open StableSort

/-! ## §1 Text -/

def plainChar (c : Char) : Bool := c.isAlphanum || c = '.' || c = '+' || c = '-'

/-- How a float is written, which is not how an integer is written, or one of the words. -/
structure FloatText where
  text : List Char
  plain : ∀ c ∈ text, plainChar c = true
  fractional : ∃ c ∈ text, c.isDigit = false ∧ c ≠ '-'
  notWord : text ≠ "null".toList ∧ text ≠ "true".toList ∧ text ≠ "false".toList

inductive Json where
  | null
  | bool (b : Bool)
  | int (i : ℤ)
  | float (x : FloatText)
  | str (s : String)
  | list (items : List Json)
  | dict (items : List (String × Json))

def intText : ℤ → List Char
  | .ofNat n => Nat.toDigits 10 n
  | .negSucc n => '-' :: Nat.toDigits 10 (n + 1)

def codeUnit (n : ℕ) : List Char :=
  ['\\', 'u', (n / 4096 % 16).digitChar, (n / 256 % 16).digitChar, (n / 16 % 16).digitChar,
    (n % 16).digitChar]

def shortEscapes : List (Char × Char) :=
  [('"', '"'), ('\\', '\\'), ('\n', 'n'), ('\r', 'r'), ('\t', 't'), ('\x0c', 'f'), ('\x08', 'b')]

/-- The escape of a character by its number, where need be by two code units. -/
def unicodeEscape (c : Char) : List Char :=
  if c.toNat < 0x10000 then codeUnit c.toNat
  else codeUnit (0xd800 + (c.toNat - 0x10000) / 0x400) ++
    codeUnit (0xdc00 + (c.toNat - 0x10000) % 0x400)

def escape (c : Char) : List Char :=
  match shortEscapes.lookup c with
  | some e => ['\\', e]
  | none => if ' ' ≤ c ∧ c ≤ '~' then [c] else unicodeEscape c

def quoted (s : String) : List Char := '"' :: (s.toList.flatMap escape ++ ['"'])

namespace Json

mutual

def write : Json → List Char
  | null => "null".toList
  | bool true => "true".toList
  | bool false => "false".toList
  | int i => intText i
  | float x => x.text
  | str s => quoted s
  | list [] => ['[', ']']
  | list (v :: vs) => '[' :: (write v ++ writeTail vs)
  | dict [] => ['{', '}']
  | dict ((key, v) :: fields) =>
    '{' :: (quoted key ++ (':' :: ' ' :: (write v ++ writeFields fields)))

def writeTail : List Json → List Char
  | [] => [']']
  | v :: vs => ',' :: ' ' :: (write v ++ writeTail vs)

def writeFields : List (String × Json) → List Char
  | [] => ['}']
  | (key, v) :: fields =>
    ',' :: ' ' :: (quoted key ++ (':' :: ' ' :: (write v ++ writeFields fields)))

end

mutual

def sortKeys : Json → Json
  | null => null
  | bool b => bool b
  | int i => int i
  | float x => float x
  | str s => str s
  | list items => list (sortList items)
  | dict items => dict (sortBy (·.1) (sortFields items))

def sortList : List Json → List Json
  | [] => []
  | v :: vs => sortKeys v :: sortList vs

def sortFields : List (String × Json) → List (String × Json)
  | [] => []
  | (key, v) :: fields => (key, sortKeys v) :: sortFields fields

end

def dumps (v : Json) : List Char := v.sortKeys.write

end Json

/-! ## §2 Escapes -/

variable {c d : Char} {m n : ℕ} {r s t : List Char}

theorem digitChar_inj : ∀ m < 16, ∀ n < 16, m.digitChar = n.digitChar → m = n := by decide

theorem codeUnit_append_inj (hm : m < 65536) (hn : n < 65536)
    (h : codeUnit m ++ r = codeUnit n ++ s) : m = n ∧ r = s := by
  simp only [codeUnit, cons_append, nil_append, List.cons.injEq, true_and] at h
  obtain ⟨h₃, h₂, h₁, h₀, hrest⟩ := h
  have h₃ := digitChar_inj _ (Nat.mod_lt _ (by decide)) _ (Nat.mod_lt _ (by decide)) h₃
  have h₂ := digitChar_inj _ (Nat.mod_lt _ (by decide)) _ (Nat.mod_lt _ (by decide)) h₂
  have h₁ := digitChar_inj _ (Nat.mod_lt _ (by decide)) _ (Nat.mod_lt _ (by decide)) h₁
  have h₀ := digitChar_inj _ (Nat.mod_lt _ (by decide)) _ (Nat.mod_lt _ (by decide)) h₀
  exact ⟨by omega, hrest⟩

theorem toNat_cases (c : Char) : c.toNat < 0xd800 ∨ 0xdfff < c.toNat ∧ c.toNat < 0x110000 := by
  have hvalid : c.toNat.isValidChar := c.valid
  rcases hvalid with h | h
  · exact .inl h
  · exact .inr h

theorem unicodeEscape_append_inj (h : unicodeEscape c ++ r = unicodeEscape d ++ s) :
    c = d ∧ r = s := by
  have hc := toNat_cases c
  have hd := toNat_cases d
  unfold unicodeEscape at h
  split at h
  · split at h
    · obtain ⟨heq, hrest⟩ := codeUnit_append_inj (by omega) (by omega) h
      exact ⟨Char.toNat_inj.mp heq, hrest⟩
    · rw [append_assoc] at h
      have hunit := (codeUnit_append_inj (by omega) (by omega) h).1
      omega
  · split at h
    · rw [append_assoc] at h
      have hunit := (codeUnit_append_inj (by omega) (by omega) h).1
      omega
    · rw [append_assoc, append_assoc] at h
      obtain ⟨hhigh, hrest⟩ := codeUnit_append_inj (by omega) (by omega) h
      obtain ⟨hlow, hrest⟩ := codeUnit_append_inj (by omega) (by omega) hrest
      exact ⟨Char.toNat_inj.mp (by omega), hrest⟩

theorem unicodeEscape_eq_cons (c : Char) : ∃ rest, unicodeEscape c = '\\' :: 'u' :: rest := by
  unfold unicodeEscape
  split <;> exact ⟨_, rfl⟩

theorem mem_of_lookup {α β : Type*} [DecidableEq α] {table : List (α × β)} {a : α} {b : β}
    (h : table.lookup a = some b) : (a, b) ∈ table := by
  induction table with
  | nil => cases h
  | cons entry table ih =>
    obtain ⟨a', b'⟩ := entry
    rw [lookup_cons] at h
    split at h
    · rename_i heq
      obtain rfl : a = a' := by simpa using heq
      cases h
      exact mem_cons_self ..
    · exact mem_cons_of_mem _ (ih h)

theorem escape_cases (c : Char) :
    (∃ e, (c, e) ∈ shortEscapes ∧ escape c = ['\\', e]) ∨
      (c ≠ '"' ∧ c ≠ '\\') ∧ (escape c = [c] ∨ escape c = unicodeEscape c) := by
  unfold escape
  cases h : shortEscapes.lookup c with
  | some e => exact .inl ⟨e, mem_of_lookup h, rfl⟩
  | none =>
    refine .inr ⟨⟨?_, ?_⟩, ?_⟩
    · rintro rfl
      cases h
    · rintro rfl
      cases h
    · dsimp only
      split
      · exact .inl rfl
      · exact .inr rfl

theorem shortEscapes_inj : ∀ p ∈ shortEscapes, p.2 ≠ 'u' ∧
    ∀ q ∈ shortEscapes, p.2 = q.2 → p.1 = q.1 := by decide

theorem escape_append_inj (h : escape c ++ r = escape d ++ s) : c = d ∧ r = s := by
  rcases escape_cases c with ⟨e, he, hc⟩ | ⟨⟨-, hc⟩, hplain | hunicode⟩
  · rw [hc] at h
    rcases escape_cases d with ⟨e', he', hd⟩ | ⟨⟨-, hd⟩, hplain | hunicode⟩
    · rw [hd] at h
      simp only [cons_append, nil_append, List.cons.injEq, true_and] at h
      exact ⟨(shortEscapes_inj _ he).2 _ he' h.1, h.2⟩
    · rw [hplain] at h
      exact absurd (List.cons.inj h).1.symm hd
    · obtain ⟨rest, hrest⟩ := unicodeEscape_eq_cons d
      rw [hunicode, hrest] at h
      exact absurd (List.cons.inj (List.cons.inj h).2).1 (shortEscapes_inj _ he).1
  · rw [hplain] at h
    rcases escape_cases d with ⟨e', he', hd⟩ | ⟨-, hplain' | hunicode⟩
    · rw [hd] at h
      exact absurd (List.cons.inj h).1 hc
    · rw [hplain'] at h
      exact ⟨(List.cons.inj h).1, (List.cons.inj h).2⟩
    · obtain ⟨rest, hrest⟩ := unicodeEscape_eq_cons d
      rw [hunicode, hrest] at h
      exact absurd (List.cons.inj h).1 hc
  · obtain ⟨rest, hrest⟩ := unicodeEscape_eq_cons c
    rcases escape_cases d with ⟨e', he', hd⟩ | ⟨⟨-, hd⟩, hplain | hunicode'⟩
    · rw [hunicode, hrest, hd] at h
      exact absurd (List.cons.inj (List.cons.inj h).2).1.symm (shortEscapes_inj _ he').1
    · rw [hunicode, hrest, hplain] at h
      exact absurd (List.cons.inj h).1.symm hd
    · rw [hunicode, hunicode'] at h
      exact unicodeEscape_append_inj h

theorem quote_ne_escape : '"' :: r ≠ escape c ++ s := by
  intro h
  rcases escape_cases c with ⟨e, -, hc⟩ | ⟨⟨hc, -⟩, hplain | hunicode⟩
  · rw [hc] at h
    exact absurd (List.cons.inj h).1 (by decide)
  · rw [hplain] at h
    exact hc (List.cons.inj h).1.symm
  · obtain ⟨rest, hrest⟩ := unicodeEscape_eq_cons c
    rw [hunicode, hrest] at h
    exact absurd (List.cons.inj h).1 (by decide)

theorem escapes_append_inj : ∀ {cs ds : List Char} {r s : List Char},
    cs.flatMap escape ++ '"' :: r = ds.flatMap escape ++ '"' :: s → cs = ds ∧ r = s
  | [], [], _, _, h => ⟨rfl, (List.cons.inj h).2⟩
  | [], d :: ds, _, _, h => by
    rw [flatMap_cons, append_assoc] at h
    exact absurd h quote_ne_escape
  | c :: cs, [], _, _, h => by
    rw [flatMap_cons, append_assoc] at h
    exact absurd h.symm quote_ne_escape
  | c :: cs, d :: ds, _, _, h => by
    rw [flatMap_cons, flatMap_cons, append_assoc, append_assoc] at h
    obtain ⟨rfl, hrest⟩ := escape_append_inj h
    obtain ⟨heq, hrest⟩ := escapes_append_inj hrest
    exact ⟨congrArg _ heq, hrest⟩

theorem quoted_append_inj {a b : String} (h : quoted a ++ r = quoted b ++ s) : a = b ∧ r = s := by
  simp only [quoted, cons_append, append_assoc, List.cons.injEq, true_and,
    nil_append] at h
  obtain ⟨heq, hrest⟩ := escapes_append_inj h
  exact ⟨String.toList_inj.mp heq, hrest⟩

/-! ## §3 Reading -/

/-- What follows does not go on with a number or a word. -/
def Ends (r : List Char) : Prop := ∀ c ∈ r.head?, plainChar c = false

theorem plain_append_inj (hs : ∀ c ∈ s, plainChar c = true) (ht : ∀ c ∈ t, plainChar c = true)
    {r r' : List Char} (hr : Ends r) (hr' : Ends r') (h : s ++ r = t ++ r') : s = t ∧ r = r' := by
  induction s generalizing t with
  | nil =>
    cases t with
    | nil => exact ⟨rfl, h⟩
    | cons c t =>
      have hplain := hr c (by rw [← nil_append r, h]; rfl)
      rw [ht c (mem_cons_self ..)] at hplain
      cases hplain
  | cons c s ih =>
    cases t with
    | nil =>
      have hplain := hr' c (by rw [← nil_append r', ← h]; rfl)
      rw [hs c (mem_cons_self ..)] at hplain
      cases hplain
    | cons d t =>
      obtain ⟨rfl, hrest⟩ := List.cons.inj h
      obtain ⟨heq, hrest⟩ := ih (fun c hc => hs c (mem_cons_of_mem _ hc))
        (fun c hc => ht c (mem_cons_of_mem _ hc)) hrest
      exact ⟨congrArg _ heq, hrest⟩

theorem isDigit_toDigits (h : c ∈ Nat.toDigits 10 n) : c.isDigit = true :=
  Nat.isDigit_of_mem_toDigits (by decide) (by decide) h

theorem toDigits_inj (h : Nat.toDigits 10 m = Nat.toDigits 10 n) : m = n := by
  rw [← Nat.ofDigitChars_ten_toDigits (n := m), h, Nat.ofDigitChars_ten_toDigits]

theorem mem_intText {i : ℤ} (h : c ∈ intText i) : c.isDigit = true ∨ c = '-' := by
  cases i with
  | ofNat n => exact .inl (isDigit_toDigits h)
  | negSucc n =>
    rcases mem_cons.mp h with rfl | h
    · exact .inr rfl
    · exact .inl (isDigit_toDigits h)

theorem minus_notMem_toDigits : '-' ∉ Nat.toDigits 10 n :=
  fun h => absurd (isDigit_toDigits h) (by decide)

theorem intText_inj {i j : ℤ} (h : intText i = intText j) : i = j := by
  cases i with
  | ofNat m =>
    cases j with
    | ofNat n => exact congrArg Int.ofNat (toDigits_inj h)
    | negSucc n =>
      have hminus : '-' ∈ Nat.toDigits 10 m := by
        rw [show Nat.toDigits 10 m = '-' :: Nat.toDigits 10 (n + 1) from h]
        exact mem_cons_self ..
      exact absurd hminus minus_notMem_toDigits
  | negSucc m =>
    cases j with
    | ofNat n =>
      have hminus : '-' ∈ Nat.toDigits 10 n := by
        rw [← show '-' :: Nat.toDigits 10 (m + 1) = Nat.toDigits 10 n from h]
        exact mem_cons_self ..
      exact absurd hminus minus_notMem_toDigits
    | negSucc n =>
      have heq := toDigits_inj (List.cons.inj h).2
      rw [Nat.succ.inj heq]

namespace Json

/-- The text of what is written as a number or a word. -/
def token : Json → Option (List Char)
  | null => some "null".toList
  | bool true => some "true".toList
  | bool false => some "false".toList
  | int i => some (intText i)
  | float x => some x.text
  | str _ | list _ | dict _ => none

theorem write_of_token {v : Json} (h : v.token = some t) : v.write = t := by
  cases v with
  | bool b => cases b <;> exact Option.some.inj h
  | null | int _ | float _ => exact Option.some.inj h
  | str _ | list _ | dict _ => cases h

theorem plain_of_token {v : Json} (h : v.token = some t) : ∀ c ∈ t, plainChar c = true := by
  intro c hc
  -- the words are checked letter by letter
  have hword : ("null".toList ++ "true".toList ++ "false".toList).all plainChar = true := by
    decide
  have hplain := all_eq_true.mp hword c
  cases v with
  | null =>
    obtain rfl := Option.some.inj h
    exact hplain (mem_append_left _ (mem_append_left _ hc))
  | bool b =>
    cases b with
    | true =>
      obtain rfl := Option.some.inj h
      exact hplain (mem_append_left _ (mem_append_right _ hc))
    | false =>
      obtain rfl := Option.some.inj h
      exact hplain (mem_append_right _ hc)
  | int i =>
    obtain rfl := Option.some.inj h
    rcases mem_intText hc with hdigit | rfl
    · simp [plainChar, Char.isAlphanum, hdigit]
    · rfl
  | float x =>
    obtain rfl := Option.some.inj h
    exact x.plain c hc
  | str _ | list _ | dict _ => cases h

/-- What the text of a number or a word says about the value. -/
def tokenKind (t : List Char) : ℕ :=
  if t = "null".toList then 0
  else if t = "true".toList then 1
  else if t = "false".toList then 2
  else if t.all fun c => c.isDigit || c = '-' then 3
  else 4

def kind : Json → ℕ
  | null => 0
  | bool true => 1
  | bool false => 2
  | int _ => 3
  | float _ => 4
  | str _ => 5
  | list _ => 6
  | dict _ => 7

theorem tokenKind_eq {v : Json} (h : v.token = some t) : tokenKind t = v.kind := by
  cases v with
  | null =>
    obtain rfl := Option.some.inj h
    rfl
  | bool b => cases b <;> obtain rfl := Option.some.inj h <;> rfl
  | int i =>
    obtain rfl := Option.some.inj h
    have hall : ((intText i).all fun c => c.isDigit || c = '-') = true := by
      simpa using fun c => mem_intText
    -- The words have letters.
    have hword : ∀ w : List Char, (w.all fun c => c.isDigit || c = '-') = false → intText i ≠ w := by
      rintro w hw rfl
      rw [hall] at hw
      cases hw
    rw [tokenKind, if_neg (hword _ (by decide)), if_neg (hword _ (by decide)),
      if_neg (hword _ (by decide)), if_pos hall]
    rfl
  | float x =>
    obtain rfl := Option.some.inj h
    have hall : ¬ (x.text.all fun c => c.isDigit || c = '-') = true := by
      obtain ⟨c, hc, hdigit, hminus⟩ := x.fractional
      rw [all_eq_true]
      intro hall
      simpa [hdigit, hminus] using hall c hc
    rw [tokenKind, if_neg x.notWord.1, if_neg x.notWord.2.1, if_neg x.notWord.2.2, if_neg hall]
    rfl
  | str _ | list _ | dict _ => cases h

variable {v w : Json}

theorem token_inj (hv : v.token = some t) (hw : w.token = some t) : v = w := by
  have hkind : v.kind = w.kind := (tokenKind_eq hv).symm.trans (tokenKind_eq hw)
  have htext : v.token = w.token := hv.trans hw.symm
  cases v with
  | null =>
    cases w with
    | null => rfl
    | bool b => cases b <;> cases hkind
    | _ => cases hkind
  | bool b =>
    cases w with
    | bool b' => cases b <;> cases b' <;> first | rfl | cases hkind
    | _ => cases b <;> cases hkind
  | int i =>
    cases w with
    | int j => rw [intText_inj (Option.some.inj htext)]
    | bool b => cases b <;> cases hkind
    | _ => cases hkind
  | float x =>
    cases w with
    | float y =>
      obtain ⟨x, _, _, _⟩ := x
      obtain ⟨y, _, _, _⟩ := y
      obtain rfl : x = y := Option.some.inj htext
      rfl
    | bool b => cases b <;> cases hkind
    | _ => cases hkind
  | str _ | list _ | dict _ => cases hv

theorem ne_nil_of_token {v : Json} (h : v.token = some t) : t ≠ [] := by
  rintro rfl
  cases v with
  | null => cases h
  | bool b => cases b <;> cases h
  | int i =>
    cases i with
    | ofNat n => exact Nat.toDigits_ne_nil (Option.some.inj h)
    | negSucc n => cases h
  | float x =>
    obtain ⟨c, hc, -⟩ := x.fractional
    rw [Option.some.inj h] at hc
    cases hc
  | str _ | list _ | dict _ => cases h

def bracket : Json → Char
  | str _ => '"'
  | list _ => '['
  | _ => '{'

theorem write_of_token_none {v : Json} (h : v.token = none) :
    ∃ rest, v.write = v.bracket :: rest := by
  cases v with
  | null | int _ | float _ => cases h
  | bool b => cases b <;> cases h
  | str s => exact ⟨_, by rw [write, quoted]; rfl⟩
  | list items =>
    cases items with
    | nil => exact ⟨_, by rw [write]; rfl⟩
    | cons v vs => exact ⟨_, by rw [write]; rfl⟩
  | dict items =>
    cases items with
    | nil => exact ⟨_, by rw [write]; rfl⟩
    | cons field fields => exact ⟨_, by rw [write]; rfl⟩

theorem plainChar_bracket (v : Json) : plainChar v.bracket = false := by
  cases v <;> rfl

theorem close_ne_write {v : Json} : ']' :: r ≠ v.write ++ s := by
  intro h
  cases hv : v.token with
  | some t =>
    rw [write_of_token hv] at h
    cases t with
    | nil => exact ne_nil_of_token hv rfl
    | cons c t =>
      have hplain := plain_of_token hv c (mem_cons_self ..)
      rw [← (List.cons.inj h).1] at hplain
      cases hplain
  | none =>
    obtain ⟨rest, hwrite⟩ := write_of_token_none hv
    rw [hwrite] at h
    have hbracket := (List.cons.inj h).1
    cases v <;> simp [bracket] at hbracket

theorem token_append_inj (hv : v.token = some t) (hr : Ends r) (hs : Ends s)
    (h : v.write ++ r = w.write ++ s) : v = w ∧ r = s := by
  rw [write_of_token hv] at h
  cases hw : w.token with
  | some t' =>
    rw [write_of_token hw] at h
    obtain ⟨rfl, hrest⟩ := plain_append_inj (plain_of_token hv) (plain_of_token hw) hr hs h
    exact ⟨token_inj hv hw, hrest⟩
  | none =>
    exfalso
    obtain ⟨rest, hwrite⟩ := write_of_token_none hw
    rw [hwrite] at h
    cases t with
    | nil => exact ne_nil_of_token hv rfl
    | cons d t =>
      have hplain := plain_of_token hv d (mem_cons_self ..)
      rw [(List.cons.inj h).1, plainChar_bracket] at hplain
      cases hplain

theorem bracket_eq (hv : v.token = none) (hr : Ends r) (hs : Ends s)
    (h : v.write ++ r = w.write ++ s) : w.token = none ∧ v.bracket = w.bracket := by
  cases hw : w.token with
  | some t =>
    obtain ⟨rfl, -⟩ := token_append_inj hw hs hr h.symm
    rw [hv] at hw
    cases hw
  | none =>
    obtain ⟨rest, hwrite⟩ := write_of_token_none hv
    obtain ⟨rest', hwrite'⟩ := write_of_token_none hw
    rw [hwrite, hwrite'] at h
    exact ⟨rfl, (List.cons.inj h).1⟩

theorem ends_tail (vs : List Json) (r : List Char) : Ends (writeTail vs ++ r) := by
  intro c hc
  cases vs <;> cases hc <;> decide

theorem ends_fields (fields : List (String × Json)) (r : List Char) :
    Ends (writeFields fields ++ r) := by
  intro c hc
  rcases fields with _ | ⟨field, fields⟩ <;> cases hc <;> decide

mutual

theorem write_append_inj : ∀ (v w : Json) {r s : List Char}, Ends r → Ends s →
    v.write ++ r = w.write ++ s → v = w ∧ r = s
  | null, w, _, _, hr, hs, h => token_append_inj rfl hr hs h
  | bool true, w, _, _, hr, hs, h => token_append_inj rfl hr hs h
  | bool false, w, _, _, hr, hs, h => token_append_inj rfl hr hs h
  | int i, w, _, _, hr, hs, h => token_append_inj rfl hr hs h
  | float x, w, _, _, hr, hs, h => token_append_inj rfl hr hs h
  | str a, w, r, s, hr, hs, h => by
    obtain ⟨hw, hbracket⟩ := bracket_eq rfl hr hs h
    cases w with
    | str b =>
      rw [write, write] at h
      obtain ⟨rfl, hrest⟩ := quoted_append_inj h
      exact ⟨rfl, hrest⟩
    | list _ | dict _ => simp [bracket] at hbracket
    | bool b => cases b <;> cases hw
    | null | int _ | float _ => cases hw
  | list vs, w, r, s, hr, hs, h => by
    obtain ⟨hw, hbracket⟩ := bracket_eq rfl hr hs h
    cases w with
    | list ws =>
      cases vs with
      | nil =>
        cases ws with
        | nil => exact ⟨rfl, (List.cons.inj (List.cons.inj h).2).2⟩
        | cons w ws =>
          simp only [write, cons_append, append_assoc, List.cons.injEq, true_and] at h
          exact absurd h close_ne_write
      | cons v vs =>
        cases ws with
        | nil =>
          simp only [write, cons_append, append_assoc, List.cons.injEq, true_and] at h
          exact absurd h.symm close_ne_write
        | cons w ws =>
          simp only [write, cons_append, append_assoc, List.cons.injEq, true_and] at h
          obtain ⟨rfl, htail⟩ := write_append_inj v w (ends_tail vs r) (ends_tail ws s) h
          obtain ⟨rfl, hrest⟩ := writeTail_append_inj vs ws htail
          exact ⟨rfl, hrest⟩
    | str _ | dict _ => simp [bracket] at hbracket
    | bool b => cases b <;> cases hw
    | null | int _ | float _ => cases hw
  | dict fields, w, r, s, hr, hs, h => by
    obtain ⟨hw, hbracket⟩ := bracket_eq rfl hr hs h
    cases w with
    | dict others =>
      cases fields with
      | nil =>
        cases others with
        | nil => exact ⟨rfl, (List.cons.inj (List.cons.inj h).2).2⟩
        | cons field others => exact absurd (List.cons.inj (List.cons.inj h).2).1 (by decide)
      | cons field fields =>
        cases others with
        | nil => exact absurd (List.cons.inj (List.cons.inj h).2).1 (by decide)
        | cons field' others =>
          obtain ⟨key, v⟩ := field
          obtain ⟨key', w⟩ := field'
          simp only [write, cons_append, append_assoc, List.cons.injEq, true_and] at h
          obtain ⟨rfl, hvalue⟩ := quoted_append_inj h
          simp only [List.cons.injEq, true_and] at hvalue
          obtain ⟨rfl, hfields⟩ :=
            write_append_inj v w (ends_fields fields r) (ends_fields others s) hvalue
          obtain ⟨rfl, hrest⟩ := writeFields_append_inj fields others hfields
          exact ⟨rfl, hrest⟩
    | str _ | list _ => simp [bracket] at hbracket
    | bool b => cases b <;> cases hw
    | null | int _ | float _ => cases hw

theorem writeTail_append_inj : ∀ (vs ws : List Json) {r s : List Char},
    writeTail vs ++ r = writeTail ws ++ s → vs = ws ∧ r = s
  | [], [], _, _, h => ⟨rfl, (List.cons.inj h).2⟩
  | [], w :: ws, _, _, h => absurd (List.cons.inj h).1 (by decide)
  | v :: vs, [], _, _, h => absurd (List.cons.inj h).1 (by decide)
  | v :: vs, w :: ws, r, s, h => by
    simp only [writeTail, cons_append, append_assoc, List.cons.injEq, true_and] at h
    obtain ⟨rfl, hrest⟩ := write_append_inj v w (ends_tail vs r) (ends_tail ws s) h
    obtain ⟨heq, hrest⟩ := writeTail_append_inj vs ws hrest
    exact ⟨congrArg _ heq, hrest⟩

theorem writeFields_append_inj : ∀ (fields others : List (String × Json)) {r s : List Char},
    writeFields fields ++ r = writeFields others ++ s → fields = others ∧ r = s
  | [], [], _, _, h => ⟨rfl, (List.cons.inj h).2⟩
  | [], (_, _) :: _, _, _, h => absurd (List.cons.inj h).1 (by decide)
  | (_, _) :: _, [], _, _, h => absurd (List.cons.inj h).1 (by decide)
  | (key, v) :: fields, (key', w) :: others, r, s, h => by
    simp only [writeFields, cons_append, append_assoc, List.cons.injEq, true_and] at h
    obtain ⟨rfl, hrest⟩ := quoted_append_inj h
    simp only [List.cons.injEq, true_and] at hrest
    obtain ⟨rfl, hfields⟩ := write_append_inj v w (ends_fields fields r) (ends_fields others s) hrest
    obtain ⟨heq, hrest⟩ := writeFields_append_inj fields others hfields
    exact ⟨congrArg _ heq, hrest⟩

end

theorem dumps_eq_iff : v.dumps = w.dumps ↔ v.sortKeys = w.sortKeys := by
  refine ⟨fun h => ?_, fun h => congrArg write h⟩
  have hends : Ends [] := nofun
  exact (write_append_inj v.sortKeys w.sortKeys hends hends (congrArg (· ++ []) h)).1

/-! ## §4 The order of items -/

/-- The values are equal but for the order of the items of dictionaries. -/
inductive Same : Json → Json → Prop
  | refl (v : Json) : Same v v
  | trans {u v w : Json} (h : Same u v) (h' : Same v w) : Same u w
  | reorder {items items' : List (String × Json)} (hdistinct : (items.map (·.1)).Nodup)
      (h : items.Perm items') : Same (dict items) (dict items')
  | item {v w : Json} (before after : List Json) (h : Same v w) :
      Same (list (before ++ v :: after)) (list (before ++ w :: after))
  | field {v w : Json} (before : List (String × Json)) (key : String)
      (after : List (String × Json)) (h : Same v w) :
      Same (dict (before ++ (key, v) :: after)) (dict (before ++ (key, w) :: after))

mutual

def Distinct : Json → Prop
  | list items => DistinctList items
  | dict items => (items.map (·.1)).Nodup ∧ DistinctFields items
  | _ => True

def DistinctList : List Json → Prop
  | [] => True
  | v :: vs => Distinct v ∧ DistinctList vs

def DistinctFields : List (String × Json) → Prop
  | [] => True
  | (_, v) :: fields => Distinct v ∧ DistinctFields fields

end

theorem Same.symm (h : Same v w) : Same w v := by
  induction h with
  | refl v => exact .refl v
  | trans _ _ ih ih' => exact .trans ih' ih
  | reorder hdistinct h => exact .reorder ((h.map _).nodup_iff.mp hdistinct) h.symm
  | item before after _ ih => exact .item before after ih
  | field before key after _ ih => exact .field before key after ih

theorem sortList_eq_map (items : List Json) : sortList items = items.map sortKeys := by
  induction items with
  | nil => rfl
  | cons v vs ih => rw [sortList, ih, map_cons]

theorem sortFields_eq_map (items : List (String × Json)) :
    sortFields items = items.map fun field => (field.1, field.2.sortKeys) := by
  induction items with
  | nil => rfl
  | cons field fields ih =>
    obtain ⟨key, v⟩ := field
    rw [sortFields, ih, map_cons]

theorem Same.sortKeys_eq (h : Same v w) : v.sortKeys = w.sortKeys := by
  induction h with
  | refl v => rfl
  | trans _ _ ih ih' => exact ih.trans ih'
  | reorder hdistinct h =>
    simp only [sortKeys, sortFields_eq_map]
    refine congrArg dict (sortBy_eq_of_perm ?_ (h.map _))
    rwa [map_map]
  | item before after _ ih =>
    simp only [sortKeys, sortList_eq_map, map_append, map_cons, ih]
  | field before key after _ ih =>
    simp only [sortKeys, sortFields_eq_map, map_append, map_cons, ih]

theorem distinctFields_iff {fields : List (String × Json)} :
    DistinctFields fields ↔ ∀ field ∈ fields, field.2.Distinct := by
  induction fields with
  | nil => exact ⟨fun _ => nofun, fun _ => trivial⟩
  | cons field fields ih => rw [DistinctFields, ih, forall_mem_cons]

theorem sortKeys_filter {items : List (String × Json)} (hdistinct : (items.map (·.1)).Nodup)
    (p : String → Bool) : (dict (items.filter fun item => p item.1)).sortKeys =
      dict ((sortBy (·.1) (sortFields items)).filter fun item => p item.1) := by
  have hkeys : ((sortFields items).map (·.1)).Nodup := by
    rw [sortFields_eq_map, map_map]
    exact hdistinct
  rw [← sortBy_filter hkeys, sortKeys, sortFields_eq_map, sortFields_eq_map, filter_map]
  rfl

mutual

theorem same_sortKeys : ∀ v : Json, v.Distinct → Same v v.sortKeys
  | list items, h => same_sortList items [] h
  | dict items, ⟨hdistinct, hitems⟩ => by
    refine .trans (same_sortFields items [] hitems) (.reorder ?_ (sortBy_perm _ _).symm)
    rw [nil_append, sortFields_eq_map, map_map]
    exact hdistinct
  | null, _ | bool _, _ | int _, _ | float _, _ | str _, _ => .refl _

theorem same_sortList : ∀ items before : List Json, DistinctList items →
    Same (list (before ++ items)) (list (before ++ sortList items))
  | [], _, _ => .refl _
  | v :: vs, before, ⟨hv, hvs⟩ => by
    have hrest := same_sortList vs (before ++ [v.sortKeys]) hvs
    rw [append_assoc, append_assoc] at hrest
    exact .trans (.item before vs (same_sortKeys v hv)) hrest

theorem same_sortFields : ∀ fields before : List (String × Json), DistinctFields fields →
    Same (dict (before ++ fields)) (dict (before ++ sortFields fields))
  | [], _, _ => .refl _
  | (key, v) :: fields, before, ⟨hv, hfields⟩ => by
    have hrest := same_sortFields fields (before ++ [(key, v.sortKeys)]) hfields
    rw [append_assoc, append_assoc] at hrest
    exact .trans (.field before key fields (same_sortKeys v hv)) hrest

end

theorem dumps_eq_iff_same (hv : v.Distinct) (hw : w.Distinct) :
    v.dumps = w.dumps ↔ Same v w := by
  rw [dumps_eq_iff]
  refine ⟨fun h => ?_, Same.sortKeys_eq⟩
  exact .trans (same_sortKeys v hv) (h ▸ (same_sortKeys w hw).symm)

end Json

end Ace3.Lib.JsonText
