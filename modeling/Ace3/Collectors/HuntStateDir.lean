import Mathlib.Algebra.GroupWithZero.Nat
import Mathlib.Data.List.Forall2
import Mathlib.Order.Nat

/-!
# The State Directory of a Hunt

The directory of the persistence data of a hunt (`saq/collectors/hunter/base_hunter.py`). A name is
Unicode text; how many bytes it takes is counted in UTF-8.
-/

namespace Ace3.Collectors

open List

/-! ## §1 The name -/

/-- `hashlib.sha256(...).hexdigest()` of the encoded text. -/
structure Sha256 where
  hexdigest : List Char → List Char
  length_hexdigest (text : List Char) : (hexdigest text).length = 64
  hexadecimal (text : List Char) : ∀ c ∈ hexdigest text, c ∈ "0123456789abcdef".toList

/-- `len(text.encode("utf-8"))`. -/
def encodedLength (text : List Char) : ℕ := (text.map Char.utf8Size).sum

/-- `text.encode("utf-8")[:n].decode("utf-8", errors="ignore")`: the characters that are whole in
the first `n` bytes. -/
def truncate : ℕ → List Char → List Char
  | _, [] => []
  | n, c :: rest => if c.utf8Size ≤ n then c :: truncate (n - c.utf8Size) rest else []

def maxHuntStateDirNameBytes : ℕ := 200

/-- `os.sep` and NUL; Linux has no `os.altsep`. -/
def separators : List Char := ['/', '\x00']

def replaceSeparators (name : List Char) : List Char :=
  separators.foldl (fun result separator =>
    result.map fun c => if c = separator then '_' else c) name

def huntStateDirName (sha256 : Sha256) (huntName : List Char) : List Char :=
  let result := replaceSeparators huntName
  if encodedLength result ≤ maxHuntStateDirNameBytes then result
  else truncate maxHuntStateDirNameBytes result ++ '.' :: (sha256.hexdigest huntName).take 16

/-! ## §2 Lengths -/

variable {sha256 : Sha256} {n : ℕ} {a b name text : List Char}

@[simp] theorem encodedLength_cons {c : Char} :
    encodedLength (c :: text) = c.utf8Size + encodedLength text := rfl

@[simp] theorem encodedLength_append :
    encodedLength (a ++ b) = encodedLength a + encodedLength b := by
  simp [encodedLength]

theorem encodedLength_truncate_le : encodedLength (truncate n text) ≤ n := by
  induction text generalizing n with
  | nil => exact Nat.zero_le n
  | cons c text ih =>
    unfold truncate
    split
    next h =>
      have := ih (n := n - c.utf8Size)
      rw [encodedLength_cons]
      omega
    next => exact Nat.zero_le n

/-- Only a character that does not fit is left out, and none takes more than four bytes. -/
theorem lt_encodedLength_truncate (h : n < encodedLength text) :
    n < encodedLength (truncate n text) + 4 := by
  induction text generalizing n with
  | nil => exact absurd h (Nat.not_lt_zero n)
  | cons c text ih =>
    rw [encodedLength_cons] at h
    unfold truncate
    split
    next hfits =>
      have := ih (n := n - c.utf8Size) (by omega)
      rw [encodedLength_cons]
      omega
    next hfits =>
      have := Char.utf8Size_eq c
      omega

theorem encodedLength_of_ascii (h : ∀ c ∈ text, c.utf8Size = 1) :
    encodedLength text = text.length := by
  unfold encodedLength
  rw [map_congr_left h]
  simp

theorem of_hexadecimal : ∀ c ∈ "0123456789abcdef".toList, c.utf8Size = 1 ∧ c ∉ separators := by
  simp [separators, Char.utf8Size]

theorem length_take_hexdigest : ((sha256.hexdigest name).take 16).length = 16 := by
  rw [length_take, sha256.length_hexdigest]
  rfl

theorem encodedLength_take_hexdigest :
    encodedLength ((sha256.hexdigest name).take 16) = 16 := by
  rw [encodedLength_of_ascii, length_take_hexdigest]
  exact fun c hc => (of_hexadecimal c (sha256.hexadecimal name c (mem_of_mem_take hc))).1

/-! ## §3 Names that are replaced alike -/

def replaceSeparator (c : Char) : Char := if c ∈ separators then '_' else c

/-- The separators and what replaces them. -/
def Interchangeable (c d : Char) : Prop :=
  c = d ∨ c ∈ '_' :: separators ∧ d ∈ '_' :: separators

def Alike (a b : List Char) : Prop := Forall₂ Interchangeable a b

theorem replaceSeparators_eq_map : replaceSeparators name = name.map replaceSeparator := by
  simp only [replaceSeparators, separators, foldl_cons, foldl_nil, map_map]
  refine map_congr_left fun c _ => ?_
  simp only [Function.comp_apply, replaceSeparator, separators, mem_cons, not_mem_nil, or_false]
  grind

theorem replaceSeparator_eq_iff {c d : Char} :
    replaceSeparator c = replaceSeparator d ↔ Interchangeable c d := by
  simp only [replaceSeparator, Interchangeable, mem_cons]
  grind

theorem replaceSeparators_eq_iff : replaceSeparators a = replaceSeparators b ↔ Alike a b := by
  rw [replaceSeparators_eq_map, replaceSeparators_eq_map, ← forall₂_eq_eq_eq,
    forall₂_map_left_iff, forall₂_map_right_iff]
  simp only [replaceSeparator_eq_iff, Alike]

theorem utf8Size_replaceSeparator (c : Char) : (replaceSeparator c).utf8Size = c.utf8Size := by
  have hseparators : ∀ d ∈ separators, d.utf8Size = '_'.utf8Size := by
    simp [separators, Char.utf8Size]
  unfold replaceSeparator
  split
  next h => exact (hseparators c h).symm
  next => rfl

@[simp] theorem encodedLength_replaceSeparators :
    encodedLength (replaceSeparators name) = encodedLength name := by
  rw [replaceSeparators_eq_map, encodedLength, map_map, encodedLength]
  exact congrArg sum (map_congr_left fun c _ => utf8Size_replaceSeparator c)

theorem truncate_replaceSeparators :
    truncate n (replaceSeparators name) = replaceSeparators (truncate n name) := by
  simp only [replaceSeparators_eq_map]
  induction name generalizing n with
  | nil => rfl
  | cons c name ih =>
    rw [map_cons, truncate, truncate, utf8Size_replaceSeparator, ih]
    split <;> rfl

theorem separator_notMem_replaceSeparators : ∀ c ∈ separators, c ∉ replaceSeparators name := by
  intro c hc
  rw [replaceSeparators_eq_map, mem_map]
  rintro ⟨d, -, rfl⟩
  have hunderscore : '_' ∉ separators := by decide
  unfold replaceSeparator at hc
  split at hc <;> contradiction

theorem huntStateDirName_of_le (h : encodedLength name ≤ maxHuntStateDirNameBytes) :
    huntStateDirName sha256 name = replaceSeparators name := by
  simp only [huntStateDirName, encodedLength_replaceSeparators, if_pos h]

theorem huntStateDirName_of_lt (h : maxHuntStateDirNameBytes < encodedLength name) :
    huntStateDirName sha256 name = replaceSeparators (truncate maxHuntStateDirNameBytes name) ++
      '.' :: (sha256.hexdigest name).take 16 := by
  simp only [huntStateDirName, encodedLength_replaceSeparators, if_neg h.not_ge,
    truncate_replaceSeparators]

/-! ## §4 Directories -/

/-- A path component that stays in its directory, and that a file system takes. -/
structure IsComponent (name : List Char) : Prop where
  ne_nil : name ≠ []
  ne_dot : name ≠ ['.']
  ne_dots : name ≠ ['.', '.']
  separator_notMem : ∀ c ∈ separators, c ∉ name
  length_le : encodedLength name ≤ 255

/-- The name is not one of those that are no component: it is empty, `.` or `..`. -/
def IsName (name : List Char) : Prop := name ≠ [] ∧ name ≠ ['.'] ∧ name ≠ ['.', '.']

theorem replaceSeparator_eq_dot_iff {c : Char} : replaceSeparator c = '.' ↔ c = '.' := by
  unfold replaceSeparator
  have hdot : '.' ∉ separators := by decide
  grind

theorem isComponent_iff : IsComponent (huntStateDirName sha256 name) ↔ IsName name := by
  obtain hshort | hlong := le_or_gt (encodedLength name) maxHuntStateDirNameBytes
  · rw [huntStateDirName_of_le hshort]
    constructor
    · intro h
      refine ⟨fun heq => h.ne_nil ?_, fun heq => h.ne_dot ?_, fun heq => h.ne_dots ?_⟩ <;>
        (subst heq; decide)
    · rintro ⟨hnil, hdot, hdots⟩
      have hlength : encodedLength (replaceSeparators name) ≤ 255 := by
        rw [encodedLength_replaceSeparators]
        exact hshort.trans (by decide)
      refine ⟨?_, ?_, ?_, separator_notMem_replaceSeparators, hlength⟩ <;>
        simp [replaceSeparators_eq_map, map_eq_cons_iff, replaceSeparator_eq_dot_iff, hnil, hdot,
          hdots]
  · rw [huntStateDirName_of_lt hlong]
    have hne {text : List Char} (hsmall : text.length ≤ 2) :
        replaceSeparators (truncate maxHuntStateDirNameBytes name) ++
          '.' :: (sha256.hexdigest name).take 16 ≠ text := by
      rintro rfl
      rw [length_append, length_cons, length_take_hexdigest] at hsmall
      omega
    have hdot : '.' ∉ separators := by decide
    constructor
    · intro _
      refine ⟨?_, ?_, ?_⟩ <;> (rintro rfl; exact absurd hlong (by decide))
    · intro _
      refine ⟨hne (by decide), hne (by decide), hne (by decide), fun c hc => ?_, ?_⟩
      · rw [mem_append, mem_cons]
        rintro (hmem | rfl | hmem)
        · exact separator_notMem_replaceSeparators c hc hmem
        · exact hdot hc
        · exact (of_hexadecimal c (sha256.hexadecimal name c (mem_of_mem_take hmem))).2 hc
      · have hprefix : encodedLength (truncate maxHuntStateDirNameBytes name) ≤ _ :=
          encodedLength_truncate_le
        have hsize : '.'.utf8Size = 1 := by decide
        rw [encodedLength_append, encodedLength_cons, encodedLength_replaceSeparators,
          encodedLength_take_hexdigest, hsize]
        unfold maxHuntStateDirNameBytes at hprefix ⊢
        omega

/-! ## §5 Hunts that share a directory -/

/-- Short names with separators or underscores at the same places; or long names whose beginnings
are so and whose digests begin alike. -/
def Clash (sha256 : Sha256) (a b : List Char) : Prop :=
  if encodedLength a ≤ maxHuntStateDirNameBytes then
    encodedLength b ≤ maxHuntStateDirNameBytes ∧ Alike a b
  else maxHuntStateDirNameBytes < encodedLength b ∧
    Alike (truncate maxHuntStateDirNameBytes a) (truncate maxHuntStateDirNameBytes b) ∧
    (sha256.hexdigest a).take 16 = (sha256.hexdigest b).take 16

/-- The short names stay within the bound, and the truncated ones, with the digest, do not. -/
theorem encodedLength_huntStateDirName_le_iff :
    encodedLength (huntStateDirName sha256 name) ≤ maxHuntStateDirNameBytes ↔
      encodedLength name ≤ maxHuntStateDirNameBytes := by
  obtain hshort | hlong := le_or_gt (encodedLength name) maxHuntStateDirNameBytes
  · rw [huntStateDirName_of_le hshort, encodedLength_replaceSeparators]
  · have hprefix := lt_encodedLength_truncate hlong
    rw [huntStateDirName_of_lt hlong, encodedLength_append, encodedLength_cons,
      encodedLength_replaceSeparators, encodedLength_take_hexdigest]
    omega

theorem huntStateDirName_eq_iff :
    huntStateDirName sha256 a = huntStateDirName sha256 b ↔ Clash sha256 a b := by
  have hsame (h : huntStateDirName sha256 a = huntStateDirName sha256 b) :
      encodedLength a ≤ maxHuntStateDirNameBytes ↔
        encodedLength b ≤ maxHuntStateDirNameBytes := by
    rw [← @encodedLength_huntStateDirName_le_iff sha256 a, h,
      encodedLength_huntStateDirName_le_iff]
  unfold Clash
  split
  next ha =>
    constructor
    · intro h
      have hb := (hsame h).mp ha
      rw [huntStateDirName_of_le ha, huntStateDirName_of_le hb, replaceSeparators_eq_iff] at h
      exact ⟨hb, h⟩
    · rintro ⟨hb, h⟩
      rwa [huntStateDirName_of_le ha, huntStateDirName_of_le hb, replaceSeparators_eq_iff]
  next ha =>
    have ha := not_le.mp ha
    constructor
    · intro h
      have hb := not_le.mp ((hsame h).not.mp ha.not_ge)
      rw [huntStateDirName_of_lt ha, huntStateDirName_of_lt hb] at h
      obtain ⟨hfront, hdigest⟩ := append_inj' h
        (by rw [length_cons, length_cons, length_take_hexdigest, length_take_hexdigest])
      exact ⟨hb, replaceSeparators_eq_iff.mp hfront, (cons.inj hdigest).2⟩
    · rintro ⟨hb, hfront, hdigest⟩
      rw [huntStateDirName_of_lt ha, huntStateDirName_of_lt hb, hdigest,
        replaceSeparators_eq_iff.mpr hfront]

/-- Two hunts of one type keep their state in directories of their own, each inside that of the
type. -/
def KeptApart (sha256 : Sha256) (a b : List Char) : Prop :=
  huntStateDirName sha256 a ≠ huntStateDirName sha256 b ∧
    IsComponent (huntStateDirName sha256 a) ∧ IsComponent (huntStateDirName sha256 b)

theorem keptApart_iff (sha256 : Sha256) (a b : List Char) :
    KeptApart sha256 a b ↔ IsName a ∧ IsName b ∧ ¬ Clash sha256 a b := by
  rw [KeptApart, isComponent_iff, isComponent_iff, Ne, huntStateDirName_eq_iff]
  tauto

/-- A digest for the example, where none is taken. -/
def zeroDigest : Sha256 where
  hexdigest _ := replicate 64 '0'
  length_hexdigest _ := length_replicate
  hexadecimal _ c hc := by
    rw [eq_of_mem_replicate hc]
    decide

theorem separator_and_underscore : ¬ ("a/b".toList ≠ "a_b".toList →
    KeptApart zeroDigest "a/b".toList "a_b".toList) := by
  intro h
  exact (h (by decide)).1 (by decide)

end Ace3.Collectors
