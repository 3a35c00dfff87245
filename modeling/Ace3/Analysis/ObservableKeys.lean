import Mathlib.Data.Set.Insert

/-!
# Observables as Keys

`==` and `hash` of observables (`saq/analysis/observable.py`), with the caseless ones
(`saq/observables/base.py`) and the files (`saq/observables/file.py`). The type decides the class,
as in `OBSERVABLE_TYPE_MAPPING`.

How Python writes a time, what it makes of a caseless value (`casefold` and NFKD) and the hash of
a string are parameters.
-/

namespace Ace3.Analysis.ObservableKeys

/-! ## §1 Equality and hash -/

inductive ObservableClass where
  | observable
  | caselessObservable
  | fileObservable
  deriving DecidableEq

/-- What is set as `time`; the clock and the offset from UTC in microseconds. -/
inductive EventTime where
  | text (value : List Char)
  | datetime (clock : Int) (utcoffset : Option Int)
  deriving DecidableEq

/-- `==` of two times. With offsets the instants are compared; a time without one equals no
time with one. -/
def EventTime.eq : EventTime → EventTime → Bool
  | text v, text w => v = w
  | datetime c none, datetime d none => c = d
  | datetime c (some o), datetime d (some p) => c - o = d - p
  | _, _ => false

structure Observable where
  uuid : String
  type : List Char
  value : List Char
  time : Option EventTime
  /-- Of a file. -/
  filePath : String
  deriving DecidableEq

structure Runtime where
  classOf : List Char → ObservableClass
  normalizeCaseless : List Char → List Char
  timeText : EventTime → List Char

variable (rt : Runtime)

namespace Observable

/-- `__str__` of `Observable`. -/
def str (o : Observable) : List Char :=
  match o.time with
  | some time => o.type ++ '(' :: o.value ++ '@' :: rt.timeText time ++ [')']
  | none => o.type ++ '(' :: o.value ++ [')']

def compareValue (o : Observable) (otherValue : List Char) : Bool :=
  match rt.classOf o.type with
  | .caselessObservable => rt.normalizeCaseless o.value = rt.normalizeCaseless otherValue
  | _ => o.value = otherValue

/-- `self.time == other.time`. -/
def sameTime (o other : Observable) : Bool :=
  match o.time, other.time with
  | some t, some u => t.eq u
  | none, none => true
  | _, _ => false

/-- `__eq__`, which `FileObservable` overrides. -/
def eq (o other : Observable) : Bool :=
  if rt.classOf o.type = .fileObservable then
    rt.classOf other.type = .fileObservable && o.value = other.value &&
      o.filePath = other.filePath
  else if other.uuid = o.uuid then true
  else if other.type ≠ o.type then false
  else if o.time.isSome || other.time.isSome then
    o.sameTime other && o.compareValue rt other.value
  else o.compareValue rt other.value

/-- What `__hash__` takes the hash of. -/
def hashed (o : Observable) : List Char :=
  if rt.classOf o.type = .fileObservable then o.value else o.str rt

end Observable

/-- `==` is symmetric and transitive on the observables, and equal ones have equal hashes,
whatever the hash of strings. -/
structure Coherent (observables : Set Observable) : Prop where
  symm : ∀ a ∈ observables, ∀ b ∈ observables, a.eq rt b → b.eq rt a
  trans : ∀ a ∈ observables, ∀ b ∈ observables, ∀ c ∈ observables,
    a.eq rt b → b.eq rt c → a.eq rt c
  hash : ∀ a ∈ observables, ∀ b ∈ observables, a.eq rt b →
    ∀ hash : List Char → Int, hash (a.hashed rt) = hash (b.hashed rt)

/-! ## §2 Equal without a look at the uuid -/

variable {rt} {a b c : Observable}

/-- Type, time and value compare equal. -/
def Matches (rt : Runtime) (a b : Observable) : Prop :=
  a.type = b.type ∧ a.sameTime b ∧ a.compareValue rt b.value
  deriving Decidable

abbrev IsFile (rt : Runtime) (o : Observable) : Prop := rt.classOf o.type = .fileObservable

theorem EventTime.eq_swap (t u : EventTime) : t.eq u = u.eq t := by
  rcases t with v | ⟨c, _ | o⟩ <;> rcases u with w | ⟨d, _ | p⟩ <;>
    simp [EventTime.eq, eq_comm]

theorem EventTime.eq_trans {t u v : EventTime} (h : t.eq u) (h' : u.eq v) : t.eq v := by
  rcases t with x | ⟨c, _ | o⟩ <;> rcases u with y | ⟨d, _ | p⟩ <;>
    rcases v with z | ⟨e, _ | q⟩ <;> simp_all [EventTime.eq]

theorem Matches.symm (h : Matches rt a b) : Matches rt b a := by
  obtain ⟨htype, htime, hvalue⟩ := h
  refine ⟨htype.symm, ?_, ?_⟩
  · unfold Observable.sameTime at *
    cases ha : a.time <;> cases hb : b.time <;> simp_all [EventTime.eq_swap]
  · unfold Observable.compareValue at *
    rw [htype] at hvalue
    split <;> simp_all

theorem Matches.trans (h : Matches rt a b) (h' : Matches rt b c) : Matches rt a c := by
  obtain ⟨htype, htime, hvalue⟩ := h
  obtain ⟨htype', htime', hvalue'⟩ := h'
  refine ⟨htype.trans htype', ?_, ?_⟩
  · unfold Observable.sameTime at *
    cases ha : a.time <;> cases hb : b.time <;> cases hc : c.time <;> simp_all
    exact EventTime.eq_trans htime htime'
  · unfold Observable.compareValue at *
    rw [← htype] at hvalue'
    split <;> simp_all

theorem eq_iff (ha : ¬ IsFile rt a) : a.eq rt b ↔ a.uuid = b.uuid ∨ Matches rt a b := by
  have hnone (h : (a.time.isSome || b.time.isSome) ≠ true) : a.sameTime b = true := by
    unfold Observable.sameTime
    cases ht : a.time <;> cases hu : b.time <;> simp_all
  unfold Observable.eq Matches
  rw [if_neg ha]
  grind

theorem eq_iff_of_isFile (ha : IsFile rt a) :
    a.eq rt b ↔ IsFile rt b ∧ a.value = b.value ∧ a.filePath = b.filePath := by
  simp [Observable.eq, ha, and_assoc]

theorem not_isFile_of_eq (ha : IsFile rt a) (h : a.eq rt b) : IsFile rt b :=
  ((eq_iff_of_isFile ha).mp h).1

/-! ## §3 When they are coherent -/

/-- No file shares its uuid with another observable, what shares a uuid or matches reads alike,
and what shares a uuid matches the same others. -/
structure Orderly (rt : Runtime) (observables : Set Observable) : Prop where
  apart : ∀ a ∈ observables, ∀ b ∈ observables, ¬ IsFile rt a → IsFile rt b → a.uuid ≠ b.uuid
  spelled : ∀ a ∈ observables, ∀ b ∈ observables, ¬ IsFile rt a → ¬ IsFile rt b →
    a.uuid = b.uuid ∨ Matches rt a b → a.str rt = b.str rt
  shared : ∀ a ∈ observables, ∀ b ∈ observables, ∀ c ∈ observables, ¬ IsFile rt a →
    ¬ IsFile rt b → a.uuid = b.uuid → b.uuid ≠ c.uuid → Matches rt b c → Matches rt a c

variable {observables : Set Observable}

theorem Coherent.orderly (h : Coherent rt observables) : Orderly rt observables where
  apart a ha b hb hfile hfile' huuid := by
    have heq := h.symm a ha b hb ((eq_iff hfile).mpr (.inl huuid))
    exact hfile (not_isFile_of_eq hfile' heq)
  spelled a ha b hb hfile hfile' hmatch := by
    -- a hash that tells the first text from all others
    have hhash := h.hash a ha b hb ((eq_iff hfile).mpr hmatch)
      fun text => if text = a.str rt then 1 else 0
    simp only [Observable.hashed, if_neg hfile, if_neg hfile'] at hhash
    grind
  shared a ha b hb c hc hfile hfile' huuid hne hmatch := by
    have heq := h.trans a ha b hb c hc ((eq_iff hfile).mpr (.inl huuid))
      ((eq_iff hfile').mpr (.inr hmatch))
    exact ((eq_iff hfile).mp heq).resolve_left fun huuid' => hne (huuid.symm.trans huuid')

theorem Orderly.not_isFile (h : Orderly rt observables) (ha : a ∈ observables)
    (hb : b ∈ observables) (hfile : ¬ IsFile rt a) (heq : a.eq rt b) : ¬ IsFile rt b := by
  intro hfile'
  obtain huuid | ⟨htype, -, -⟩ := (eq_iff hfile).mp heq
  · exact h.apart a ha b hb hfile hfile' huuid
  · exact hfile (by rwa [IsFile, htype])

/-- Observables are coherent exactly if they are orderly. -/
theorem coherent_iff (rt : Runtime) (observables : Set Observable) :
    Coherent rt observables ↔ Orderly rt observables := by
  refine ⟨Coherent.orderly, fun h => ⟨fun a ha b hb heq => ?_, fun a ha b hb c hc heq heq' => ?_,
    fun a ha b hb heq hash => congrArg hash ?_⟩⟩ <;> by_cases hfile : IsFile rt a
  · obtain ⟨hfile', hvalue, hpath⟩ := (eq_iff_of_isFile hfile).mp heq
    exact (eq_iff_of_isFile hfile').mpr ⟨hfile, hvalue.symm, hpath.symm⟩
  · rw [eq_iff (h.not_isFile ha hb hfile heq)]
    exact ((eq_iff hfile).mp heq).imp Eq.symm Matches.symm
  · obtain ⟨hfile', hvalue, hpath⟩ := (eq_iff_of_isFile hfile).mp heq
    obtain ⟨hfile'', hvalue', hpath'⟩ := (eq_iff_of_isFile hfile').mp heq'
    exact (eq_iff_of_isFile hfile).mpr ⟨hfile'', hvalue.trans hvalue', hpath.trans hpath'⟩
  · have hfile' := h.not_isFile ha hb hfile heq
    have hfile'' := h.not_isFile hb hc hfile' heq'
    rw [eq_iff hfile] at heq ⊢
    rw [eq_iff hfile'] at heq'
    by_cases huuid : a.uuid = c.uuid
    · exact .inl huuid
    · right
      rcases heq with heq | heq <;> rcases heq' with heq' | heq'
      · exact absurd (heq.trans heq') huuid
      · exact h.shared a ha b hb c hc hfile hfile' heq (heq ▸ huuid) heq'
      · exact (h.shared c hc b hb a ha hfile'' hfile' heq'.symm
          (fun heq'' => huuid (heq''.symm.trans heq')) heq.symm).symm
      · exact heq.trans heq'
  · obtain ⟨hfile', hvalue, -⟩ := (eq_iff_of_isFile hfile).mp heq
    simp [Observable.hashed, hfile, hfile', hvalue]
  · have hfile' := h.not_isFile ha hb hfile heq
    simp only [Observable.hashed, if_neg hfile, if_neg hfile']
    exact h.spelled a ha b hb hfile hfile' ((eq_iff hfile).mp heq)

/-! A host name in two spellings. -/

def asciiRuntime : Runtime where
  classOf _ := .caselessObservable
  normalizeCaseless value := value.map Char.toLower
  timeText _ := []

def hostname (uuid : String) (value : List Char) : Observable where
  uuid := uuid
  type := "hostname".toList
  value := value
  time := none
  filePath := ""

theorem spellings_hash_apart : ¬ ∀ observables, Coherent asciiRuntime observables := by
  intro h
  have hspelled := (h {hostname "1" ['P', 'C'], hostname "2" ['p', 'c']}).orderly.spelled
    _ (.inl rfl) _ (.inr rfl) (by decide) (by decide) (.inr (by decide))
  exact absurd hspelled (by decide)

end Ace3.Analysis.ObservableKeys
