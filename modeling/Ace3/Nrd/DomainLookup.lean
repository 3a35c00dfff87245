import Ace3.Lib.Trim
import Ace3.Analysis.Observable
import Ace3.Lib.Separators
import Mathlib

/-!
# Newly Registered Domains

`saq/nrd/refresh.py` fills a table with the domains of feeds, `saq/nrd/util.py` looks up a name or
a URL in it. Both bring names into one form, each in its own way.
-/

namespace Ace3.Nrd

open List
open Analysis (isSpace)
open Lib.Trim

/-! ## §1 Libraries -/

abbrev Text := List Char

def InDomain (domain name : Text) : Prop :=
  name = domain ∨ '.' :: domain <:+ name

instance (domain name : Text) : Decidable (InDomain domain name) := by
  unfold InDomain
  infer_instance

structure Libraries where
  /-- `str.lower` -/
  lower : Text → Text
  lower_nil : lower [] = []
  /-- `idna.encode(name).decode("ascii")`, if it does not raise. -/
  idnaEncode : Text → Option Text
  /-- A name in ASCII is checked but not changed. -/
  idnaEncode_ascii : ∀ name encoded, name.all (·.toNat < 128) = true →
    idnaEncode name = some encoded → encoded = name
  /-- `tldextract.extract(name).top_domain_under_public_suffix`, empty if there is none. -/
  topDomain : Text → Text
  topDomain_in : ∀ name, topDomain name ≠ [] → InDomain (topDomain name) name
  /-- `urlsplit` refuses an authority for its brackets or its compatibility characters. -/
  refusesNetloc : Text → Bool

variable (libs : Libraries)

def strip (text : Text) : Text := trimEnds isSpace isSpace text

def rstripDots (text : Text) : Text := text.rdropWhile (· = '.')

/-! ## §2 The table is filled -/

/-- `_DOMAIN_LINE_RE`: the dollar sign also matches in front of a line feed at the end. -/
def domainLine (text : Text) : Bool :=
  let body := if text.getLast? = some '\n' then text.dropLast else text
  decide (1 ≤ body.length ∧ body.length ≤ 253) &&
    body.all fun c => c.isAlphanum || c = '.' || c = '-'

def normalizeDomain (line : Text) : Option Text :=
  let domain := rstripDots (libs.lower (strip line))
  if domain = [] ∨ domain.head? = some '#' then none
  else
    let encoded := if domainLine domain then some domain
      else (libs.idnaEncode domain).filter domainLine
    encoded.filter fun encoded =>
      let labels := encoded.splitOn '.'
      let last := labels.getLastD []
      !(labels.length < 2 || (last ≠ [] && last.all Char.isDigit))

def insertOrIgnore (table rows : List Text) : List Text :=
  rows.foldl (fun table row => if row ∈ table then table else table ++ [row]) table

/-- The loop over the lines of one list, with the rows that wait for their insertion. -/
structure Ingest where
  table : List Text
  batch : List Text := []
  dropped : ℕ := 0

def insertBatchSize : ℕ := 10000

def Ingest.line (state : Ingest) (line : Text) : Ingest :=
  match normalizeDomain libs line with
  | none =>
    let stripped := strip line
    if stripped ≠ [] ∧ stripped.head? ≠ some '#' then
      { state with dropped := state.dropped + 1 }
    else state
  | some normalized =>
    let batch := state.batch ++ [normalized]
    if insertBatchSize ≤ batch.length then
      { state with table := insertOrIgnore state.table batch, batch := [] }
    else { state with batch }

def ingestLines (table lines : List Text) : List Text :=
  let state := lines.foldl (Ingest.line libs) { table }
  insertOrIgnore state.table state.batch

inductive Attempt where
  | noResponse
  /-- The stream breaks off. Without a journal it is open what a rollback leaves behind: the rows
  of some of the lines. -/
  | broken (left : List Text)
  | complete (lines : List Text)

/-- `_ingest_one_list`: the requests for the URLs of one list, in their order. -/
def ingestOneList (table : List Text) : List Attempt → Option (List Text)
  | [] => none
  | .noResponse :: attempts => ingestOneList table attempts
  | .broken left :: attempts => ingestOneList (ingestLines libs table left) attempts
  | .complete lines :: _ => some (ingestLines libs table lines)

def buildDatabase (lists : List (List Attempt)) : Option (List Text) :=
  lists.foldlM (ingestOneList libs) []

def ingestedLines : List Attempt → List Text
  | [] => []
  | .noResponse :: attempts => ingestedLines attempts
  | .broken left :: attempts => left ++ ingestedLines attempts
  | .complete lines :: _ => lines

/-! ## §3 A name is looked up -/

/-- `urlsplit`: the scheme and the authority, if it does not raise. -/
def urlsplit (url : Text) : Option (Text × Text) :=
  let url := (url.dropWhile (·.toNat ≤ 32)).filter (· ∉ ['\t', '\r', '\n'])
  let front := url.takeWhile (· ≠ ':')
  let hasScheme := front.length < url.length && (front.head?.any Char.isAlpha) &&
    front.all fun c => c.isAlphanum || c ∈ ['+', '-', '.']
  let scheme := if hasScheme then front.map Char.toLower else []
  let rest := if hasScheme then url.drop (front.length + 1) else url
  if rest.take 2 = ['/', '/'] then
    let netloc := (rest.drop 2).takeWhile (· ∉ ['/', '?', '#'])
    if ('[' ∈ netloc ↔ ']' ∈ netloc) ∧ libs.refusesNetloc netloc = false then
      some (scheme, netloc)
    else none
  else some (scheme, [])

/-- `SplitResult.hostname`, empty for `None`. -/
def hostname (netloc : Text) : Text :=
  let hostinfo := netloc.rtakeWhile (· ≠ '@')
  let host := if '[' ∈ hostinfo then
      ((hostinfo.dropWhile (· ≠ '[')).drop 1).takeWhile (· ≠ ']')
    else hostinfo.takeWhile (· ≠ ':')
  libs.lower (host.takeWhile (· ≠ '%')) ++ host.dropWhile (· ≠ '%')

def extractLookupTarget (value : Text) : Text :=
  let stripped := strip value
  match urlsplit libs stripped with
  | none => stripped
  | some (scheme, netloc) =>
    if (scheme = "http".toList ∨ scheme = "https".toList) ∧ hostname libs netloc ≠ [] then
      hostname libs netloc
    else stripped

/-- The host that a value stands for, in lower case and without dots at its end. -/
def lookupHost (value : Text) : Text :=
  rstripDots (libs.lower (strip (extractLookupTarget libs value)))

def normalize (value : Text) : Text :=
  if extractLookupTarget libs value = [] ∨ lookupHost libs value = [] then []
  else (libs.idnaEncode (lookupHost libs value)).getD []

/-- The loop of `_candidate_domains`. -/
def walkParents (registrable : Text) : ℕ → Text → List Text
  | 0, current => [current]
  | fuel + 1, current =>
    current ::
      if current = registrable then []
      else
        match (current.dropWhile (· ≠ '.')).tail with
        | [] => []
        | parent => walkParents registrable fuel parent

def candidateDomains (normalized : Text) : List Text :=
  let registrable := libs.topDomain normalized
  if registrable = [] then [normalized]
  else walkParents registrable normalized.length normalized

/-- `is_newly_registered`, with the rows of the database unless there is none. -/
def isNewlyRegistered (conn : Option (List Text)) (value : Text) : Bool :=
  let normalized := normalize libs value
  match conn with
  | none => false
  | some table =>
    decide (normalized ≠ []) && (candidateDomains libs normalized).any (· ∈ table)

/-! ## §4 What the table holds -/

variable {libs}

theorem mem_insertOrIgnore {table rows : List Text} {row : Text} :
    row ∈ insertOrIgnore table rows ↔ row ∈ table ∨ row ∈ rows := by
  induction rows generalizing table with
  | nil => simp [insertOrIgnore]
  | cons first rows ih =>
    show row ∈ insertOrIgnore (if first ∈ table then table else table ++ [first]) rows ↔ _
    rw [ih]
    split <;> grind

theorem mem_ingestLines {table lines : List Text} {domain : Text} :
    domain ∈ ingestLines libs table lines ↔
      domain ∈ table ∨ ∃ line ∈ lines, normalizeDomain libs line = some domain := by
  -- what waits counts as if it were in the table already
  have hloop : ∀ state : Ingest, domain ∈ insertOrIgnore
      (lines.foldl (Ingest.line libs) state).table (lines.foldl (Ingest.line libs) state).batch ↔
      (domain ∈ state.table ∨ domain ∈ state.batch) ∨
        ∃ line ∈ lines, normalizeDomain libs line = some domain := by
    induction lines with
    | nil => simp [mem_insertOrIgnore]
    | cons line lines ih =>
      intro state
      rw [foldl_cons, ih]
      have hstep : (domain ∈ (state.line libs line).table ∨
          domain ∈ (state.line libs line).batch) ↔ (domain ∈ state.table ∨ domain ∈ state.batch) ∨
            normalizeDomain libs line = some domain := by
        unfold Ingest.line
        cases hline : normalizeDomain libs line with
        | none =>
          simp only [reduceCtorEq, or_false]
          split <;> rfl
        | some normalized =>
          dsimp only
          split <;> simp [mem_insertOrIgnore, or_assoc, eq_comm]
      rw [hstep]
      simp [or_assoc]
  simpa [ingestLines] using hloop { table }

theorem mem_ingestOneList {attempts : List Attempt} {table table' : List Text} {domain : Text}
    (h : ingestOneList libs table attempts = some table') :
    domain ∈ table' ↔ domain ∈ table ∨
      ∃ line ∈ ingestedLines attempts, normalizeDomain libs line = some domain := by
  induction attempts generalizing table with
  | nil => cases h
  | cons attempt attempts ih =>
    cases attempt with
    | noResponse => exact ih h
    | broken left =>
      rw [ih h, mem_ingestLines, ingestedLines]
      simp only [mem_append, or_and_right, exists_or, or_assoc]
    | complete lines =>
      cases h
      exact mem_ingestLines

theorem mem_buildDatabase {lists : List (List Attempt)} {table : List Text} {domain : Text}
    (h : buildDatabase libs lists = some table) :
    domain ∈ table ↔
      ∃ line ∈ lists.flatMap ingestedLines, normalizeDomain libs line = some domain := by
  have hloop : ∀ start, lists.foldlM (ingestOneList libs) start = some table →
      (domain ∈ table ↔ domain ∈ start ∨
        ∃ line ∈ lists.flatMap ingestedLines, normalizeDomain libs line = some domain) := by
    clear h
    induction lists with
    | nil => simp
    | cons attempts lists ih =>
      intro start h
      obtain ⟨table', hone, hrest⟩ := Option.bind_eq_some_iff.mp h
      rw [ih table' hrest, mem_ingestOneList hone, flatMap_cons]
      simp only [mem_append, or_and_right, exists_or, or_assoc]
  simpa using hloop [] h

/-! ## §5 What is looked up -/

theorem suffix_parent_iff {label parent domain : Text} (h : ∀ c ∈ label, c ≠ '.') :
    '.' :: domain <:+ label ++ '.' :: parent ↔ InDomain domain parent := by
  induction label with
  | nil =>
    rw [nil_append, suffix_cons_iff, List.cons.injEq, InDomain]
    simp [eq_comm]
  | cons c label ih =>
    have hc : '.' ≠ c := (h c mem_cons_self).symm
    rw [cons_append, suffix_cons_iff, List.cons.injEq,
      ih fun c hc => h c (mem_cons_of_mem _ hc)]
    simp [hc]

variable {domain name : Text}

theorem InDomain.length_le (h : InDomain domain name) :
    domain.length ≤ name.length := by
  rcases h with rfl | h
  · exact le_rfl
  · have := h.length_le
    rw [length_cons] at this
    omega

theorem InDomain.antisymm (h : InDomain domain name) (h' : InDomain name domain) :
    domain = name := by
  rcases h with rfl | h
  · rfl
  · have hlt := h.length_le
    have hle := h'.length_le
    rw [length_cons] at hlt
    omega

theorem mem_walkParents {registrable current domain : Text} {fuel : ℕ}
    (hfuel : current.length ≤ fuel) (hne : registrable ≠ [])
    (h : InDomain registrable current) :
    domain ∈ walkParents registrable fuel current ↔
      InDomain domain current ∧ InDomain registrable domain := by
  have hself : InDomain domain registrable ∧ InDomain registrable domain ↔
      domain = registrable :=
    ⟨fun ⟨h, h'⟩ => h.antisymm h', fun h => h ▸ ⟨.inl rfl, .inl rfl⟩⟩
  induction fuel generalizing current with
  | zero =>
    have hnil : current = [] := length_eq_zero_iff.mp (Nat.le_zero.mp hfuel)
    subst hnil
    have := h.length_le
    exact absurd (length_eq_zero_iff.mp (Nat.le_zero.mp this)) hne
  | succ fuel ih =>
    rw [walkParents, mem_cons]
    by_cases hstop : current = registrable
    · subst hstop
      simp [hself]
    rw [if_neg hstop]
    -- the registrable domain lies behind the first dot
    have hsuffix : '.' :: registrable <:+ current := h.resolve_left hstop
    have hdot : '.' ∈ current := hsuffix.subset mem_cons_self
    obtain ⟨label, parent, hcurrent, hnot⟩ := eq_append_cons_of_mem hdot
    have hlabel : ∀ c ∈ label, c ≠ '.' := fun c hc heq => hnot (heq ▸ hc)
    subst hcurrent
    have hparent : ((label ++ '.' :: parent).dropWhile (· ≠ '.')).tail = parent := by
      rw [dropWhile_append_of_pos (by simpa using hlabel)]
      simp
    have hreg : InDomain registrable parent := (suffix_parent_iff hlabel).mp hsuffix
    have hsome : parent ≠ [] := by
      rintro rfl
      have := hreg.length_le
      exact hne (length_eq_zero_iff.mp (Nat.le_zero.mp this))
    rw [hparent]
    have hmem : (domain ∈ match parent with
        | [] => []
        | parent => walkParents registrable fuel parent) ↔
        domain ∈ walkParents registrable fuel parent := by
      cases parent with
      | nil => exact absurd rfl hsome
      | cons c parent => rfl
    have hshort : parent.length ≤ fuel := by
      simp only [length_append, length_cons] at hfuel
      omega
    rw [hmem]
    constructor
    · rintro (rfl | hwalk)
      · exact ⟨.inl rfl, h⟩
      · obtain ⟨hin, hregin⟩ := (ih hshort hreg).mp hwalk
        exact ⟨.inr ((suffix_parent_iff hlabel).mpr hin), hregin⟩
    · rintro ⟨hname | hin, hregin⟩
      · exact .inl hname.symm
      · exact .inr ((ih hshort hreg).mpr ⟨(suffix_parent_iff hlabel).mp hin, hregin⟩)

variable (libs) in
/-- The domain is the name, or a parent of it at or below its registrable domain. -/
def Covers (domain name : Text) : Prop :=
  name = domain ∨ (libs.topDomain name ≠ [] ∧ InDomain domain name ∧
    InDomain (libs.topDomain name) domain)

theorem mem_candidateDomains :
    domain ∈ candidateDomains libs name ↔ Covers libs domain name := by
  unfold candidateDomains Covers
  by_cases htop : libs.topDomain name = []
  · simp [htop, eq_comm]
  · rw [if_neg htop, mem_walkParents le_rfl htop (libs.topDomain_in name htop)]
    constructor
    · exact fun h => .inr ⟨htop, h⟩
    · rintro (rfl | ⟨-, h⟩)
      · exact ⟨.inl rfl, libs.topDomain_in _ htop⟩
      · exact h

theorem ne_nil_of_normalizeDomain {line domain : Text}
    (h : normalizeDomain libs line = some domain) : domain ≠ [] := by
  rintro rfl
  unfold normalizeDomain at h
  dsimp only at h
  split at h
  · cases h
  · simp [Option.filter_eq_some_iff] at h

theorem isNewlyRegistered_iff {lists : List (List Attempt)} {table : List Text} {value : Text}
    (h : buildDatabase libs lists = some table) :
    isNewlyRegistered libs (some table) value = true ↔
      ∃ line ∈ lists.flatMap ingestedLines, ∃ domain, normalizeDomain libs line = some domain ∧
        normalize libs value ≠ [] ∧ Covers libs domain (normalize libs value) := by
  unfold isNewlyRegistered
  simp only [Bool.and_eq_true, decide_eq_true_eq, any_eq_true, mem_candidateDomains,
    mem_buildDatabase h]
  constructor
  · rintro ⟨hne, domain, hcovers, line, hline, hdomain⟩
    exact ⟨line, hline, domain, hdomain, hne, hcovers⟩
  · rintro ⟨line, hline, domain, hdomain, hne, hcovers⟩
    exact ⟨hne, domain, hcovers, line, hline, hdomain⟩

/-! ## §6 Spellings -/

variable (libs) in
/-- The host that a value stands for is the domain or a name below it, as it is written or in
the encoding of its Unicode letters. -/
def HostIn (domain value : Text) : Prop :=
  ∃ name, Covers libs domain name ∧
    (name = lookupHost libs value ∧ name.all (·.toNat < 128) = true ∨
      libs.idnaEncode (lookupHost libs value) = some name)

theorem extractLookupTarget_url {scheme user host port path : Text}
    (halpha : ∀ c ∈ scheme, c.isAlpha = true)
    (hscheme : scheme.map Char.toLower ∈ ["http".toList, "https".toList])
    (huser : user = [] ∨ user.getLast? = some '@') (hhost : ∀ c ∈ host, c ∉ ['@', ':', '%'])
    (hne : libs.lower host ≠ []) (hport : port = [] ∨ port.head? = some ':')
    (hat : '@' ∉ port) (hpath : path = [] ∨ ∃ c ∈ path.head?, c ∈ ['/', '?', '#'])
    (hnetloc : ∀ c ∈ user ++ host ++ port, c ∉ ['/', '?', '#', '[', ']'])
    (hallowed : libs.refusesNetloc (user ++ host ++ port) = false) (value : Text)
    (hvalue : strip value = scheme ++ ':' :: '/' :: '/' :: (user ++ host ++ port ++ path))
    (htabs : ∀ c ∈ strip value, c ∉ ['\t', '\r', '\n']) :
    extractLookupTarget libs value = libs.lower host := by
  have hfront : ∀ c ∈ scheme, c ≠ ':' := by
    rintro c hc rfl
    exact absurd (halpha _ hc) (by decide)
  obtain ⟨first, rest, rfl⟩ : ∃ first rest, scheme = first :: rest := by
    cases scheme with
    | nil => simp at hscheme
    | cons first rest => exact ⟨first, rest, rfl⟩
  have htake : ∀ {p : Char → Bool} {before after : Text}, (∀ c ∈ before, p c = true) →
      (∀ c ∈ after.head?, p c = false) → (before ++ after).takeWhile p = before := by
    intro p before after hbefore hafter
    rw [takeWhile_append_of_pos hbefore]
    cases after with
    | nil => simp
    | cons c after => simp [hafter c rfl]
  have hsplit : urlsplit libs (strip value) =
      some ((first :: rest).map Char.toLower, user ++ host ++ port) := by
    have hfirst : decide (first.toNat ≤ 32) = false := by
      have halpha := halpha first mem_cons_self
      simp only [Char.isAlpha, Char.isUpper, Char.isLower, Bool.or_eq_true, Bool.and_eq_true,
        decide_eq_true_eq, ge_iff_le, UInt32.le_iff_toNat_le] at halpha
      simp only [decide_eq_false_iff_not, not_le, Char.toNat]
      rcases halpha with ⟨hlow, -⟩ | ⟨hlow, -⟩
      · exact lt_of_lt_of_le (by decide) hlow
      · exact lt_of_lt_of_le (by decide) hlow
    have hfilter : (strip value).filter (· ∉ ['\t', '\r', '\n']) = strip value :=
      filter_eq_self.mpr fun c hc => decide_eq_true (htabs c hc)
    have hdrop : (strip value).dropWhile (·.toNat ≤ 32) = strip value := by
      rw [hvalue, cons_append, dropWhile_cons_of_neg (by simp [hfirst])]
    have hscheme' : (strip value).takeWhile (· ≠ ':') = first :: rest := by
      rw [hvalue]
      exact htake (by simpa using hfront) (by simp)
    have hletters : ∀ c ∈ first :: rest, c.isAlphanum || c ∈ ['+', '-', '.'] := fun c hc => by
      simp [Char.isAlphanum, halpha c hc]
    simp only [urlsplit, hdrop, hfilter, hscheme']
    have hlong : (first :: rest).length < (strip value).length := by
      rw [hvalue]
      simp
    have hhas : (decide ((first :: rest).length < (strip value).length) &&
        (first :: rest).head?.any Char.isAlpha &&
        (first :: rest).all fun c => c.isAlphanum || c ∈ ['+', '-', '.']) = true := by
      rw [decide_eq_true hlong, all_eq_true.mpr hletters]
      simp [halpha first mem_cons_self]
    have hrest : (strip value).drop ((first :: rest).length + 1) =
        '/' :: '/' :: (user ++ host ++ port ++ path) := by
      rw [hvalue, drop_append]
      simp
    have hnetloc' : ((user ++ host ++ port) ++ path).takeWhile (· ∉ ['/', '?', '#']) =
        user ++ host ++ port := by
      refine htake (fun c hc => ?_) fun c hc => ?_
      · have := hnetloc c hc
        simp only [mem_cons, not_or] at this
        simp [this]
      · rcases hpath with rfl | ⟨d, hd, hmem⟩
        · cases hc
        · obtain rfl : c = d := Option.some.inj (hc.symm.trans hd)
          exact decide_eq_false (not_not.mpr hmem)
    have hbrackets : '[' ∈ user ++ host ++ port ↔ ']' ∈ user ++ host ++ port :=
      ⟨fun hmem => absurd (by simp) (hnetloc _ hmem), fun hmem => absurd (by simp) (hnetloc _ hmem)⟩
    simp only [if_pos hhas, hrest, take_succ_cons, take_zero, drop_succ_cons,
      drop_zero, hnetloc', if_true]
    exact if_pos ⟨hbrackets, hallowed⟩
  have hname : hostname libs (user ++ host ++ port) = libs.lower host := by
    have hinfo : (user ++ host ++ port).rtakeWhile (· ≠ '@') = host ++ port := by
      rw [List.rtakeWhile, append_assoc, reverse_append]
      rw [htake, reverse_reverse]
      · intro c hc
        rcases mem_append.mp (mem_reverse.mp hc) with hc | hc
        · have := hhost c hc
          simp only [mem_cons, not_or] at this
          simp [this]
        · exact decide_eq_true fun heq => hat (heq ▸ hc)
      · intro c hc
        rw [List.head?_reverse] at hc
        rcases huser with rfl | huser
        · cases hc
        · rw [huser] at hc
          cases hc
          rfl
    have hbracket : '[' ∉ host ++ port := fun hmem =>
      absurd (by simp) (hnetloc '[' (by rw [append_assoc]; exact mem_append_right _ hmem))
    have hcolon : (host ++ port).takeWhile (· ≠ ':') = host := by
      refine htake (fun c hc => ?_) fun c hc => ?_
      · have := hhost c hc
        simp only [mem_cons, not_or] at this
        simp [this]
      · rcases hport with rfl | hport
        · cases hc
        · rw [hport] at hc
          cases hc
          rfl
    have hpercent : ∀ c ∈ host, decide (c ≠ '%') = true := fun c hc => by
      have := hhost c hc
      simp only [mem_cons, not_or] at this
      simp [this]
    simp only [hostname, hinfo, if_neg hbracket, hcolon]
    rw [takeWhile_eq_self_iff.mpr hpercent, dropWhile_eq_nil_iff.mpr hpercent,
      append_nil]
  have hhttp : (first :: rest).map Char.toLower = "http".toList ∨
      (first :: rest).map Char.toLower = "https".toList := by
    simpa using hscheme
  simp only [extractLookupTarget, hsplit, hname]
  exact if_pos ⟨hhttp, hne⟩

/-! ## §7 A listed domain is found -/

/-- A value is found exactly if its host lies in the domain of a line that was ingested, unless
such a host in ASCII is none that the encoding accepts. -/
theorem listed_iff {lists : List (List Attempt)} {table : List Text}
    (h : buildDatabase libs lists = some table) (value : Text) :
    ((∀ line ∈ lists.flatMap ingestedLines, ∀ domain,
        normalizeDomain libs line = some domain → HostIn libs domain value →
          isNewlyRegistered libs (some table) value = true) ∧
      (isNewlyRegistered libs (some table) value = true →
        ∃ line ∈ lists.flatMap ingestedLines, ∃ domain,
          normalizeDomain libs line = some domain ∧ HostIn libs domain value)) ↔
      ((∃ line ∈ lists.flatMap ingestedLines, ∃ domain,
        normalizeDomain libs line = some domain ∧ Covers libs domain (lookupHost libs value) ∧
          (lookupHost libs value).all (·.toNat < 128) = true) →
        (libs.idnaEncode (lookupHost libs value)).isSome = true) := by
  have hnormalize : normalize libs value ≠ [] →
      libs.idnaEncode (lookupHost libs value) = some (normalize libs value) := by
    unfold normalize
    split
    · exact fun hne => absurd rfl hne
    · cases libs.idnaEncode (lookupHost libs value) with
      | none => exact fun hne => absurd rfl hne
      | some encoded => exact fun _ => rfl
  rw [isNewlyRegistered_iff h]
  constructor
  · rintro ⟨hfound, -⟩ ⟨line, hline, domain, hdomain, hcovers, hascii⟩
    obtain ⟨-, -, -, -, hne, -⟩ :=
      hfound line hline domain hdomain ⟨_, hcovers, .inl ⟨rfl, hascii⟩⟩
    rw [hnormalize hne]
    rfl
  · intro haccepts
    refine ⟨?_, ?_⟩
    · rintro line hline domain hdomain ⟨name, hcovers, hname⟩
      refine ⟨line, hline, domain, hdomain, ?_⟩
      -- the encoding gives the name in both cases
      have hencoded : libs.idnaEncode (lookupHost libs value) = some name := by
        rcases hname with ⟨rfl, hascii⟩ | hencoded
        · obtain ⟨encoded, hencoded⟩ := Option.isSome_iff_exists.mp
            (haccepts ⟨line, hline, domain, hdomain, hcovers, hascii⟩)
          rw [hencoded, libs.idnaEncode_ascii _ _ hascii hencoded]
        · exact hencoded
      have hne : name ≠ [] := by
        rintro rfl
        have hnil : domain = [] := by
          rcases hcovers with hnil | ⟨-, hin, -⟩
          · exact hnil.symm
          · exact length_eq_zero_iff.mp (Nat.le_zero.mp hin.length_le)
        exact ne_nil_of_normalizeDomain hdomain hnil
      have hsome : normalize libs value = name := by
        unfold normalize
        have hhost : lookupHost libs value ≠ [] := fun hnil =>
          hne (by rw [hnil] at hencoded; exact libs.idnaEncode_ascii [] name rfl hencoded)
        have htarget : extractLookupTarget libs value ≠ [] := by
          intro hnil
          apply hhost
          rw [lookupHost, hnil, strip, trimEnds_nil, libs.lower_nil]
          rfl
        rw [if_neg (by simp [hhost, htarget]), hencoded]
        rfl
      rw [hsome]
      exact ⟨hne, hcovers⟩
    · rintro ⟨line, hline, domain, hdomain, hne, hcovers⟩
      exact ⟨line, hline, domain, hdomain, _, hcovers, .inr (hnormalize hne)⟩

/-- Libraries for ASCII and one registrable domain. The encoding refuses an emoji also in a label
that is encoded already. -/
def asciiLibraries : Libraries where
  lower := List.map Char.toLower
  lower_nil := rfl
  idnaEncode name := if domainLine name ∧ ¬ "xn--qj8hl9g".toList <:+: name then some name else none
  idnaEncode_ascii name encoded _ h := by
    split at h
    · exact (Option.some.inj h).symm
    · cases h
  topDomain name := if InDomain "example.com".toList name then "example.com".toList else []
  topDomain_in name h := by
    split at h
    · rename_i hin
      rwa [if_pos hin]
    · exact absurd rfl h
  refusesNetloc _ := false

theorem url_target :
    extractLookupTarget asciiLibraries " HTTP://u@Host:80/".toList = "host".toList := by
  have hstrip : strip " HTTP://u@Host:80/".toList = "HTTP://u@Host:80/".toList := by decide
  exact @extractLookupTarget_url asciiLibraries "HTTP".toList "u@".toList "Host".toList
    ":80".toList "/".toList (all_eq_true.mp rfl) (by decide) (.inr rfl) (by simp) (by decide)
    (.inr rfl) (by simp) (.inr ⟨'/', rfl, by simp⟩) (by simp) rfl _ hstrip (by rw [hstrip]; simp)

theorem listed_parent : isNewlyRegistered asciiLibraries (some ["example.com".toList])
    "https://user@Www.Example.com.:8080/path".toList = true :=
  ((listed_iff (show buildDatabase asciiLibraries
      [[.noResponse, .complete ["# new".toList, "Example.COM.".toList]]] =
        some ["example.com".toList] by decide) _).mpr fun _ => by decide).1
    "Example.COM.".toList (by decide) "example.com".toList (by decide)
    ⟨"www.example.com".toList, .inr (by decide), .inr (by decide)⟩

/-- The fast path of the writer accepts the label of an emoji, the reader does not. -/
theorem emoji_label_missed : buildDatabase asciiLibraries
      [[.complete ["xn--qj8hl9g.st".toList]]] = some ["xn--qj8hl9g.st".toList] ∧
    ¬ ∀ line ∈ ["xn--qj8hl9g.st".toList], ∀ domain,
      normalizeDomain asciiLibraries line = some domain →
        HostIn asciiLibraries domain "xn--qj8hl9g.st".toList →
          isNewlyRegistered asciiLibraries (some ["xn--qj8hl9g.st".toList])
            "xn--qj8hl9g.st".toList = true := by
  refine ⟨by decide, fun h => ?_⟩
  have hfound := h _ mem_cons_self "xn--qj8hl9g.st".toList (by decide)
    ⟨"xn--qj8hl9g.st".toList, .inl rfl, .inl (by decide)⟩
  revert hfound
  decide

end Ace3.Nrd
