import Ace3.Query.EventFlattening

/-!
# The Order of the Keys of an Event

A dictionary that is the value of a key is stored as a whole, and dotted keys are merged into what
is there: it takes in the keys that go on from its path when they come later, and replaces them when
they come earlier. The flattening depends on the order of the keys, or loses a value, exactly when a
dictionary and such a key, or two keys for one path, do not agree.
-/

namespace Ace3.Query

open List
open Lib Lib.Nested

/-! ## §1 Agreement -/

def Above (path longer : List Key) : Prop := path ≠ [] ∧ ∃ rest, rest ≠ [] ∧ longer = path ++ rest

/-- At the path lies the value, with all its content. -/
def Says (v : Val) (path : List Key) (w : Val) : Prop := ∀ spot, v.shape (path ++ spot) = w.shape spot

/-- Another key denotes the same path, or one of the two has a value that is no dictionary and the
other one goes on from its path. -/
def Exempt (items : Items) (entry : Key × Val) : Prop :=
  ∃ other ∈ items, other ≠ entry ∧
    (pathOf other.1 = pathOf entry.1 ∨
      (other.2.isDict = false ∧ Above (pathOf other.1) (pathOf entry.1)) ∨
      (entry.2.isDict = false ∧ Above (pathOf entry.1) (pathOf other.1)))

/-- The result does not depend on the order of the keys. -/
def OrderIndependent (event : Event) : Prop :=
  ∀ items : Items, items.Perm event.items →
    (dict (expandDottedKeys items)).shape = (dict (expandDottedKeys event.items)).shape

def ReadsBack (event : Event) : Prop :=
  ∀ entry ∈ event.items, pathOf entry.1 ≠ [] → ¬ Exempt event.items entry →
    Says (dict (expandDottedKeys event.items)) (pathOf entry.1) entry.2

structure Agree (items : Items) : Prop where
  /-- A dictionary says what a key says that goes on from its path; or it has a dictionary there,
  which is preserved. -/
  below : ∀ entry ∈ items, ∀ other ∈ items, entry.2.isDict = true → pathOf entry.1 ≠ [] →
    ∀ rest, rest ≠ [] → pathOf other.1 = pathOf entry.1 ++ rest →
      Says entry.2 rest other.2 ∨
        (entry.2.shape rest = some .branch ∧ other.2.isDict = false ∧ Exempt items other)
  /-- Two dictionaries for one path are equal. -/
  dicts : ∀ entry ∈ items, ∀ other ∈ items, entry.2.isDict = true → other.2.isDict = true →
    pathOf entry.1 ≠ [] → pathOf other.1 = pathOf entry.1 → entry.2.shape = other.2.shape
  /-- Two other values for one path are equal, unless the path leads to a dictionary anyway. -/
  plain : ∀ entry ∈ items, ∀ other ∈ items, entry.2.isDict = false → other.2.isDict = false →
    pathOf entry.1 ≠ [] → pathOf other.1 = pathOf entry.1 →
      entry.2 = other.2 ∨ ∃ cover ∈ items, Gives cover (pathOf entry.1) .branch

variable {items l l' : Items} {entry other : Key × Val} {spot rest : List Key}

theorem shape_plain (h : entry.2.isDict = false) (rest : List Key) :
    entry.2.shape rest = if rest = [] then some (.plain entry.2) else none := by
  split
  · subst_vars
    rw [shape_nil, top_of_not_isDict h]
  · exact shape_of_not_isDict ‹_› h

theorem shape_nil_of_isDict (h : entry.2.isDict = true) : entry.2.shape [] = some .branch := by
  rw [shape_nil, top_eq_branch_iff.mpr h]

theorem Agree.shape_ne_none (h : Agree items) (he : entry ∈ items) (ho : other ∈ items)
    (hdict : entry.2.isDict = true) (hpath : pathOf entry.1 ≠ []) (hrest : rest ≠ [])
    (heq : pathOf other.1 = pathOf entry.1 ++ rest) : entry.2.shape rest ≠ none := by
  obtain hsame | ⟨hbranch, -, -⟩ := h.below entry he other ho hdict hpath rest hrest heq
  · have htop := hsame []
    rw [append_nil, shape_nil] at htop
    rw [htop]
    exact Option.some_ne_none _
  · rw [hbranch]
    exact Option.some_ne_none _

/-! ## §2 The layout -/

structure Layout (l : Items) (found : List Key → Option (Shape Val)) : Prop where
  /-- Below a dictionary lies its content. -/
  dict : ∀ entry ∈ l, entry.2.isDict = true → pathOf entry.1 ≠ [] →
    ∀ rest, found (pathOf entry.1 ++ rest) = entry.2.shape rest
  /-- Above a key lie dictionaries. -/
  above : ∀ entry ∈ l, pathOf entry.1 ≠ [] → ∀ spot rest, rest ≠ [] →
    pathOf entry.1 = spot ++ rest → found spot = some .branch
  /-- Another value lies at its path, unless a dictionary does, or the value of another key for
  the path. -/
  plain : ∀ entry ∈ l, entry.2.isDict = false → pathOf entry.1 ≠ [] →
    found (pathOf entry.1) = some .branch ∨ ∃ other ∈ l, other.2.isDict = false ∧
      pathOf other.1 = pathOf entry.1 ∧ found (pathOf entry.1) = some (.plain other.2)

variable {found : List Key → Option (Shape Val)}

theorem mem_concat {e : Key × Val} : e ∈ l ++ [entry] ↔ e ∈ l ∨ e = entry := by
  rw [mem_append, mem_singleton]

theorem Layout.skip (h : Layout l found) (hpath : pathOf entry.1 = []) :
    Layout (l ++ [entry]) found where
  dict e he hdict hne rest := by
    obtain he | rfl := mem_concat.mp he
    · exact h.dict e he hdict hne rest
    · exact absurd hpath hne
  above e he hne spot rest hrest heq := by
    obtain he | rfl := mem_concat.mp he
    · exact h.above e he hne spot rest hrest heq
    · exact absurd hpath hne
  plain e he hdict hne := by
    obtain he | rfl := mem_concat.mp he
    · refine (h.plain e he hdict hne).imp_right ?_
      exact fun ⟨o, ho, hrest⟩ => ⟨o, mem_append_left _ ho, hrest⟩
    · exact absurd hpath hne

theorem Layout.preserve (h : Layout l found) (hplain : entry.2.isDict = false)
    (hbranch : found (pathOf entry.1) = some .branch)
    (hfound : ∀ path rest, rest ≠ [] → found (path ++ rest) ≠ none → found path = some .branch) :
    Layout (l ++ [entry]) found where
  dict e he hdict hne rest := by
    obtain he | rfl := mem_concat.mp he
    · exact h.dict e he hdict hne rest
    · rw [hplain] at hdict
      cases hdict
  above e he hne spot rest hrest heq := by
    obtain he | rfl := mem_concat.mp he
    · exact h.above e he hne spot rest hrest heq
    · apply hfound spot rest hrest
      rw [← heq, hbranch]
      exact Option.some_ne_none _
  plain e he hdict hne := by
    obtain he | rfl := mem_concat.mp he
    · refine (h.plain e he hdict hne).imp_right ?_
      exact fun ⟨o, ho, hrest⟩ => ⟨o, mem_append_left _ ho, hrest⟩
    · exact .inl hbranch

section Overlay

variable (hagree : Agree items) (hl : ∀ e ∈ l, e ∈ items) (hentry : entry ∈ items)
  (hpath : pathOf entry.1 ≠ []) (h : Layout l found)
  (hkept : ¬ (found (pathOf entry.1) = some .branch ∧ entry.2.isDict = false))

include hagree hl hentry hpath h hkept

omit hpath in
theorem Layout.shape_eq {e : Key × Val} (he : e ∈ l) (hdict : e.2.isDict = true)
    (hne : pathOf e.1 ≠ []) (hsame : pathOf entry.1 = pathOf e.1) :
    e.2.shape = entry.2.shape := by
  cases hplain : entry.2.isDict with
  | true => exact hagree.dicts e (hl e he) entry hentry hdict hplain hne hsame
  | false =>
    refine absurd ⟨?_, hplain⟩ hkept
    rw [hsame, ← append_nil (pathOf e.1), h.dict e he hdict hne, shape_nil_of_isDict hdict]

/-- The content of a dictionary that is there is not changed by a key that agrees with it. -/
theorem Layout.overlay_dict {e : Key × Val} (he : e ∈ l) (hdict : e.2.isDict = true)
    (hne : pathOf e.1 ≠ []) (rest : List Key) :
    overlay (pathOf entry.1) entry.2.shape found (pathOf e.1 ++ rest) = e.2.shape rest := by
  obtain ⟨rest', heq, hoverlay⟩ | ⟨rest', hne', heq, hoverlay⟩ | hoverlay :=
    overlay_cases entry.2.shape found (pathOf entry.1) (pathOf e.1 ++ rest)
  · rw [hoverlay]
    -- both paths lead to the place, so one of them goes on from the other
    obtain ⟨mid, hmid, rfl⟩ | ⟨mid, hmid, rfl⟩ := append_eq_append_iff.mp heq
    · by_cases hempty : mid = []
      · subst hempty
        rw [append_nil] at hmid
        rw [h.shape_eq hagree hl hentry hkept he hdict hne hmid, nil_append]
      · obtain hsame | ⟨hbranch, hplain, -⟩ :=
          hagree.below e (hl e he) entry hentry hdict hne mid hempty hmid
        · exact (hsame rest').symm
        · refine absurd ⟨?_, hplain⟩ hkept
          rw [hmid, h.dict e he hdict hne, hbranch]
    · by_cases hempty : mid = []
      · subst hempty
        rw [append_nil] at hmid
        rw [h.shape_eq hagree hl hentry hkept he hdict hne hmid.symm, nil_append]
      · cases hplain : entry.2.isDict with
        | true =>
          obtain hsame | ⟨-, hfalse, -⟩ :=
            hagree.below entry hentry e (hl e he) hplain hpath mid hempty hmid
          · exact hsame rest
          · rw [hdict] at hfalse
            cases hfalse
        | false => exact absurd ⟨h.above e he hne _ mid hempty hmid, hplain⟩ hkept
  · rw [hoverlay, shape_eq_branch hne']
    rw [append_assoc] at heq
    exact hagree.shape_ne_none (hl e he) hentry hdict hne
      (append_ne_nil_of_right_ne_nil rest hne') heq
  · rw [hoverlay, h.dict e he hdict hne]

theorem Layout.overlay_above {e : Key × Val} (he : e ∈ l) (hne : pathOf e.1 ≠ [])
    {spot rest : List Key} (hrest : rest ≠ []) (heq : pathOf e.1 = spot ++ rest) :
    overlay (pathOf entry.1) entry.2.shape found spot = some .branch := by
  obtain ⟨mid, hmid, hoverlay⟩ | ⟨mid, -, -, hoverlay⟩ | hoverlay :=
    overlay_cases entry.2.shape found (pathOf entry.1) spot
  · rw [hoverlay]
    rw [hmid, append_assoc] at heq
    have hmid' : mid ++ rest ≠ [] := append_ne_nil_of_right_ne_nil mid hrest
    cases hplain : entry.2.isDict with
    | true =>
      exact shape_eq_branch hrest
        (hagree.shape_ne_none hentry (hl e he) hplain hpath hmid' heq)
    | false => exact absurd ⟨h.above e he hne _ _ hmid' heq, hplain⟩ hkept
  · exact hoverlay
  · rw [hoverlay, h.above e he hne spot rest hrest heq]

theorem Layout.overlay_plain {e : Key × Val} (he : e ∈ l) (hplain : e.2.isDict = false)
    (hne : pathOf e.1 ≠ []) :
    overlay (pathOf entry.1) entry.2.shape found (pathOf e.1) = some .branch ∨
      ∃ other ∈ l ++ [entry], other.2.isDict = false ∧ pathOf other.1 = pathOf e.1 ∧
        overlay (pathOf entry.1) entry.2.shape found (pathOf e.1) = some (.plain other.2) := by
  obtain ⟨rest, hrest, hoverlay⟩ | ⟨rest, -, -, hoverlay⟩ | hoverlay :=
    overlay_cases entry.2.shape found (pathOf entry.1) (pathOf e.1)
  · rw [hoverlay]
    cases hdict : entry.2.isDict with
    | true =>
      by_cases hempty : rest = []
      · subst hempty
        exact .inl (shape_nil_of_isDict hdict)
      · obtain hsame | ⟨hbranch, -, -⟩ :=
          hagree.below entry hentry e (hl e he) hdict hpath rest hempty hrest
        · refine .inr ⟨e, mem_append_left _ he, hplain, rfl, ?_⟩
          have htop := hsame []
          rwa [append_nil, shape_nil, top_of_not_isDict hplain] at htop
        · exact .inl hbranch
    | false =>
      by_cases hempty : rest = []
      · subst hempty
        rw [append_nil] at hrest
        exact .inr ⟨entry, mem_concat.mpr (.inr rfl), hdict, hrest.symm,
          by rw [shape_nil, top_of_not_isDict hdict]⟩
      · exact absurd ⟨h.above e he hne _ rest hempty hrest, hdict⟩ hkept
  · exact .inl hoverlay
  · rw [hoverlay]
    refine (h.plain e he hplain hne).imp_right ?_
    exact fun ⟨o, ho, hrest⟩ => ⟨o, mem_append_left _ ho, hrest⟩

theorem Layout.overlay : Layout (l ++ [entry]) (overlay (pathOf entry.1) entry.2.shape found) where
  dict e he hdict hne rest := by
    obtain he | rfl := mem_concat.mp he
    · exact h.overlay_dict hagree hl hentry hpath hkept he hdict hne rest
    · exact overlay_below (pathOf e.1) rest
  above e he hne spot rest hrest heq := by
    obtain he | rfl := mem_concat.mp he
    · exact h.overlay_above hagree hl hentry hpath hkept he hne hrest heq
    · rw [heq]
      exact Nested.overlay_above hrest
  plain e he hplain hne := by
    obtain he | rfl := mem_concat.mp he
    · exact h.overlay_plain hagree hl hentry hpath hkept he hplain hne
    · refine .inr ⟨e, mem_concat.mpr (.inr rfl), hplain, rfl, ?_⟩
      rw [overlay_at, shape_nil, top_of_not_isDict hplain]

end Overlay

theorem Agree.layout (hagree : Agree items) (hl : ∀ e ∈ l, e ∈ items)
    (hnodup : (l.map (·.1)).Nodup) : Layout l (dict (expandDottedKeys l)).shape := by
  induction l using List.reverseRecOn with
  | nil => exact ⟨nofun, nofun, nofun⟩
  | append_singleton l entry ih =>
    have hkey := notMem_of_nodup_concat hnodup
    rw [map_append, nodup_append] at hnodup
    have hlayout := ih (fun e he => hl e (mem_append_left _ he)) hnodup.1
    by_cases hpath : pathOf entry.1 = []
    · rw [expandDottedKeys_concat, mergeKey_of_nil hpath]
      exact hlayout.skip hpath
    · rw [shape_concat hkey hpath]
      split
      · rename_i hkept
        exact hlayout.preserve hkept.2 hkept.1 fun _ _ => shape_eq_branch
      · rename_i hkept
        exact hlayout.overlay hagree (fun e he => hl e (mem_append_left _ he))
          (hl entry (mem_concat.mpr (.inr rfl))) hpath hkept

/-! ## §3 Keys that agree -/

theorem Agree.shape_of_perm (hagree : Agree items) (hnodup : (items.map (·.1)).Nodup)
    (hperm : l.Perm items) (hperm' : l'.Perm items) {s : Shape Val} (hspot : spot ≠ [])
    (h : (dict (expandDottedKeys l)).shape spot = some s) :
    (dict (expandDottedKeys l')).shape spot = some s := by
  have hlayout : ∀ {k : Items}, k.Perm items → Layout k (dict (expandDottedKeys k)).shape :=
    fun hk => hagree.layout (fun _ => hk.mem_iff.mp) ((hk.map _).nodup_iff.mpr hnodup)
  have hgive : ∀ {k : Items}, k.Perm items → ∀ e ∈ k, Gives e spot .branch →
      (dict (expandDottedKeys k)).shape spot = some .branch := by
    rintro k hk e he ⟨hpath, ⟨rest, rfl, hrest⟩ | ⟨rest, hne, heq, -⟩⟩
    · have hdict : e.2.isDict = true := by
        by_contra hdict
        rw [shape_plain (Bool.eq_false_iff.mpr hdict)] at hrest
        split at hrest <;> cases hrest
      rw [(hlayout hk).dict e he hdict hpath, hrest]
    · exact (hlayout hk).above e he hpath spot rest hne heq
  have hnodup' := (hperm.map (·.1)).nodup_iff.mpr hnodup
  obtain ⟨e, he, hgives⟩ := exists_gives hnodup' hspot h
  have he' : e ∈ l' := hperm'.mem_iff.mpr (hperm.mem_iff.mp he)
  cases s with
  | branch => exact hgive hperm' e he' hgives
  | plain v =>
    obtain ⟨hpath, ⟨rest, rfl, hrest⟩ | ⟨-, -, -, hfalse⟩⟩ := hgives
    · cases hdict : e.2.isDict with
      | true => rw [(hlayout hperm').dict e he' hdict hpath, hrest]
      | false =>
        rw [shape_plain hdict] at hrest
        split at hrest
        · subst_vars
          obtain rfl : v = e.2 := by simpa using hrest.symm
          rw [append_nil] at h hspot hgive ⊢
          -- a dictionary at the path in one order is one in the other order
          have hcover : ∀ cover ∈ l, ¬ Gives cover (pathOf e.1) .branch := fun cover hmem hgives =>
            nomatch h.symm.trans (hgive hperm cover hmem hgives)
          obtain hbranch | ⟨o, ho, hplain, hsame, hvalue⟩ :=
            (hlayout hperm').plain e he' hdict hpath
          · obtain ⟨cover, hmem, hgives⟩ :=
              exists_gives ((hperm'.map (·.1)).nodup_iff.mpr hnodup) hspot hbranch
            exact absurd hgives (hcover cover (hperm.mem_iff.mpr (hperm'.mem_iff.mp hmem)))
          · obtain heq | ⟨cover, hmem, hgives⟩ := hagree.plain e (hperm.mem_iff.mp he) o
              (hperm'.mem_iff.mp ho) hdict hplain hpath hsame
            · rw [hvalue, heq]
            · exact absurd hgives (hcover cover (hperm.mem_iff.mpr hmem))
        · cases hrest
    · cases hfalse

variable {event : Event}

theorem Agree.orderIndependent (h : Agree event.items) :
    OrderIndependent event := by
  intro items hperm
  funext spot
  cases spot with
  | nil => rfl
  | cons key spot =>
    have hspot := cons_ne_nil key spot
    apply Option.ext
    intro s
    exact ⟨h.shape_of_perm event.nodup hperm (List.Perm.refl _) hspot,
      h.shape_of_perm event.nodup (List.Perm.refl _) hperm hspot⟩

theorem Agree.exempt_of_gives (h : Agree items) (he : entry ∈ items) (hpath : pathOf entry.1 ≠ [])
    (hplain : entry.2.isDict = false) (ho : other ∈ items)
    (hgives : Gives other (pathOf entry.1) .branch) : Exempt items entry := by
  obtain ⟨hother, ⟨rest, heq, hrest⟩ | ⟨rest, hne, heq, -⟩⟩ := hgives
  · have hdict : other.2.isDict = true := by
      by_contra hdict
      rw [shape_plain (Bool.eq_false_iff.mpr hdict)] at hrest
      split at hrest <;> cases hrest
    by_cases hempty : rest = []
    · subst hempty
      rw [append_nil] at heq
      refine ⟨other, ho, ?_, .inl heq.symm⟩
      rintro rfl
      rw [hplain] at hdict
      cases hdict
    · obtain hsame | ⟨-, -, hexempt⟩ := h.below other ho entry he hdict hother rest hempty heq
      · have htop := hsame []
        rw [append_nil, hrest, shape_nil, top_of_not_isDict hplain] at htop
        cases htop
      · exact hexempt
  · refine ⟨other, ho, ?_, .inr (.inr ⟨hplain, hpath, rest, hne, heq⟩)⟩
    rintro rfl
    exact hne (self_eq_append_right.mp heq)

theorem Agree.readsBack (h : Agree event.items) : ReadsBack event := by
  intro e he hpath hexempt spot
  have hlayout := h.layout (fun _ => id) event.nodup
  cases hdict : e.2.isDict with
  | true => exact hlayout.dict e he hdict hpath spot
  | false =>
    have hfound : (dict (expandDottedKeys event.items)).shape (pathOf e.1) =
        some (.plain e.2) := by
      obtain hbranch | ⟨o, ho, -, hsame, hvalue⟩ := hlayout.plain e he hdict hpath
      · obtain ⟨o, ho, hgives⟩ := exists_gives event.nodup hpath hbranch
        exact absurd (h.exempt_of_gives he hpath hdict ho hgives) hexempt
      · by_cases heq : o = e
        · rw [hvalue, heq]
        · exact absurd ⟨o, ho, heq, .inl hsame⟩ hexempt
    rw [shape_plain hdict]
    split
    · subst_vars
      rw [append_nil, hfound]
    · exact shape_eq_none ‹_› hfound

/-! ## §4 Keys that are merged alike -/

theorem exists_perm_concat (he : entry ∈ items) (ho : other ∈ items) (hne : entry ≠ other) :
    ∃ l : Items, (l ++ [entry] ++ [other]).Perm items := by
  have hmem : other ∈ items.erase entry := (mem_erase_of_ne hne.symm).mpr ho
  have hitems : (entry :: other :: (items.erase entry).erase other).Perm items :=
    ((perm_cons_erase hmem).symm.cons entry).trans (perm_cons_erase he).symm
  refine ⟨(items.erase entry).erase other, ?_⟩
  rw [append_assoc]
  exact perm_append_comm.trans hitems

theorem shape_concat_last (hnodup : ((l ++ [entry]).map (·.1)).Nodup) (hpath : pathOf entry.1 ≠ [])
    (hkept : ¬ ((dict (expandDottedKeys l)).shape (pathOf entry.1) = some .branch ∧
      entry.2.isDict = false)) (spot : List Key) :
    (dict (expandDottedKeys (l ++ [entry]))).shape (pathOf entry.1 ++ spot) =
      entry.2.shape spot := by
  rw [shape_concat (notMem_of_nodup_concat hnodup) hpath, if_neg hkept, overlay_below]

theorem shape_concat_dict (hnodup : ((l ++ [entry]).map (·.1)).Nodup) (hpath : pathOf entry.1 ≠ [])
    (hdict : entry.2.isDict = true) (spot : List Key) :
    (dict (expandDottedKeys (l ++ [entry]))).shape (pathOf entry.1 ++ spot) =
      entry.2.shape spot :=
  shape_concat_last hnodup hpath (fun h => by rw [hdict] at h; cases h.2) spot

section Order

variable {event : Event} (horder : OrderIndependent event) (he : entry ∈ event.items)
  (ho : other ∈ event.items) (hne : entry ≠ other)

include horder he ho hne

theorem OrderIndependent.exists_last :
    ∃ l : Items, ((l ++ [entry] ++ [other]).map (·.1)).Nodup ∧
      (∀ e ∈ l, e ∈ event.items) ∧
      (dict (expandDottedKeys (l ++ [entry] ++ [other]))).shape =
        (dict (expandDottedKeys event.items)).shape := by
  obtain ⟨l, hperm⟩ := exists_perm_concat he ho hne
  refine ⟨l, (hperm.map _).nodup_iff.mpr event.nodup, fun e hmem => ?_, horder _ hperm⟩
  exact hperm.mem_iff.mp (mem_append_left _ (mem_append_left _ hmem))

theorem OrderIndependent.shape_dict (hdict : entry.2.isDict = true) (hpath : pathOf entry.1 ≠ [])
    (spot : List Key) :
    (dict (expandDottedKeys event.items)).shape (pathOf entry.1 ++ spot) = entry.2.shape spot := by
  obtain ⟨l, hnodup, -, hshape⟩ := horder.exists_last ho he hne.symm
  rw [← hshape, shape_concat_dict hnodup hpath hdict]

end Order

theorem OrderIndependent.below (horder : OrderIndependent event) (hreads : ReadsBack event)
    (he : entry ∈ event.items) (ho : other ∈ event.items) (hdict : entry.2.isDict = true)
    (hpath : pathOf entry.1 ≠ []) (hrest : rest ≠ [])
    (heq : pathOf other.1 = pathOf entry.1 ++ rest) :
    Says entry.2 rest other.2 ∨
      (entry.2.shape rest = some .branch ∧ other.2.isDict = false ∧ Exempt event.items other) := by
  have hne : entry ≠ other := by
    rintro rfl
    exact hrest (self_eq_append_right.mp heq)
  have hpath' : pathOf other.1 ≠ [] := heq ▸ append_ne_nil_of_left_ne_nil hpath rest
  have hfound (spot : List Key) :
      (dict (expandDottedKeys event.items)).shape (pathOf other.1 ++ spot) =
        entry.2.shape (rest ++ spot) := by
    rw [heq, append_assoc, horder.shape_dict he ho hne hdict hpath]
  obtain ⟨l, hnodup, -, hshape⟩ := horder.exists_last he ho hne
  have hinner : (dict (expandDottedKeys (l ++ [entry]))).shape (pathOf other.1) =
      entry.2.shape rest := by
    rw [heq]
    refine shape_concat_dict ?_ hpath hdict rest
    rw [map_append] at hnodup
    exact (nodup_append.mp hnodup).1
  by_cases hkept : entry.2.shape rest = some .branch ∧ other.2.isDict = false
  · refine .inr ⟨hkept.1, hkept.2, ?_⟩
    by_contra hexempt
    -- the dictionary is found where the value of the key should be
    have hvalue := hreads other ho hpath' hexempt []
    rw [hfound, append_nil, hkept.1, shape_nil, top_of_not_isDict hkept.2] at hvalue
    cases hvalue
  · left
    intro spot
    rw [← hfound, ← hshape, shape_concat_last hnodup hpath' (by rwa [hinner])]

theorem OrderIndependent.plain (horder : OrderIndependent event) (he : entry ∈ event.items)
    (ho : other ∈ event.items) (hplain : entry.2.isDict = false) (hplain' : other.2.isDict = false)
    (hpath : pathOf entry.1 ≠ []) (heq : pathOf other.1 = pathOf entry.1) :
    entry.2 = other.2 ∨ ∃ cover ∈ event.items, Gives cover (pathOf entry.1) .branch := by
  by_cases hcover : ∃ cover ∈ event.items, Gives cover (pathOf entry.1) .branch
  · exact .inr hcover
  by_cases hne : entry = other
  · exact .inl (by rw [hne])
  -- the last one of the two is found, in either order
  have hlast : ∀ {e o : Key × Val}, e ∈ event.items → o ∈ event.items → e ≠ o →
      e.2.isDict = false → o.2.isDict = false → pathOf e.1 = pathOf entry.1 →
      pathOf o.1 = pathOf entry.1 →
      (dict (expandDottedKeys event.items)).shape (pathOf entry.1) = some (.plain o.2) := by
    intro e o he ho hne hplain hplain' heq heq'
    obtain ⟨l, hnodup, hl, hshape⟩ := horder.exists_last he ho hne
    have hnodup' : ((l ++ [e]).map (·.1)).Nodup := by
      rw [map_append] at hnodup
      exact (nodup_append.mp hnodup).1
    have hnodup'' : (l.map (·.1)).Nodup := by
      rw [map_append] at hnodup'
      exact (nodup_append.mp hnodup').1
    have hempty : (dict (expandDottedKeys l)).shape (pathOf e.1) ≠ some .branch := by
      intro hbranch
      obtain ⟨cover, hmem, hgives⟩ := exists_gives hnodup'' (heq ▸ hpath) hbranch
      exact hcover ⟨cover, hl cover hmem, heq ▸ hgives⟩
    have hfirst := shape_concat_last hnodup' (heq ▸ hpath) (fun h => hempty h.1) []
    rw [append_nil, heq, shape_nil, top_of_not_isDict hplain] at hfirst
    have hsecond := shape_concat_last hnodup (heq' ▸ hpath)
      (fun h => by rw [heq', hfirst] at h; cases h.1) []
    rwa [append_nil, heq', hshape, shape_nil, top_of_not_isDict hplain'] at hsecond
  left
  have hboth := (hlast ho he (Ne.symm hne) hplain' hplain heq rfl).symm.trans
    (hlast he ho hne hplain hplain' rfl heq)
  simpa using hboth

theorem agree_of_orderIndependent (horder : OrderIndependent event) (hreads : ReadsBack event) :
    Agree event.items where
  below e he o ho hdict hpath rest hrest heq := horder.below hreads he ho hdict hpath hrest heq
  dicts e he o ho hdict hdict' hpath heq := by
    by_cases hne : e = o
    · rw [hne]
    · funext spot
      rw [← horder.shape_dict he ho hne hdict hpath, ← heq,
        horder.shape_dict ho he (Ne.symm hne) hdict' (heq ▸ hpath)]
  plain e he o ho hplain hplain' hpath heq := horder.plain he ho hplain hplain' hpath heq

/-- The flattening does not depend on the order of the keys and loses no value exactly when the
keys agree. -/
theorem flattening_faithful_iff (event : Event) :
    OrderIndependent event ∧ ReadsBack event ↔ Agree event.items :=
  ⟨fun h => agree_of_orderIndependent h.1 h.2, fun h => ⟨h.orderIndependent, h.readsBack⟩⟩

/-- A dictionary replaces the dotted key that came before it. -/
theorem later_dict_drops_dotted_key :
    ¬ ∀ event : Event, OrderIndependent event ∧ ReadsBack event := by
  intro h
  let event : Event :=
    ⟨[(.str "a", .dict [(.str "x", .atom (.int 1))]), (.str "a.b", .atom (.int 2))], by decide⟩
  have hswap := (h event).1 [(.str "a.b", .atom (.int 2)),
    (.str "a", .dict [(.str "x", .atom (.int 1))])] (List.Perm.swap _ _ _)
  have hfound := congrFun hswap [.str "a", .str "b"]
  revert hfound
  decide

end Ace3.Query
