import Ace3.Lib.Json

/-!
# Details Paths

How a `details_match` entry follows its dotted path into the details of an analysis
(`get_nested_value` and `_check_details` in `saq/modules/util/observable_modifier.py`).
-/

namespace Ace3.ObservableModifier

open List
open Lib.Json

/-! ## §1 The walk -/

/-- A compiled pattern, by the texts in which `search` finds it. -/
abbrev Pattern := String → Bool

def splitDots (dotPath : String) : List String :=
  (dotPath.toList.splitOn '.').map String.ofList

def nextCandidates (key : String) : Value → List Value
  | .list items => items.filterMap fun
    | .dict fields => Dict.present key fields
    | _ => none
  | .dict fields => (Dict.present key fields).toList
  | _ => []

/-- The loop of `get_nested_value`: the candidates and `has_fanout` at its end, or none when there
are no candidates left. -/
def walk (hasFanout : Bool) (candidates : List Value) : List String → Option (List Value × Bool)
  | [] => some (candidates, hasFanout)
  | key :: keys =>
    let found := candidates.flatMap (nextCandidates key)
    if found.isEmpty then none
    else walk (hasFanout || candidates.any Value.isList) found keys

def getNestedValue (data : Value) (dotPath : String) : Option Value :=
  match walk false [data] (splitDots dotPath) with
  | none => none
  | some (candidates, hasFanout) => if hasFanout then some (.list candidates) else candidates.head?

/-- `value if isinstance(value, list) else [value]`. -/
def alternatives : Value → List Value
  | .list items => items
  | value => [value]

variable (quote : String → String)

def checkDetails (detailsMatch : List (String × Pattern)) (details : Value) : Bool :=
  details.truthy && detailsMatch.all fun entry =>
    match getNestedValue details entry.1 with
    | none => false
    | some value => (alternatives value).any fun v => entry.2 (v.text quote)

/-! ## §2 What the walk finds -/

section Walk

variable {v w c : Value} {key : String} {keys : List String} {hops : List Hop}
  {candidates found : List Value} {hasFanout hasFanout' : Bool}

theorem mem_nextCandidates : w ∈ nextCandidates key v ↔
    (∃ fields, v = .dict fields ∧ Dict.present key fields = some w) ∨
      ∃ items fields, v = .list items ∧ .dict fields ∈ items ∧
        Dict.present key fields = some w := by
  cases v with
  | list items =>
    simp only [nextCandidates, mem_filterMap, reduceCtorEq, false_and, exists_false, false_or,
      Value.list.injEq]
    constructor
    · rintro ⟨item, hitem, hfound⟩
      cases item with
      | dict fields => exact ⟨items, fields, rfl, hitem, hfound⟩
      | _ => cases hfound
    · rintro ⟨items', fields, rfl, hitem, hfound⟩
      exact ⟨.dict fields, hitem, hfound⟩
  | dict fields => simp [nextCandidates, Option.mem_toList]
  | _ => simp [nextCandidates]

def Ends (keys : List String) (v w : Value) : Prop := ∃ hops, Stepped keys hops ∧ Route v hops w

theorem ends_nil_iff : Ends [] v w ↔ w = v := by
  constructor
  · rintro ⟨hops, hstepped, hroute⟩
    cases hstepped
    exact route_nil_iff.mp hroute
  · rintro rfl
    exact ⟨[], .nil, .here w⟩

theorem ends_cons_iff : Ends (key :: keys) v w ↔ ∃ u ∈ nextCandidates key v, Ends keys u w := by
  constructor
  · rintro ⟨hops, hstepped, hroute⟩
    cases hstepped with
    | key _ h =>
      cases hroute with
      | key hpresent hroute => exact ⟨_, mem_nextCandidates.mpr (.inl ⟨_, rfl, hpresent⟩), _, h, hroute⟩
    | item _ h =>
      cases hroute with
      | item hmem hroute =>
        cases hroute with
        | key hpresent hroute =>
          exact ⟨_, mem_nextCandidates.mpr (.inr ⟨_, _, rfl, hmem, hpresent⟩), _, h, hroute⟩
  · rintro ⟨u, hu, hops, hstepped, hroute⟩
    rcases mem_nextCandidates.mp hu with ⟨fields, rfl, hpresent⟩ | ⟨items, fields, rfl, hmem, hpresent⟩
    · exact ⟨_, .key key hstepped, .key hpresent hroute⟩
    · exact ⟨_, .item key hstepped, .item hmem (.key hpresent hroute)⟩

theorem mem_of_walk (h : walk hasFanout candidates keys = some (found, hasFanout')) :
    w ∈ found ↔ ∃ c ∈ candidates, Ends keys c w := by
  induction keys generalizing candidates hasFanout with
  | nil =>
    obtain ⟨rfl, -⟩ := Prod.mk.inj (Option.some.inj h)
    simp [ends_nil_iff]
  | cons key keys ih =>
    rw [walk] at h
    split at h
    · cases h
    · rw [ih h]
      simp only [mem_flatMap, ends_cons_iff]
      constructor
      · rintro ⟨u, ⟨c, hc, hu⟩, hends⟩
        exact ⟨c, hc, u, hu, hends⟩
      · rintro ⟨c, hc, u, hu, hends⟩
        exact ⟨u, ⟨c, hc, hu⟩, hends⟩

theorem not_ends_of_walk_eq_none (h : walk hasFanout candidates keys = none) (hc : c ∈ candidates) :
    ¬ Ends keys c w := by
  induction keys generalizing candidates hasFanout c with
  | nil => cases h
  | cons key keys ih =>
    rw [walk] at h
    rw [ends_cons_iff]
    rintro ⟨u, hu, hends⟩
    have hfound : u ∈ candidates.flatMap (nextCandidates key) := mem_flatMap.mpr ⟨c, hc, hu⟩
    split at h
    · next hempty => exact absurd hfound (List.isEmpty_iff.mp hempty ▸ not_mem_nil)
    · exact ih h hfound hends

theorem hasFanout_of_walk (h : walk true candidates keys = some (found, hasFanout')) :
    hasFanout' = true := by
  induction keys generalizing candidates with
  | nil => exact (Prod.mk.inj (Option.some.inj h)).2.symm
  | cons key keys ih =>
    rw [walk] at h
    split at h
    · cases h
    · exact ih h

/-- From one value on there is a fan-out when the routes enter a list, and otherwise there is one
candidate only. -/
theorem walk_singleton (h : walk false [c] keys = some (found, hasFanout')) :
    (∀ hops w, Stepped keys hops → Route c hops w → (Hop.item ∈ hops ↔ hasFanout' = true)) ∧
      (hasFanout' = false → ∃ w, found = [w]) := by
  induction keys generalizing c with
  | nil =>
    obtain ⟨rfl, rfl⟩ := Prod.mk.inj (Option.some.inj h)
    refine ⟨fun hops w hstepped _ => ?_, fun _ => ⟨c, rfl⟩⟩
    cases hstepped
    simp
  | cons key keys ih =>
    rw [walk] at h
    split at h
    · cases h
    next hfound =>
    cases c with
    | list items =>
      obtain rfl : hasFanout' = true := hasFanout_of_walk h
      refine ⟨fun hops w hstepped hroute => ?_, by simp⟩
      cases hroute with
      | here => cases hstepped
      | item => simp
    | dict fields =>
      cases hpresent : Dict.present key fields with
      | none => simp [nextCandidates, hpresent] at hfound
      | some v =>
        simp only [flatMap_cons, nextCandidates, hpresent, Option.toList_some,
          flatMap_nil, append_nil] at h
        obtain ⟨hitem, hsingle⟩ := ih h
        refine ⟨fun hops w hstepped hroute => ?_, hsingle⟩
        cases hstepped with
        | key _ hstepped =>
          cases hroute with
          | key hpresent' hroute =>
            obtain rfl : _ = v := Option.some.inj (hpresent'.symm.trans hpresent)
            simpa using hitem _ w hstepped hroute
        | item => cases hroute
    | _ => simp [nextCandidates] at hfound

end Walk

/-! ## §3 What is compared -/

/-- A route that the walk follows: steps, and a list at the end is entered when it is the first
one. -/
def Walked (keys : List String) (hops : List Hop) : Prop :=
  Stepped keys hops ∨ ∃ steps, hops = steps ++ [.item] ∧ Stepped keys steps ∧ Hop.item ∉ steps

/-- A value whose text is compared with the pattern. A list is not, unless it is in a list. -/
def Compared (details : Value) (keys : List String) (v : Value) : Prop :=
  ∃ hops, Route details hops v ∧ Walked keys hops ∧ (v.isList = true → Hop.item ∈ hops)

/-- A scalar on the path, behind any number of lists. -/
def Reached (details : Value) (keys : List String) (v : Value) : Prop :=
  ∃ hops, Route details hops v ∧ keysOf hops = keys ∧ v.isScalar = true

/-- A scalar on the path that is behind a list in a list, or in a list that ends the path after
another one. -/
def PassedOver (details : Value) (keys : List String) (v : Value) : Prop :=
  ∃ hops, Route details hops v ∧ keysOf hops = keys ∧ v.isScalar = true ∧ ¬ Walked keys hops

section Compare

variable {details value u : Value} {dotPath : String} {keys : List String} {hops : List Hop}

theorem Walked.keysOf_eq (h : Walked keys hops) : keysOf hops = keys := by
  rcases h with h | ⟨steps, rfl, h, -⟩
  · exact h.keysOf_eq
  · rw [keysOf_append, h.keysOf_eq, keysOf_item, keysOf_nil, append_nil]

theorem compared_iff : Compared details (splitDots dotPath) u ↔
    ∃ value, getNestedValue details dotPath = some value ∧ u ∈ alternatives value := by
  unfold Compared getNestedValue
  cases hwalk : walk false [details] (splitDots dotPath) with
  | none =>
    have hnone : ∀ {w hops}, Stepped (splitDots dotPath) hops → ¬ Route details hops w :=
      fun hstepped hroute =>
        not_ends_of_walk_eq_none hwalk (mem_singleton_self details) ⟨_, hstepped, hroute⟩
    simp only [reduceCtorEq, false_and, exists_false, iff_false]
    rintro ⟨hops, hroute, hstepped | ⟨steps, rfl, hstepped, -⟩, -⟩
    · exact hnone hstepped hroute
    · obtain ⟨v, hv, -⟩ := hroute.exists_of_append
      exact hnone hstepped hv
  | some result =>
    obtain ⟨found, hasFanout⟩ := result
    obtain ⟨hitem, hsingle⟩ := walk_singleton hwalk
    have hmem : ∀ {w}, w ∈ found ↔ Ends (splitDots dotPath) details w :=
      (mem_of_walk hwalk).trans (by simp)
    cases hasFanout with
    | true =>
      simp only [if_true, Option.some.injEq, exists_eq_left', alternatives, hmem]
      constructor
      · rintro ⟨hops, hroute, hstepped | ⟨steps, rfl, hstepped, hnone⟩, -⟩
        · exact ⟨hops, hstepped, hroute⟩
        · obtain ⟨v, hv, -⟩ := hroute.exists_of_append
          exact absurd ((hitem steps v hstepped hv).mpr rfl) hnone
      · rintro ⟨hops, hstepped, hroute⟩
        exact ⟨hops, hroute, .inl hstepped, fun _ => (hitem hops u hstepped hroute).mpr rfl⟩
    | false =>
      obtain ⟨w, rfl⟩ := hsingle rfl
      obtain ⟨steps, hsteps, hw⟩ := hmem.mp (mem_singleton_self w)
      have hnone : Hop.item ∉ steps := fun h => Bool.noConfusion ((hitem steps w hsteps hw).mp h)
      have hsame : ∀ {v hops}, Stepped (splitDots dotPath) hops → Route details hops v → v = w :=
        fun hstepped hroute => mem_singleton.mp (hmem.mpr ⟨_, hstepped, hroute⟩)
      simp only [Bool.false_eq_true, if_false, List.head?_cons, Option.some.injEq, exists_eq_left']
      constructor
      · rintro ⟨hops, hroute, hstepped | ⟨steps', rfl, hstepped, -⟩, hlist⟩
        · -- without a fan-out the only candidate is not a list, or it is taken apart
          obtain rfl := hsame hstepped hroute
          have hnot : ¬ u.isList = true := fun h =>
            Bool.noConfusion ((hitem hops u hstepped hroute).mp (hlist h))
          cases u with
          | list items => exact absurd rfl hnot
          | _ => exact mem_singleton_self _
        · obtain ⟨v, hv, hrest⟩ := hroute.exists_of_append
          obtain rfl := hsame hstepped hv
          cases hrest with
          | item hu hrest =>
            obtain rfl := route_nil_iff.mp hrest
            exact hu
      · intro hu
        cases w with
        | list items =>
          have hmem : u ∈ items := hu
          exact ⟨steps ++ [.item], hw.append (.item hmem (.here u)),
            .inr ⟨steps, rfl, hsteps, hnone⟩, fun _ => by simp⟩
        | _ =>
          obtain rfl := mem_singleton.mp hu
          exact ⟨steps, hw, .inl hsteps, nofun⟩

theorem reached_iff {v : Value} : Reached details keys v ↔
    (Compared details keys v ∧ v.isScalar = true) ∨ PassedOver details keys v := by
  constructor
  · rintro ⟨hops, hroute, hkeys, hscalar⟩
    by_cases hwalked : Walked keys hops
    · refine .inl ⟨⟨hops, hroute, hwalked, fun hlist => ?_⟩, hscalar⟩
      rw [Value.isScalar, hlist] at hscalar
      cases hscalar
    · exact .inr ⟨hops, hroute, hkeys, hscalar, hwalked⟩
  · rintro (⟨⟨hops, hroute, hwalked, -⟩, hscalar⟩ | ⟨hops, hroute, hkeys, hscalar, -⟩)
    · exact ⟨hops, hroute, hwalked.keysOf_eq, hscalar⟩
    · exact ⟨hops, hroute, hkeys, hscalar⟩

theorem truthy_of_compared (h : Compared details (splitDots dotPath) u) : details.truthy = true := by
  obtain ⟨hops, hroute, hwalked, -⟩ := h
  have hkeys : keysOf hops ≠ [] := by
    rw [hwalked.keysOf_eq]
    exact fun h => splitOn_ne_nil '.' dotPath.toList (map_eq_nil_iff.mp h)
  cases hroute with
  | here => exact absurd rfl hkeys
  | @key items name v _ hops hpresent _ =>
    cases items with
    | nil => cases hpresent
    | cons => rfl
  | @item items v _ hops hmem _ =>
    cases items with
    | nil => cases hmem
    | cons => rfl

end Compare

theorem checkDetails_entry_iff (details : Value) (dotPath : String) (pattern : Pattern) :
    checkDetails quote [(dotPath, pattern)] details = true ↔
      ∃ v, Compared details (splitDots dotPath) v ∧ pattern (v.text quote) = true := by
  have hentry : checkDetails quote [(dotPath, pattern)] details = true ↔
      details.truthy = true ∧ ∃ value, getNestedValue details dotPath = some value ∧
        ∃ v ∈ alternatives value, pattern (v.text quote) = true := by
    cases hvalue : getNestedValue details dotPath <;> simp [checkDetails, hvalue]
  rw [hentry]
  constructor
  · rintro ⟨-, value, hvalue, v, hv, hpattern⟩
    exact ⟨v, compared_iff.mpr ⟨value, hvalue, hv⟩, hpattern⟩
  · rintro ⟨v, hcompared, hpattern⟩
    obtain ⟨value, hvalue, hv⟩ := compared_iff.mp hcompared
    exact ⟨truthy_of_compared hcompared, value, hvalue, v, hv, hpattern⟩

/-- An entry holds exactly when a scalar on the path matches, if such a scalar is compared; or else
if a list or a dictionary that is compared by its text matches exactly when a scalar that is passed
over does. -/
theorem details_entry_exact_iff (details : Value) (dotPath : String) (pattern : Pattern) :
    (checkDetails quote [(dotPath, pattern)] details = true ↔
        ∃ v, Reached details (splitDots dotPath) v ∧ pattern (v.text quote) = true) ↔
      (∃ v, Compared details (splitDots dotPath) v ∧ v.isScalar = true ∧
          pattern (v.text quote) = true) ∨
        ((∃ v, Compared details (splitDots dotPath) v ∧ v.isScalar = false ∧
            pattern (v.text quote) = true) ↔
          ∃ v, PassedOver details (splitDots dotPath) v ∧ pattern (v.text quote) = true) := by
  rw [checkDetails_entry_iff]
  have hcompared : (∃ v, Compared details (splitDots dotPath) v ∧ pattern (v.text quote) = true) ↔
      (∃ v, Compared details (splitDots dotPath) v ∧ v.isScalar = true ∧
          pattern (v.text quote) = true) ∨
        ∃ v, Compared details (splitDots dotPath) v ∧ v.isScalar = false ∧
          pattern (v.text quote) = true := by
    constructor
    · rintro ⟨v, hv, hpattern⟩
      cases hscalar : v.isScalar with
      | true => exact .inl ⟨v, hv, hscalar, hpattern⟩
      | false => exact .inr ⟨v, hv, hscalar, hpattern⟩
    · rintro (⟨v, hv, -, hpattern⟩ | ⟨v, hv, -, hpattern⟩) <;> exact ⟨v, hv, hpattern⟩
  have hreached : (∃ v, Reached details (splitDots dotPath) v ∧ pattern (v.text quote) = true) ↔
      (∃ v, Compared details (splitDots dotPath) v ∧ v.isScalar = true ∧
          pattern (v.text quote) = true) ∨
        ∃ v, PassedOver details (splitDots dotPath) v ∧ pattern (v.text quote) = true := by
    simp only [reached_iff, or_and_right, exists_or, and_assoc]
  rw [hcompared, hreached]
  -- where a scalar matches that is compared, the other values do not matter
  by_cases hscalar : ∃ v, Compared details (splitDots dotPath) v ∧ v.isScalar = true ∧
      pattern (v.text quote) = true
  · simp only [hscalar, true_or]
  · simp only [hscalar, false_or]

/-! ## §4 A list in a list -/

/-- A scalar in a list in a list is not compared, but the text of the inner list is. -/
theorem nested_list_is_not_entered :
    ¬ (checkDetails Value.plainQuote [("a", (· == "x"))] (.dict [("a", .list [.list [.str "x"]])]) =
        true ↔
      ∃ v, Reached (.dict [("a", .list [.list [.str "x"]])]) (splitDots "a") v ∧
        (v.text Value.plainQuote == "x") = true) := by
  intro h
  have hreached : Reached (.dict [("a", .list [.list [.str "x"]])]) (splitDots "a") (.str "x") :=
    ⟨[.key "a", .item, .item], .key rfl (.item mem_cons_self (.item mem_cons_self (.here _))),
      by decide, rfl⟩
  exact absurd (h.mpr ⟨_, hreached, by decide⟩) (by decide)

end Ace3.ObservableModifier
