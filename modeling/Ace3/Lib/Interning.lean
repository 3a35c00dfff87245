import Mathlib.Data.List.Nodup
import Mathlib.Data.List.Find
import Mathlib.Data.List.Infix

/-!
# Interning

A register that keeps one entry for each key, and the entries that one owner has taken from it, in
order. Nothing is ever removed. An owner who asks for a key gets the entry that it has for it, else
the one of the register, else a new one, as long as there is room.
-/

namespace Ace3.Lib

open List

/-- A register, whose entries have a key, and the entries that an owner has taken. -/
structure Shelf (ι κ : Type*) where
  entries : List (ι × κ)
  taken : List ι
  deriving DecidableEq

/-- Whether a register with these keys has room for one more. -/
abbrev Room (κ : Type*) := List κ → κ → Bool

def Room.Closing {κ : Type*} (room : Room κ) : Prop :=
  ∀ keys more key, room (keys ++ more) key → room keys key

namespace Shelf

variable {ι κ : Type*}

/-! ## §1 Registers -/

def keys (s : Shelf ι κ) : List κ :=
  s.entries.map (·.2)

structure Within (s t : Shelf ι κ) : Prop where
  entries : s.entries <+: t.entries
  taken : s.taken <+: t.taken

theorem Within.refl (s : Shelf ι κ) : s.Within s := ⟨prefix_rfl, prefix_rfl⟩

theorem Within.trans {s t u : Shelf ι κ} (h : s.Within t) (h' : t.Within u) : s.Within u :=
  ⟨h.entries.trans h'.entries, h.taken.trans h'.taken⟩

/-- Distinct entries, and the owner has some of them. -/
structure Tidy (s : Shelf ι κ) : Prop where
  distinct : (s.entries.map (·.1)).Nodup
  taken : ∀ i ∈ s.taken, i ∈ s.entries.map (·.1)

theorem mem_entries_iff {s t : Shelf ι κ} (hst : s.entries <+: t.entries) (ht : t.Tidy) {i : ι}
    (hi : i ∈ s.entries.map (·.1)) (key : κ) : (i, key) ∈ s.entries ↔ (i, key) ∈ t.entries := by
  refine ⟨fun h => hst.subset h, ?_⟩
  intro h
  obtain ⟨⟨j, key'⟩, hentry, rfl⟩ := mem_map.mp hi
  have heq := inj_on_of_nodup_map ht.distinct h (hst.subset hentry) rfl
  exact heq ▸ hentry

def Fresh (s : Shelf ι κ) (fresh : ι) : Prop :=
  fresh ∉ s.entries.map (·.1)

/-- New entries are distinct, and none is in the register yet. -/
def AllFresh (s : Shelf ι κ) : List (Option (κ × ι)) → Prop
  | [] => True
  | none :: requests => s.AllFresh requests
  | some (key, fresh) :: requests =>
    s.Fresh fresh ∧ AllFresh ⟨s.entries ++ [(fresh, key)], s.taken⟩ requests

variable {requests : List (Option (κ × ι))}

theorem AllFresh.of_subset {s t : Shelf ι κ} (h : s.AllFresh requests)
    (hsub : t.entries ⊆ s.entries) : t.AllFresh requests := by
  induction requests generalizing s t with
  | nil => trivial
  | cons request requests ih =>
    cases request with
    | none => exact ih h hsub
    | some request =>
      refine ⟨fun hmem => h.1 (map_subset _ hsub hmem), ih h.2 ?_⟩
      exact append_subset.mpr ⟨List.Subset.trans hsub (subset_append_left _ _),
        subset_append_right _ _⟩

section Holder

variable [DecidableEq κ]

def holder (s : Shelf ι κ) (key : κ) : Option ι :=
  (s.entries.find? (·.2 = key)).map (·.1)

theorem mem_of_holder {s : Shelf ι κ} {key : κ} {i : ι} (h : s.holder key = some i) :
    (i, key) ∈ s.entries := by
  obtain ⟨entry, hfind, rfl⟩ := Option.map_eq_some_iff.mp h
  have hkey : entry.2 = key := by simpa using List.find?_some hfind
  exact hkey ▸ List.mem_of_find?_eq_some hfind

theorem holder_eq_none_iff {s : Shelf ι κ} {key : κ} : s.holder key = none ↔ key ∉ s.keys := by
  rw [holder, Option.map_eq_none_iff, List.find?_eq_none]
  constructor
  · rintro h hkey
    obtain ⟨entry, hentry, rfl⟩ := mem_map.mp hkey
    exact h entry hentry (decide_eq_true rfl)
  · intro h entry hentry hkey
    exact h (of_decide_eq_true hkey ▸ mem_map_of_mem hentry)

theorem holder_of_prefix {s t : Shelf ι κ} {key : κ} {i : ι} (h : s.entries <+: t.entries)
    (hholder : s.holder key = some i) : t.holder key = some i := by
  obtain ⟨more, hmore⟩ := h
  obtain ⟨entry, hfind, rfl⟩ := Option.map_eq_some_iff.mp hholder
  rw [holder, ← hmore, List.find?_append, hfind]
  rfl

end Holder

/-! ## §2 One request -/

variable [DecidableEq ι] [DecidableEq κ]

def own (s : Shelf ι κ) (key : κ) : Option ι :=
  s.taken.find? fun i => (i, key) ∈ s.entries

/-- A request for a key, with the entry that is made for it if there is none. -/
def place (room : Room κ) (s : Shelf ι κ) (key : κ) (fresh : ι) : Shelf ι κ × Option ι :=
  match s.own key with
  | some i => (s, some i)
  | none =>
    match s.holder key with
    | some i => ({ s with taken := s.taken ++ [i] }, some i)
    | none =>
      if room s.keys key then (⟨s.entries ++ [(fresh, key)], s.taken ++ [fresh]⟩, some fresh)
      else (s, none)

def ask (room : Room κ) (s : Shelf ι κ) : Option (κ × ι) → Shelf ι κ × Option ι
  | none => (s, none)
  | some (key, fresh) => s.place room key fresh

/-- The three ways in which a request goes: the owner has the entry; the owner takes an entry,
which the register then gives for the key; or there is none. -/
inductive Placed (room : Room κ) (s : Shelf ι κ) (key : κ) : Shelf ι κ × Option ι → Prop where
  | own (i : ι) (h : s.own key = some i) : Placed room s key (s, some i)
  | take (i : ι) (t : Shelf ι κ) (hown : s.own key = none) (hentries : s.entries <+: t.entries)
      (htaken : t.taken = s.taken ++ [i]) (hholder : t.holder key = some i) :
      Placed room s key (t, some i)
  | refuse (hholder : s.holder key = none) (hroom : ¬ room s.keys key) : Placed room s key (s, none)

theorem placed_place (room : Room κ) (s : Shelf ι κ) (key : κ) (fresh : ι) :
    Placed room s key (s.place room key fresh) := by
  unfold place
  split
  next i hown => exact .own i hown
  next hown =>
    split
    next i hholder => exact .take i _ hown prefix_rfl rfl hholder
    next hholder =>
      split
      next hroom =>
        refine .take fresh _ hown (prefix_append _ _) rfl ?_
        rw [holder, Option.map_eq_none_iff] at hholder
        simp [holder, List.find?_append, hholder]
      next hroom => exact .refuse hholder hroom

variable {s : Shelf ι κ} {key : κ}

theorem mem_of_own {i : ι} (h : s.own key = some i) :
    i ∈ s.taken ∧ (i, key) ∈ s.entries :=
  ⟨List.mem_of_find?_eq_some h, by simpa using List.find?_some h⟩

theorem own_eq_none (h : s.holder key = none) : s.own key = none := by
  rw [own, List.find?_eq_none]
  intro i _ hi
  exact holder_eq_none_iff.mp h (mem_map_of_mem (of_decide_eq_true hi))

variable {room : Room κ}

theorem place_of_holder {i : ι} (h : s.holder key = some i) (fresh fresh' : ι) :
    s.place room key fresh = s.place room key fresh' := by
  simp only [place, h]

variable {fresh : ι}

theorem place_admitted (hs : s.Tidy) (hholder : s.holder key = none) (hroom : room s.keys key)
    (hfresh : s.Fresh fresh) (fresh' : ι) :
    place room ⟨s.entries ++ [(fresh, key)], s.taken⟩ key fresh' = s.place room key fresh := by
  have hown : own ⟨s.entries ++ [(fresh, key)], s.taken⟩ key = none := by
    rw [own, List.find?_eq_none]
    intro i hi hmem
    rcases mem_append.mp (of_decide_eq_true hmem) with hmem | hmem
    · exact holder_eq_none_iff.mp hholder (mem_map_of_mem hmem)
    · obtain ⟨rfl, -⟩ := Prod.mk.inj (mem_singleton.mp hmem)
      exact hfresh (hs.taken i hi)
  have hheld : holder ⟨s.entries ++ [(fresh, key)], s.taken⟩ key = some fresh := by
    rw [holder, Option.map_eq_none_iff] at hholder
    simp [holder, List.find?_append, hholder]
  simp only [place, hown, hheld, own_eq_none hholder, hholder, if_pos hroom]

theorem within_place (room : Room κ) (s : Shelf ι κ) (key : κ) (fresh : ι) :
    s.Within (s.place room key fresh).1 := by
  generalize hresult : s.place room key fresh = result
  have hplaced := placed_place room s key fresh
  rw [hresult] at hplaced
  cases hplaced with
  | own => exact .refl s
  | take i t hown hentries htaken hholder => exact ⟨hentries, htaken ▸ prefix_append _ _⟩
  | refuse => exact .refl s

theorem within_ask (room : Room κ) (s : Shelf ι κ) (request : Option (κ × ι)) :
    s.Within (s.ask room request).1 := by
  cases request with
  | none => exact .refl s
  | some request => exact within_place room s request.1 request.2

theorem mem_taken_of_ask {s t : Shelf ι κ} {request : Option (κ × ι)} {i : ι}
    (h : s.ask room request = (t, some i)) : i ∈ t.taken := by
  cases request with
  | none => cases h
  | some request =>
    have hplaced := placed_place room s request.1 request.2
    rw [show s.place room request.1 request.2 = (t, some i) from h] at hplaced
    cases hplaced with
    | own _ hown => exact (mem_of_own hown).1
    | take _ _ hown hentries htaken hholder => simp [htaken]

theorem Tidy.place (room : Room κ) (hs : s.Tidy) (key : κ) (hfresh : s.Fresh fresh) :
    (s.place room key fresh).1.Tidy := by
  unfold Shelf.place
  split
  · exact hs
  · split
    next i hholder =>
      refine ⟨hs.distinct, ?_⟩
      intro j hj
      rcases mem_append.mp hj with hj | hj
      · exact hs.taken j hj
      · obtain rfl := mem_singleton.mp hj
        exact mem_map_of_mem (mem_of_holder hholder)
    · split
      · refine ⟨?_, ?_⟩
        · rw [map_append, nodup_append]
          refine ⟨hs.distinct, by simp, ?_⟩
          rintro j hj _ hlast rfl
          obtain rfl : j = fresh := mem_singleton.mp hlast
          exact hfresh hj
        · intro j hj
          rw [map_append]
          rcases mem_append.mp hj with hj | hj
          · exact mem_append_left _ (hs.taken j hj)
          · exact mem_append_right _ hj
      · exact hs

/-! ## §3 A list of requests -/

theorem Tidy.ask (room : Room κ) (hs : s.Tidy) {request : Option (κ × ι)}
    (hfresh : s.AllFresh (request :: requests)) :
    (s.ask room request).1.Tidy := by
  cases request with
  | none => exact hs
  | some request => exact hs.place room request.1 hfresh.1

/-- Requests one after the other, and what each of them got. -/
def askAll (room : Room κ) (s : Shelf ι κ) : List (Option (κ × ι)) → Shelf ι κ × List (Option ι)
  | [] => (s, [])
  | request :: requests =>
    let rest := (s.ask room request).1.askAll room requests
    (rest.1, (s.ask room request).2 :: rest.2)

theorem within_askAll (room : Room κ) (s : Shelf ι κ) (requests : List (Option (κ × ι))) :
    s.Within (s.askAll room requests).1 := by
  induction requests generalizing s with
  | nil => exact .refl s
  | cons request requests ih => exact (within_ask room s request).trans (ih _)

theorem AllFresh.place (h : s.AllFresh (some (key, fresh) :: requests)) :
    (s.place room key fresh).1.AllFresh requests := by
  refine h.2.of_subset ?_
  unfold Shelf.place
  split
  · exact subset_append_left _ _
  · split
    · exact subset_append_left _ _
    · split
      · exact List.Subset.refl _
      · exact subset_append_left _ _

theorem Tidy.askAll (room : Room κ) (hs : s.Tidy) (hfresh : s.AllFresh requests) :
    (s.askAll room requests).1.Tidy := by
  induction requests generalizing s with
  | nil => exact hs
  | cons request requests ih =>
    have hnext := hs.ask room hfresh
    cases request with
    | none => exact ih hnext hfresh
    | some request => exact ih hnext hfresh.place

theorem not_mem_keys_askAll (hroom : room.Closing) (hkey : key ∉ s.keys) (hfull : ¬ room s.keys key)
    (requests : List (Option (κ × ι))) :
    key ∉ (s.askAll room requests).1.keys := by
  induction requests generalizing s with
  | nil => exact hkey
  | cons request requests ih =>
    have hstep : key ∉ (s.ask room request).1.keys := by
      cases request with
      | none => exact hkey
      | some request =>
        unfold ask Shelf.place
        dsimp only
        split
        · exact hkey
        · split
          · exact hkey
          · split
            next hadmit =>
              -- the key that is admitted is another one: there is no room for this one
              have hne : key ≠ request.1 := by
                rintro rfl
                exact hfull hadmit
              simpa [keys, hne] using hkey
            · exact hkey
    apply ih hstep
    obtain ⟨more, hmore⟩ := (within_ask room s request).entries
    intro hlater
    apply hfull
    apply hroom s.keys (more.map (·.2))
    rwa [keys, ← map_append, hmore]

/-! ## §4 The same requests again -/

theorem find_taken {s t : Shelf ι κ} (hs : s.Tidy) (hst : s.entries <+: t.entries) (ht : t.Tidy)
    (key : κ) : s.taken.find? (fun i => (i, key) ∈ t.entries) = s.own key := by
  apply List.find?_congr
  intro i hi
  rw [decide_eq_decide]
  exact (mem_entries_iff hst ht (hs.taken i hi) key).symm

/-- One request again, by an owner that has at least what it had the first time and at most what
it had in the end: it gets the same entry. -/
theorem place_again {s u t : Shelf ι κ} (hs : s.Tidy) (hu : u.Tidy)
    (hwithin : (s.place room key fresh).1.Within u)
    (hrefused : (s.place room key fresh).2 = none → key ∉ u.keys ∧ ¬ room u.keys key)
    (hentries : t.entries = u.entries) (hlow : s.taken <+: t.taken) (hhigh : t.taken <+: u.taken)
    (fresh' : ι) :
    (t.place room key fresh').2 = (s.place room key fresh).2 ∧
      (t.place room key fresh').1.entries = u.entries ∧
        (s.place room key fresh).1.taken <+: (t.place room key fresh').1.taken ∧
          (t.place room key fresh').1.taken <+: u.taken := by
  have hkeys : t.keys = u.keys := congrArg (List.map Prod.snd) hentries
  generalize hresult : s.place room key fresh = result at hwithin hrefused ⊢
  have hplaced := placed_place room s key fresh
  rw [hresult] at hplaced
  cases hplaced with
  | own i hown =>
    -- the owner had it then, so it has it now
    have hagain : t.own key = some i := by
      obtain ⟨more, hmore⟩ := hlow
      rw [own, hentries, ← hmore, List.find?_append, find_taken hs hwithin.entries hu, hown]
      rfl
    simp only [place, hagain]
    exact ⟨trivial, hentries, hlow, hhigh⟩
  | take i s₁ hown hstart htaken hholder =>
    have hbefore := find_taken hs (hstart.trans hwithin.entries) hu key
    have hthere : (i, key) ∈ u.entries := hwithin.entries.subset (mem_of_holder hholder)
    obtain ⟨more, hmore⟩ := hlow
    obtain ⟨rest, hrest⟩ := hwithin.taken
    rw [htaken, append_assoc, singleton_append] at hrest
    cases more with
    | nil =>
      -- the owner has what it had then, and takes the entry once more
      rw [append_nil] at hmore
      have hagain : t.own key = none := by rw [own, hentries, ← hmore, hbefore, hown]
      have hheld : t.holder key = some i :=
        holder_of_prefix (hentries ▸ hwithin.entries) hholder
      simp only [place, hagain, hheld]
      exact ⟨trivial, hentries, by rw [htaken, hmore],
        ⟨rest, by rw [← hmore, ← hrest, append_assoc, singleton_append]⟩⟩
    | cons j more =>
      -- the owner has more: the next thing it took was this entry
      obtain ⟨last, hlast⟩ := hhigh
      rw [← hmore, ← hrest, append_assoc, cons_append] at hlast
      obtain ⟨rfl, -⟩ := List.cons.inj (append_cancel_left hlast)
      have hagain : t.own key = some j := by
        rw [own, hentries, ← hmore, List.find?_append, hbefore, hown]
        simp [hthere]
      simp only [place, hagain]
      refine ⟨trivial, hentries, ?_, ?_⟩
      · exact ⟨more, by rw [htaken, ← hmore, append_assoc, singleton_append]⟩
      · exact ⟨last, by rw [← hmore, ← hrest, ← hlast, append_assoc, cons_append]⟩
  | refuse hholder hroom =>
    obtain ⟨hkey, hfull⟩ := hrefused rfl
    have hheld : t.holder key = none := holder_eq_none_iff.mpr (hkeys ▸ hkey)
    have hagain := own_eq_none hheld
    rw [← hkeys] at hfull
    simp only [place, hagain, hheld, if_neg hfull]
    exact ⟨trivial, hentries, hlow, hhigh⟩

/-- The same requests again get the same entries and change nothing, whether the owner has what it
had at first, all that it has in the end, or anything in between. -/
theorem askAll_again (hroom : room.Closing) {s t : Shelf ι κ}
    {requests requests' : List (Option (κ × ι))} (hs : s.Tidy) (hfresh : s.AllFresh requests)
    (hkeys : requests'.map (Option.map (·.1)) = requests.map (Option.map (·.1)))
    (hentries : t.entries = (s.askAll room requests).1.entries) (hlow : s.taken <+: t.taken)
    (hhigh : t.taken <+: (s.askAll room requests).1.taken) :
    t.askAll room requests' = s.askAll room requests := by
  induction requests generalizing s t requests' with
  | nil =>
    obtain rfl := map_eq_nil_iff.mp hkeys
    obtain ⟨entries, taken⟩ := t
    obtain rfl : entries = s.entries := hentries
    obtain rfl : taken = s.taken := hhigh.eq_of_length (le_antisymm hhigh.length_le hlow.length_le)
    rfl
  | cons request requests ih =>
    obtain ⟨request', requests', rfl, hkey, hrest⟩ := map_eq_cons_iff.mp hkeys
    cases request with
    | none =>
      obtain rfl := Option.map_eq_none_iff.mp hkey
      have hagain : t.askAll room requests' = s.askAll room requests :=
        ih hs hfresh hrest hentries hlow hhigh
      simp only [askAll, ask, hagain]
    | some request =>
      obtain ⟨⟨_, fresh'⟩, rfl, rfl⟩ := Option.map_eq_some_iff.mp hkey
      have hnext := hs.place room request.1 hfresh.1
      have hrefused : (s.place room request.1 request.2).2 = none →
          request.1 ∉ (s.askAll room (some request :: requests)).1.keys ∧
            ¬ room (s.askAll room (some request :: requests)).1.keys request.1 := by
        intro hnone
        have hplaced := placed_place room s request.1 request.2
        generalize s.place room request.1 request.2 = result at hplaced hnone
        cases hplaced with
        | own => cases hnone
        | take => cases hnone
        | refuse hholder hfull =>
          have hkey := holder_eq_none_iff.mp hholder
          refine ⟨not_mem_keys_askAll hroom hkey hfull (some request :: requests), ?_⟩
          obtain ⟨more, hmore⟩ := (within_askAll room s (some request :: requests)).entries
          intro hlater
          apply hfull
          apply hroom s.keys (more.map (·.2))
          rwa [keys, ← map_append, hmore]
      obtain ⟨hgot, hentries', hlow', hhigh'⟩ := place_again hs (hs.askAll room hfresh)
        (within_askAll room _ requests) hrefused hentries hlow hhigh fresh'
      have hagain := ih hnext hfresh.place hrest hentries' hlow' hhigh'
      simp only [askAll, ask] at hagain ⊢
      rw [hagain, hgot]

/-! ## §5 The requests of another owner -/

section Owners

variable {room : Room κ} {s t : Shelf ι κ} {key : κ} {fresh : ι}

end Owners

end Shelf

end Ace3.Lib
