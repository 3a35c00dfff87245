import Mathlib.Logic.Relation
import Mathlib.Data.List.Perm.Subperm
import Mathlib.Data.Set.Finite.Basic
import Mathlib.Data.Set.Finite.Range

/-!
# Values that are Merged on the Way Back

A recursive visit of a graph that marks each node before it goes there, and skips what is marked. On
the way back the values of the successors are merged, and then the node's own content; entering a
node, finding a successor and merging may raise.
-/

namespace Ace3.Lib.PostOrder

open List
open Relation

universe u

variable {α β κ ε : Type u} {ι : Type*}

/-! ## §1 The visit -/

/-- Why a visit has no result: it raises, or it is too deep for the fuel. -/
inductive Stop (ε : Type u) where
  | raised (e : ε)
  | outOfFuel
  deriving DecidableEq

def attempt : Except ε β → Except (Stop ε) β
  | .ok value => .ok value
  | .error e => .error (.raised e)

/-- The value that has been merged so far, the marked nodes, and the nodes that have been left. -/
structure Visit (α β : Type u) where
  value : β
  history : List α
  left : List α

section Visit

variable [DecidableEq α] (enter : α → Except ε (List κ × β)) (locate : α → κ → Except ε α)
  (merge : β → β → Except ε β) (empty : β)

/-- The successor that the key names is visited unless it is marked; `descend` is the visit. -/
def follow (descend : List α → α → Except (Stop ε) (Visit α β)) (a : α) (state : Visit α β)
    (key : κ) : Except (Stop ε) (Visit α β) := do
  let b ← attempt (locate a key)
  if b ∈ state.history then return state
  else
    let below ← descend (b :: state.history) b
    let value ← attempt (merge state.value below.value)
    return ⟨value, below.history, state.left ++ below.left⟩

def visit : Nat → List α → α → Except (Stop ε) (Visit α β)
  | 0, _, _ => .error .outOfFuel
  | fuel + 1, history, a => do
    let (keys, content) ← attempt (enter a)
    let state ← keys.foldlM (follow locate merge (visit fuel) a) ⟨empty, history, []⟩
    let value ← attempt (merge state.value content)
    return ⟨value, state.history, state.left ++ [a]⟩

end Visit

def Edge (enter : α → Except ε (List κ × β)) (locate : α → κ → Except ε α) (a b : α) : Prop :=
  ∃ keys content, enter a = .ok (keys, content) ∧ ∃ key ∈ keys, locate a key = .ok b

variable {enter : α → Except ε (List κ × β)} {locate : α → κ → Except ε α}
  {merge : β → β → Except ε β} {empty : β} {a b : α} {history history' new new' : List α}

/-! ## §2 What a visit adds -/

/-- The marks that are added below a node: new ones, of nodes that are reached from it, and all
successors of these are marked. -/
structure Adds (enter : α → Except ε (List κ × β)) (locate : α → κ → Except ε α) (a : α)
    (history history' new : List α) : Prop where
  eq : history' = new ++ history
  nodup : new.Nodup
  fresh : ∀ x ∈ new, x ∉ history
  reached : ∀ x ∈ new, TransGen (Edge enter locate) a x
  closed : ∀ x ∈ new, ∀ b, Edge enter locate x b → b ∈ history'

theorem Adds.nil (a : α) (history : List α) : Adds enter locate a history history [] where
  eq := rfl
  nodup := nodup_nil
  fresh _ hx := absurd hx not_mem_nil
  reached _ hx := absurd hx not_mem_nil
  closed _ hx := absurd hx not_mem_nil

theorem Adds.subset (h : Adds enter locate a history history' new) : history ⊆ history' := by
  rw [h.eq]
  exact subset_append_right new history

theorem Adds.trans {history'' : List α} (h : Adds enter locate a history history' new)
    (h' : Adds enter locate a history' history'' new') :
    Adds enter locate a history history'' (new' ++ new) where
  eq := by rw [h'.eq, h.eq, append_assoc]
  nodup := by
    refine nodup_append'.mpr ⟨h'.nodup, h.nodup, fun x hx' hx => ?_⟩
    exact h'.fresh x hx' (h.eq ▸ mem_append_left _ hx)
  fresh x hx hmem := by
    rcases mem_append.mp hx with hx | hx
    · exact h'.fresh x hx (h.subset hmem)
    · exact h.fresh x hx hmem
  reached x hx := (mem_append.mp hx).elim (h'.reached x) (h.reached x)
  closed x hx b hb := by
    rcases mem_append.mp hx with hx | hx
    · exact h'.closed x hx b hb
    · exact h'.subset (h.closed x hx b hb)

theorem Adds.below (h : Adds enter locate b (b :: history) history' new)
    (hedge : Edge enter locate a b) (hfresh : b ∉ history)
    (hclosed : ∀ c, Edge enter locate b c → c ∈ history') :
    Adds enter locate a history history' (new ++ [b]) where
  eq := by rw [h.eq, append_assoc, singleton_append]
  nodup := by
    refine nodup_append'.mpr ⟨h.nodup, nodup_singleton b, fun x hx hb => ?_⟩
    exact h.fresh x hx (mem_singleton.mp hb ▸ mem_cons_self)
  fresh x hx hmem := by
    rcases mem_append.mp hx with hx | hx
    · exact h.fresh x hx (mem_cons_of_mem b hmem)
    · exact hfresh (mem_singleton.mp hx ▸ hmem)
  reached x hx := by
    rcases mem_append.mp hx with hx | hx
    · exact .head hedge (h.reached x hx)
    · exact mem_singleton.mp hx ▸ .single hedge
  closed x hx c hc := by
    rcases mem_append.mp hx with hx | hx
    · exact h.closed x hx c hc
    · exact hclosed c (mem_singleton.mp hx ▸ hc)

theorem Adds.history_nodup (h : Adds enter locate a history history' new)
    (hhistory : history.Nodup) : history'.Nodup := by
  rw [h.eq]
  exact nodup_append'.mpr ⟨h.nodup, hhistory, fun x hx => h.fresh x hx⟩

variable [DecidableEq α]

/-- What a visit has done: below its node it has left each node that it has marked. -/
def Visited (enter : α → Except ε (List κ × β)) (locate : α → κ → Except ε α) (a : α)
    (history : List α) (v : Visit α β) : Prop :=
  ∃ new, Adds enter locate a history v.history new ∧ v.left.Perm (a :: new) ∧
    ∀ b, Edge enter locate a b → b ∈ v.history

variable {state v : Visit α β} {key : κ}
  {descend : List α → α → Except (Stop ε) (Visit α β)}

theorem follow_spec (hdescend : ∀ history b v, descend history b = .ok v →
      Visited enter locate b history v)
    (hedge : ∀ b, locate a key = .ok b → Edge enter locate a b)
    (h : follow locate merge descend a state key = .ok v) :
    ∃ b new, locate a key = .ok b ∧ b ∈ v.history ∧
      Adds enter locate a state.history v.history new ∧ v.left.Perm (state.left ++ new) := by
  cases hlocate : locate a key with
  | error e => simp only [follow, hlocate, attempt, bind, Except.bind, reduceCtorEq] at h
  | ok b =>
    simp only [follow, hlocate, attempt, bind, Except.bind, pure, Except.pure] at h
    by_cases hmem : b ∈ state.history
    · rw [if_pos hmem] at h
      obtain rfl := Except.ok.inj h
      exact ⟨b, [], rfl, hmem, .nil a _, by rw [append_nil]⟩
    · rw [if_neg hmem] at h
      cases hvisit : descend (b :: state.history) b with
      | error e => simp only [hvisit, reduceCtorEq] at h
      | ok below =>
        cases hmerge : merge state.value below.value with
        | error e => simp only [hvisit, hmerge, reduceCtorEq] at h
        | ok value =>
          simp only [hvisit, hmerge, Except.ok.injEq] at h
          subst h
          obtain ⟨new, hadds, hleft, hclosed⟩ := hdescend _ _ _ hvisit
          refine ⟨b, new ++ [b], rfl, hadds.subset mem_cons_self,
            hadds.below (hedge b hlocate) hmem hclosed, ?_⟩
          have hperm : (b :: new).Perm (new ++ [b]) := (perm_append_singleton b new).symm
          exact (hleft.trans hperm).append_left state.left

theorem foldlM_follow_spec {keys : List κ} (hdescend : ∀ history b v,
      descend history b = .ok v → Visited enter locate b history v)
    (hedge : ∀ key ∈ keys, ∀ b, locate a key = .ok b → Edge enter locate a b)
    (h : keys.foldlM (follow locate merge descend a) state = .ok v) :
    ∃ new, Adds enter locate a state.history v.history new ∧
      v.left.Perm (state.left ++ new) ∧
      ∀ key ∈ keys, ∃ b, locate a key = .ok b ∧ b ∈ v.history := by
  induction keys generalizing state with
  | nil =>
    obtain rfl := Except.ok.inj h
    exact ⟨[], .nil a _, by rw [append_nil], fun _ hkey => absurd hkey not_mem_nil⟩
  | cons key keys ih =>
    rw [foldlM_cons] at h
    cases hfollow : follow locate merge descend a state key with
    | error e => simp only [hfollow, bind, Except.bind, reduceCtorEq] at h
    | ok next =>
      simp only [hfollow, bind, Except.bind] at h
      obtain ⟨b, new, hb, hmarked, hadds, hleft⟩ :=
        follow_spec hdescend (hedge key mem_cons_self) hfollow
      obtain ⟨new', hadds', hleft', hkeys⟩ :=
        ih (fun key hkey => hedge key (mem_cons_of_mem _ hkey)) h
      refine ⟨new' ++ new, hadds.trans hadds', ?_, ?_⟩
      · have happend : (next.left ++ new').Perm (state.left ++ (new ++ new')) := by
          rw [← append_assoc]
          exact hleft.append_right new'
        exact hleft'.trans (happend.trans (perm_append_comm.append_left state.left))
      · exact forall_mem_cons.mpr ⟨⟨b, hb, hadds'.subset hmarked⟩, hkeys⟩

theorem visit_spec (fuel : Nat) {history : List α}
    (h : visit enter locate merge empty fuel history a = .ok v) :
    Visited enter locate a history v := by
  induction fuel generalizing history a v with
  | zero => cases h
  | succ fuel ih =>
    rw [visit] at h
    cases henter : enter a with
    | error e => simp only [henter, attempt, bind, Except.bind, reduceCtorEq] at h
    | ok entered =>
      obtain ⟨keys, content⟩ := entered
      simp only [henter, attempt, bind, Except.bind, pure, Except.pure] at h
      cases hkeys : keys.foldlM
          (follow locate merge (visit enter locate merge empty fuel) a) ⟨empty, history, []⟩ with
      | error e => simp only [hkeys, reduceCtorEq] at h
      | ok state =>
        cases hmerge : merge state.value content with
        | error e => simp only [hkeys, hmerge, reduceCtorEq] at h
        | ok value =>
          simp only [hkeys, hmerge, Except.ok.injEq] at h
          subst h
          obtain ⟨new, hadds, hleft, hmarked⟩ := foldlM_follow_spec (fun _ _ _ => ih)
            (fun key hkey b hb => ⟨keys, content, henter, key, hkey, hb⟩) hkeys
          refine ⟨new, hadds, ?_, ?_⟩
          · exact (hleft.append_right [a]).trans (perm_append_singleton a new)
          · rintro b ⟨keys', content', henter', key, hkey, hb⟩
            obtain ⟨rfl, -⟩ := Prod.mk.inj (Except.ok.inj (henter.symm.trans henter'))
            obtain ⟨c, hc, hmem⟩ := hmarked key hkey
            exact Except.ok.inj (hc.symm.trans hb) ▸ hmem

/-! ## §3 Visits that end -/

/-- A node from which the visit can go on, with a content that can be merged. -/
def Ready (enter : α → Except ε (List κ × β)) (locate : α → κ → Except ε α) (good : β → Prop)
    (a : α) : Prop :=
  ∃ keys content, enter a = .ok (keys, content) ∧ good content ∧
    ∀ key ∈ keys, ∃ b, locate a key = .ok b

variable {good : β → Prop} {support : List α}

omit [DecidableEq α] in
theorem mem_support_of_reached (hclosed : ∀ a ∈ support, ∀ b, Edge enter locate a b → b ∈ support)
    (ha : a ∈ support) (h : TransGen (Edge enter locate) a b) : b ∈ support := by
  induction h with
  | single hedge => exact hclosed a ha _ hedge
  | tail _ hedge ih => exact hclosed _ ih _ hedge

omit [DecidableEq α] in
theorem Adds.subset_support (h : Adds enter locate a history history' new)
    (hclosed : ∀ a ∈ support, ∀ b, Edge enter locate a b → b ∈ support) (ha : a ∈ support)
    (hhistory : history ⊆ support) : history' ⊆ support := by
  rw [h.eq]
  exact append_subset.mpr
    ⟨fun x hx => mem_support_of_reached hclosed ha (h.reached x hx), hhistory⟩

theorem exists_foldlM_follow {keys : List κ} (state : Visit α β)
    (hmerge : ∀ x y, good x → good y → ∃ z, merge x y = .ok z ∧ good z)
    (hclosed : ∀ a ∈ support, ∀ b, Edge enter locate a b → b ∈ support) (ha : a ∈ support)
    (hkeys : ∀ key ∈ keys, ∃ b, locate a key = .ok b ∧ Edge enter locate a b)
    (hdescend : ∀ history b v, descend history b = .ok v → Visited enter locate b history v)
    (hvisit : ∀ history b, b ∈ support → history.Nodup → history ⊆ support →
      state.history.length < history.length → ∃ v, descend history b = .ok v ∧ good v.value)
    (hgood : good state.value) (hnodup : state.history.Nodup) (hinside : state.history ⊆ support) :
    ∃ v, keys.foldlM (follow locate merge descend a) state = .ok v ∧ good v.value := by
  induction keys generalizing state with
  | nil => exact ⟨state, rfl, hgood⟩
  | cons key keys ih =>
    obtain ⟨⟨b, hb, hedge⟩, hrest⟩ := forall_mem_cons.mp hkeys
    have hone : ∀ c, locate a key = .ok c → Edge enter locate a c := fun c hc => by
      rwa [← Except.ok.inj (hb.symm.trans hc)]
    have hnext : ∃ next, follow locate merge descend a state key = .ok next ∧ good next.value := by
      by_cases hmem : b ∈ state.history
      · refine ⟨state, ?_, hgood⟩
        simp only [follow, hb, attempt, bind, Except.bind, if_pos hmem, pure, Except.pure]
      · have hbsupport := hclosed a ha b hedge
        obtain ⟨below, hbelow, hvalue⟩ := hvisit (b :: state.history) b hbsupport
          (nodup_cons.mpr ⟨hmem, hnodup⟩) (cons_subset.mpr ⟨hbsupport, hinside⟩)
          (Nat.lt_succ_self _)
        obtain ⟨value, hmerged, hvalue'⟩ := hmerge _ _ hgood hvalue
        refine ⟨⟨value, below.history, state.left ++ below.left⟩, ?_, hvalue'⟩
        simp only [follow, hb, attempt, bind, Except.bind, if_neg hmem, hbelow, hmerged, pure,
          Except.pure]
    obtain ⟨next, hfollow, hvalue⟩ := hnext
    obtain ⟨c, new, -, -, hadds, -⟩ := follow_spec hdescend hone hfollow
    rw [foldlM_cons, hfollow]
    refine ih _ hrest (fun history b hb hnodup hinside hlength => ?_) hvalue
      (hadds.history_nodup hnodup) (hadds.subset_support hclosed ha hinside)
    refine hvisit history b hb hnodup hinside (Nat.lt_of_le_of_lt ?_ hlength)
    rw [hadds.eq, length_append]
    exact Nat.le_add_left _ _

theorem exists_visit (hempty : good empty) (hmerge : ∀ x y, good x → good y →
      ∃ z, merge x y = .ok z ∧ good z)
    (hclosed : ∀ a ∈ support, ∀ b, Edge enter locate a b → b ∈ support)
    (hready : ∀ a ∈ support, Ready enter locate good a) (fuel : Nat) :
    ∀ history a, a ∈ support → history.Nodup → history ⊆ support →
      support.length < fuel + history.length →
      ∃ v, visit enter locate merge empty fuel history a = .ok v ∧ good v.value := by
  induction fuel with
  | zero =>
    intro history a _ hnodup hinside hfuel
    have hle := (subperm_of_subset hnodup hinside).length_le
    omega
  | succ fuel ih =>
    intro history a ha hnodup hinside hfuel
    obtain ⟨keys, content, henter, hcontent, hkeys⟩ := hready a ha
    have hedges : ∀ key ∈ keys, ∃ b, locate a key = .ok b ∧ Edge enter locate a b := by
      intro key hkey
      obtain ⟨b, hb⟩ := hkeys key hkey
      exact ⟨b, hb, keys, content, henter, key, hkey, hb⟩
    have hvisit : ∀ history' b, b ∈ support → history'.Nodup → history' ⊆ support →
        history.length < history'.length →
        ∃ v, visit enter locate merge empty fuel history' b = .ok v ∧ good v.value := by
      intro history' b hb hnodup hinside hlength
      exact ih history' b hb hnodup hinside (by omega)
    obtain ⟨state, hstate, hvalue⟩ := exists_foldlM_follow ⟨empty, history, []⟩ hmerge
      hclosed ha hedges (fun _ _ _ => visit_spec fuel) hvisit hempty hnodup hinside
    obtain ⟨value, hmerged, hgood⟩ := hmerge _ _ hvalue hcontent
    refine ⟨⟨value, state.history, state.left ++ [a]⟩, ?_, hgood⟩
    simp only [visit, henter, attempt, bind, Except.bind, hstate, hmerged, pure, Except.pure]

/-! ## §4 Objects and their nodes -/

variable {root : α}

theorem mem_left_iff {fuel : Nat} (h : visit enter locate merge empty fuel [root] root = .ok v) :
    v.left.Nodup ∧ ∀ x, x ∈ v.left ↔ ReflTransGen (Edge enter locate) root x := by
  obtain ⟨new, hadds, hleft, hmarked⟩ := visit_spec fuel h
  have hroot : root ∉ new := fun hmem => hadds.fresh root hmem mem_cons_self
  refine ⟨hleft.nodup_iff.mpr (nodup_cons.mpr ⟨hroot, hadds.nodup⟩), fun x => ?_⟩
  rw [hleft.mem_iff, mem_cons]
  constructor
  · rintro (rfl | hx)
    · exact .refl
    · exact (hadds.reached x hx).to_reflTransGen
  · intro hreached
    induction hreached with
    | refl => exact Or.inl rfl
    | tail _ hedge ih =>
      -- the marks are closed under successors
      have hmem : _ ∈ v.history := ih.elim (fun hb => hmarked _ (hb ▸ hedge))
        fun hb => hadds.closed _ hb _ hedge
      rw [hadds.eq, mem_append, mem_singleton] at hmem
      exact hmem.symm

theorem injOn_of_visit_once [BEq ι] [LawfulBEq ι] {object : α → ι} {fuel : Nat}
    (hvisit : visit enter locate merge empty fuel [root] root = .ok v)
    (honce : ∀ x, ReflTransGen (Edge enter locate) root x →
      (v.left.map object).count (object x) = 1) :
    Set.InjOn object {x | ReflTransGen (Edge enter locate) root x} := by
  intro x hx y hy hxy
  obtain ⟨-, hmem⟩ := mem_left_iff hvisit
  by_contra hne
  -- two nodes of one object are left
  have hpair : [x, y].Subperm v.left := by
    refine subperm_of_subset (by simp [hne]) ?_
    simp [(hmem x).mpr hx, (hmem y).mpr hy]
  obtain ⟨part, hperm, hsublist⟩ := hpair
  have hcount : (part.map object).count (object x) ≤ (v.left.map object).count (object x) :=
    (hsublist.map object).count_le _
  rw [honce x hx, (hperm.map object).count_eq, map_cons, map_singleton, ← hxy,
    count_cons_self, count_singleton_self] at hcount
  exact Nat.not_succ_le_self 1 hcount

/-- A visit ends, and leaves each object that is reached once, exactly where no object is reached as
two nodes. There are finitely many objects. -/
theorem visit_once_iff [Finite ι] [BEq ι] [LawfulBEq ι] (object : α → ι) (hempty : good empty)
    (hmerge : ∀ x y, good x → good y → ∃ z, merge x y = .ok z ∧ good z)
    (hready : ∀ x, ReflTransGen (Edge enter locate) root x → Ready enter locate good x) :
    (∃ fuel v, visit enter locate merge empty fuel [root] root = .ok v ∧
      ∀ x, ReflTransGen (Edge enter locate) root x → (v.left.map object).count (object x) = 1) ↔
    Set.InjOn object {x | ReflTransGen (Edge enter locate) root x} := by
  constructor
  · rintro ⟨fuel, v, hvisit, honce⟩
    exact injOn_of_visit_once hvisit honce
  · intro hinj
    have hfinite : {x | ReflTransGen (Edge enter locate) root x}.Finite :=
      Set.Finite.of_finite_image (Set.toFinite _) hinj
    have hsupport : ∀ x, x ∈ hfinite.toFinset.toList ↔ ReflTransGen (Edge enter locate) root x := by
      intro x
      rw [Finset.mem_toList, Set.Finite.mem_toFinset, Set.mem_ofPred_eq]
    obtain ⟨v, hvisit, -⟩ := exists_visit hempty hmerge
      (fun x hx b hedge => (hsupport b).mpr (((hsupport x).mp hx).tail hedge))
      (fun x hx => hready x ((hsupport x).mp hx)) hfinite.toFinset.toList.length [root] root
      ((hsupport root).mpr .refl) (nodup_singleton root)
      (cons_subset.mpr ⟨(hsupport root).mpr .refl, nil_subset _⟩) (Nat.lt_succ_self _)
    refine ⟨_, v, hvisit, fun x hx => ?_⟩
    obtain ⟨hnodup, hmem⟩ := mem_left_iff hvisit
    apply count_eq_one_of_mem
    · refine List.Nodup.map_on (fun x hx y hy => ?_) hnodup
      exact hinj ((hmem x).mp hx) ((hmem y).mp hy)
    · exact mem_map_of_mem ((hmem x).mpr hx)

end Ace3.Lib.PostOrder
