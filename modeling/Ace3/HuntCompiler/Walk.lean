import Mathlib.Data.Finset.Card
import Mathlib.Data.Set.Finite.List
import Mathlib.Order.Filter.AtTopBot.Basic
import Mathlib.Order.Filter.Finite
import Ace3.HuntCompiler.References

/-!
# The Walk Through a Package

The walk of the compiler from the target comes to an end, and then everything referenced is
recorded.
-/

namespace Ace3.HuntCompiler.HuntSource

open List
open Filter Lib.FileSystem

variable (source : HuntSource) (target : Location)

/-! ## §1 What is known of a state -/

/-- A reference was dealt with: the document was begun, any other file was recorded. -/
def Handled (state : CompileState) (role : Role) (location : Location) : Prop :=
  if role = .yaml then location ∈ state.history
  else (source.tree.file? location).isSome → state.assets.contains (source.rel location)

def Complete (state : CompileState) (role : Role) (location : Location) : Prop :=
  ∀ role' authored, ⟨role', .str authored⟩ ∈ source.referencesIn role location →
    source.Handled state role' (absRelativeTo authored (dirname location))

/-- A document is recorded, and what it refers to was dealt with. -/
def Finished (state : CompileState) (location : Location) : Prop :=
  (∃ file ∈ state.assets.files, source.embed .yaml location = some file) ∧
    source.Complete state .yaml location

structure Invariant (state : CompileState) : Prop where
  embedded : ∀ file ∈ state.assets.files, ∃ role location,
    source.Referenced target role location ∧ source.embed role location = some file
  closed : ∀ role location, role ≠ .yaml → ∀ file ∈ state.assets.files,
    source.embed role location = some file → source.Complete state role location

/-! ## §2 What a part of the walk does -/

structure Grows (state state' : CompileState) : Prop where
  history : state.history ⊆ state'.history
  contains : ∀ path, state.assets.contains path → state'.assets.contains path
  documents : ∀ file ∈ state.assets.files, file.kind = .yaml → file ∈ state'.assets.files
  finished : ∀ location ∈ state'.history, location ∉ state.history →
    source.Finished state' location

variable {source target} {state state' state'' : CompileState} {role : Role} {location : Location}

theorem Grows.refl (state : CompileState) : source.Grows state state where
  history := List.Subset.refl _
  contains _ h := h
  documents _ h _ := h
  finished _ h h' := absurd h h'

theorem Handled.mono (h : source.Handled state role location)
    (hhistory : state.history ⊆ state'.history)
    (hcontains : ∀ path, state.assets.contains path → state'.assets.contains path) :
    source.Handled state' role location := by
  unfold Handled at h ⊢
  split at h
  · next hrole =>
    rw [if_pos hrole]
    exact hhistory h
  · next hrole =>
    rw [if_neg hrole]
    exact fun hfile => hcontains _ (h hfile)

theorem Complete.mono (h : source.Complete state role location)
    (hhistory : state.history ⊆ state'.history)
    (hcontains : ∀ path, state.assets.contains path → state'.assets.contains path) :
    source.Complete state' role location := fun role' authored href =>
  (h role' authored href).mono hhistory hcontains

theorem Finished.mono (h : source.Finished state location) (hgrows : source.Grows state state') :
    source.Finished state' location := by
  obtain ⟨⟨file, hfile, hembed⟩, hcomplete⟩ := h
  have hkind := (kind_path_of_embed hembed).1
  exact ⟨⟨file, hgrows.documents file hfile hkind, hembed⟩,
    hcomplete.mono hgrows.history hgrows.contains⟩

theorem Grows.trans (h : source.Grows state state') (h' : source.Grows state' state'') :
    source.Grows state state'' where
  history := List.Subset.trans h.history h'.history
  contains path hpath := h'.contains path (h.contains path hpath)
  documents file hfile hkind := h'.documents file (h.documents file hfile hkind) hkind
  finished location hlast hfirst := by
    by_cases hmiddle : location ∈ state'.history
    · exact (h.finished location hmiddle hfirst).mono h'
    · exact h'.finished location hlast hmiddle

/-! ## §3 Recording a file -/

theorem eq_of_embed_path {file other : EmbeddedFile} {location' : Location} {role' : Role}
    (hembed : source.embed role location = some file)
    (hembed' : source.embed role' location' = some other) (hkind : other.kind = file.kind)
    (hpath : other.path = file.path) : other = file := by
  obtain ⟨hkind₁, hpath₁⟩ := kind_path_of_embed hembed
  obtain ⟨hkind₂, hpath₂⟩ := kind_path_of_embed hembed'
  have hrole : role' = role := hkind₂.symm.trans (hkind.trans hkind₁)
  have hlocation : location' = location :=
    rel_injective (hpath₂.symm.trans (hpath.trans hpath₁))
  rw [hrole, hlocation] at hembed'
  exact Option.some.inj (hembed'.symm.trans hembed)

theorem grows_record {file : EmbeddedFile}
    (h : ∀ other ∈ state.assets.files, other.kind = .yaml → other.path = file.path →
      other = file) :
    source.Grows state (record state file) where
  history := List.Subset.refl _
  contains _ := Assets.contains_put file
  documents other hother hkind := by
    by_cases hpath : other.path = file.path
    · rw [h other hother hkind hpath]
      exact Assets.mem_put_self _ _
    · exact Assets.mem_put_of_ne hother hpath
  finished _ hlast hfirst := absurd hlast hfirst

theorem Invariant.record {file : EmbeddedFile} (h : source.Invariant target state)
    (href : source.Referenced target role location)
    (hembed : source.embed role location = some file)
    (hcomplete : role ≠ .yaml → source.Complete state role location) :
    source.Invariant target (record state file) where
  embedded other hother := by
    rcases Assets.eq_or_mem_of_mem_put hother with rfl | hother
    · exact ⟨role, location, href, hembed⟩
    · exact h.embedded other hother
  closed role' location' hrole other hother hembed' := by
    have hmono : source.Complete state role' location' →
        source.Complete (HuntSource.record state file) role' location' := fun hbefore =>
      hbefore.mono (List.Subset.refl _) fun _ => Assets.contains_put file
    rcases Assets.eq_or_mem_of_mem_put hother with rfl | hother
    · -- the new file is the embedding of this location in this role only
      obtain ⟨hkind₁, hpath₁⟩ := kind_path_of_embed hembed
      obtain ⟨hkind₂, hpath₂⟩ := kind_path_of_embed hembed'
      obtain rfl : role = role' := hkind₁.symm.trans hkind₂
      obtain rfl : location = location' := rel_injective (hpath₁.symm.trans hpath₂)
      exact hmono (hcomplete hrole)
    · exact hmono (h.closed role' location' hrole other hother hembed')

theorem Invariant.exists_embed (h : source.Invariant target state)
    (hcontains : state.assets.contains (source.rel location)) :
    ∃ file ∈ state.assets.files, ∃ role, source.Referenced target role location ∧
      source.embed role location = some file := by
  obtain ⟨file, hfile, hpath⟩ := Assets.contains_iff.mp hcontains
  obtain ⟨role, location', href, hembed⟩ := h.embedded file hfile
  obtain rfl : location' = location :=
    rel_injective ((kind_path_of_embed hembed).2.symm.trans hpath)
  exact ⟨file, hfile, role, href, hembed⟩

/-! ## §4 One reference after the other -/

def unvisited (source : HuntSource) (state : CompileState) : Nat :=
  ((source.tree.map (·.1)).toFinset \ state.history.toFinset).card

theorem unvisited_le (h : state.history ⊆ state'.history) :
    source.unvisited state' ≤ source.unvisited state := by
  refine Finset.card_le_card (Finset.sdiff_subset_sdiff (Finset.Subset.refl _) ?_)
  exact fun location hlocation => mem_toFinset.mpr (h (mem_toFinset.mp hlocation))

theorem unvisited_begin {file : SourceFile} (hfile : source.tree.file? location = some file)
    (h : location ∉ state.history) :
    source.unvisited { state with history := location :: state.history } <
      source.unvisited state := by
  unfold unvisited
  rw [toFinset_cons, Finset.sdiff_insert]
  refine Finset.card_erase_lt_of_mem (Finset.mem_sdiff.mpr ⟨?_, ?_⟩)
  · obtain ⟨entry, hentry, _⟩ := Option.map_eq_some_iff.mp hfile
    have hkey : entry.1 = location := by simpa using List.find?_some hentry
    exact mem_toFinset.mpr (mem_map.mpr ⟨entry, List.mem_of_find?_eq_some hentry, hkey⟩)
  · exact fun hmem => h (mem_toFinset.mp hmem)

/-- A part of the walk deals with a reference, while fewer documents than a bound are unvisited. -/
def Settles (source : HuntSource) (target : Location) (bound : Nat) (role : Role)
    (location : Location) (run : CompileState → Except CompileError CompileState) : Prop :=
  ∀ state, source.Invariant target state → source.unvisited state < bound →
    ∃ state', run state = .ok state' ∧ source.Invariant target state' ∧
      source.Grows state state' ∧ source.Handled state' role location

variable {bound : Nat}
  {add : Role → Location → CompileState → Except CompileError CompileState}

theorem foldlM_register (hregular : source.Regular target)
    (href : source.Referenced target role location) {references : List Reference}
    (hsub : ∀ reference ∈ references, reference ∈ source.referencesIn role location)
    (hadd : ∀ role' authored, ⟨role', .str authored⟩ ∈ references →
      source.Settles target bound role' (absRelativeTo authored (dirname location))
        (add role' (absRelativeTo authored (dirname location))))
    (hinv : source.Invariant target state) (hbound : source.unvisited state < bound) :
    ∃ state', references.foldlM (source.register add (dirname location)) state = .ok state' ∧
      source.Invariant target state' ∧ source.Grows state state' ∧
      ∀ role' authored, ⟨role', .str authored⟩ ∈ references →
        source.Handled state' role' (absRelativeTo authored (dirname location)) := by
  induction references generalizing state with
  | nil => exact ⟨state, rfl, hinv, Grows.refl state, fun _ _ h => absurd h not_mem_nil⟩
  | cons reference references ih =>
    obtain ⟨authored, hauthored⟩ := hregular.paths href reference (hsub _ mem_cons_self)
    obtain ⟨role', value⟩ := reference
    obtain rfl : value = .str authored := hauthored
    -- the first reference is inside the root
    have hfirst := hsub _ mem_cons_self
    have hinside := hregular.inside (Referenced.step href hfirst)
    obtain ⟨state₁, hrun₁, hinv₁, hgrows₁, hhandled₁⟩ :=
      hadd role' authored mem_cons_self state hinv hbound
    -- the others
    have hbound₁ : source.unvisited state₁ < bound :=
      lt_of_le_of_lt (unvisited_le hgrows₁.history) hbound
    obtain ⟨state₂, hrun₂, hinv₂, hgrows₂, hhandled₂⟩ := ih
      (fun other hother => hsub other (mem_cons_of_mem _ hother))
      (fun other text hother => hadd other text (mem_cons_of_mem _ hother)) hinv₁ hbound₁
    refine ⟨state₂, ?_, hinv₂, hgrows₁.trans hgrows₂, ?_⟩
    · rw [foldlM_cons]
      simp only [register, hinside, if_true]
      rw [hrun₁]
      exact hrun₂
    · intro other text hother
      rcases mem_cons.mp hother with heq | hother
      · cases heq
        exact hhandled₁.mono hgrows₂.history hgrows₂.contains
      · exact hhandled₂ other text hother

theorem processYaml_settles (hregular : source.Regular target)
    (href : source.Referenced target .yaml location)
    (hadd : ∀ {role location}, source.Referenced target role location →
      source.Settles target bound role location (add role location)) :
    source.Settles target (bound + 1) .yaml location (source.processYaml add location) := by
  intro state hinv hbound
  unfold processYaml
  by_cases hbegun : location ∈ state.history
  · exact ⟨state, if_pos hbegun, hinv, Grows.refl state, by rwa [Handled, if_pos rfl]⟩
  · obtain ⟨parsed, hdocument⟩ := Option.isSome_iff_exists.mp (hregular.documents href)
    obtain ⟨raw, hraw, hparsed⟩ := Option.bind_eq_some_iff.mp hdocument
    obtain ⟨_, _, hfile, _⟩ := exists_file_of_readText hraw
    -- the walk through the references starts with the document among those begun
    have hbegin := unvisited_begin hfile hbegun
    have hinv₁ : source.Invariant target
        { state with history := location :: state.history } :=
      { embedded := hinv.embedded
        closed := fun role' location' hrole file hmem hembed =>
          (hinv.closed role' location' hrole file hmem hembed).mono
            (subset_cons_self _ _) fun _ h => h }
    have hreferences : source.referencesIn .yaml location = documentReferences parsed := by
      simp only [referencesIn, yamlReferences, hdocument]
    have hsub : ∀ reference ∈ documentReferences parsed,
        reference ∈ source.referencesIn .yaml location := fun _ h => hreferences ▸ h
    obtain ⟨state₂, hrun, hinv₂, hgrows₂, hhandled₂⟩ := foldlM_register hregular href hsub
      (fun role' authored h => hadd (Referenced.step href (hsub _ h))) hinv₁
      (lt_of_lt_of_le hbegin (Nat.lt_succ_iff.mp hbound))
    -- the document is recorded, and no other one was at its path
    have hembed := embed_yaml hraw hparsed
    have hgrows₃ : source.Grows state₂ (record state₂ (source.yamlAsset location raw parsed)) := by
      refine grows_record fun other hother hkind hpath => ?_
      obtain ⟨role', location', _, hembed'⟩ := hinv₂.embedded other hother
      exact eq_of_embed_path hembed hembed' hkind hpath
    have hcomplete : source.Complete
        (record state₂ (source.yamlAsset location raw parsed)) .yaml location := by
      intro role' authored hmem
      exact (hhandled₂ role' authored (hreferences ▸ hmem)).mono hgrows₃.history hgrows₃.contains
    refine ⟨record state₂ (source.yamlAsset location raw parsed), ?_,
      hinv₂.record href hembed fun h => absurd rfl h, ?_, ?_⟩
    · rw [if_neg hbegun]
      simp only [hregular.inside href, Bool.not_true, Bool.false_eq_true, if_false, hraw, hparsed,
        hrun]
    · refine
        { history := fun other hother => hgrows₂.history (mem_cons_of_mem _ hother)
          contains := fun path h => hgrows₃.contains path (hgrows₂.contains path h)
          documents := fun file hmem hkind =>
            hgrows₃.documents file (hgrows₂.documents file hmem hkind) hkind
          finished := ?_ }
      intro other hlast hfirst
      by_cases hother : other = location
      · rw [hother]
        exact ⟨⟨_, Assets.mem_put_self _ _, hembed⟩, hcomplete⟩
      · have hnot : other ∉ location :: state.history := fun h =>
          (mem_cons.mp h).elim hother hfirst
        exact (hgrows₂.finished other hlast hnot).mono hgrows₃
    · rw [Handled, if_pos rfl]
      exact hgrows₂.history mem_cons_self

theorem Role.IsQuery.ne_yaml (h : role.IsQuery) : role ≠ .yaml := by
  rcases h with rfl | rfl <;> decide

theorem handled_of_contains (hrole : role ≠ .yaml)
    (h : (source.tree.file? location).isSome → state.assets.contains (source.rel location)) :
    source.Handled state role location := by
  rwa [Handled, if_neg hrole]

theorem addQueryFile_settles (hregular : source.Regular target)
    (href : source.Referenced target role location) (hrole : role.IsQuery)
    (hadd : ∀ authored, ⟨.queryInclude, .str authored⟩ ∈ source.queryReferences location →
      source.Settles target bound .queryInclude (absRelativeTo authored (dirname location))
        (add .queryInclude (absRelativeTo authored (dirname location)))) :
    source.Settles target bound role location (source.addQueryFile role add location) := by
  intro state hinv hbound
  have hne := Role.IsQuery.ne_yaml hrole
  unfold addQueryFile
  cases hfile : source.tree.file? location with
  | none =>
    refine ⟨state, rfl, hinv, Grows.refl state, handled_of_contains hne fun h => ?_⟩
    rw [hfile] at h
    cases h
  | some file =>
    by_cases hcontains : state.assets.contains (source.rel location)
    · exact ⟨state, if_pos hcontains, hinv, Grows.refl state,
        handled_of_contains hne fun _ => hcontains⟩
    · obtain ⟨text, htext⟩ := Option.isSome_iff_exists.mp (hregular.queries href hrole hfile)
      have hreferences : source.queryReferences location =
          (rewriteQueryIncludes text).references := by
        simp only [queryReferences, htext]
      have hsub : ∀ reference ∈ (rewriteQueryIncludes text).references,
          reference ∈ source.referencesIn role location := by
        rw [referencesIn_of_isQuery hrole, hreferences]
        exact fun _ h => h
      obtain ⟨state₂, hrun, hinv₂, hgrows₂, hhandled₂⟩ := foldlM_register hregular href hsub
        (fun role' authored h => by
          obtain ⟨_, heq⟩ := eq_queryInclude_of_mem hrole (hsub _ h)
          cases heq
          exact hadd authored (hreferences ▸ h)) hinv hbound
      -- no document is at the path of a query
      have hembed := embed_of_isQuery hrole htext
      have hgrows₃ : source.Grows state₂
          (record state₂ (source.queryAsset role location text)) := by
        refine grows_record fun other hother hkind hpath => ?_
        obtain ⟨role', location', href', hembed'⟩ := hinv₂.embedded other hother
        obtain ⟨hkind', hpath'⟩ := kind_path_of_embed hembed'
        obtain rfl : .yaml = role' := hkind.symm.trans hkind'
        obtain rfl : location' = location := rel_injective (hpath'.symm.trans hpath)
        exact absurd href' (hregular.roles href hrole).1
      have hcomplete : source.Complete state₂ role location := by
        intro role' authored hmem
        rw [referencesIn_of_isQuery hrole, hreferences] at hmem
        exact hhandled₂ role' authored hmem
      refine ⟨record state₂ (source.queryAsset role location text), ?_,
        hinv₂.record href hembed fun _ => hcomplete, hgrows₂.trans hgrows₃, ?_⟩
      · simp only [hcontains, Bool.false_eq_true, if_false, htext, hrun]
      · exact handled_of_contains hne fun _ =>
          Assets.contains_iff.mpr ⟨_, Assets.mem_put_self _ _, rfl⟩

theorem addFile_settles {asset : Location → SourceFile → EmbeddedFile}
    (href : source.Referenced target role location) (hrole : role ≠ .yaml)
    (hreferences : source.referencesIn role location = [])
    (hembed : source.embed role location = (source.tree.file? location).map (asset location)) :
    source.Settles target bound role location fun state =>
      .ok (source.addFile asset location state) := by
  intro state hinv _
  cases hfile : source.tree.file? location with
  | none =>
    refine ⟨state, by simp only [addFile, hfile], hinv, Grows.refl state, ?_⟩
    refine handled_of_contains hrole fun h => ?_
    rw [hfile] at h
    cases h
  | some file =>
    rw [hfile] at hembed
    obtain ⟨_, hpath⟩ := kind_path_of_embed hembed
    by_cases hcontains : state.assets.contains (source.rel location)
    · refine ⟨state, by simp only [addFile, hfile, hcontains, if_true], hinv, Grows.refl state, ?_⟩
      exact handled_of_contains hrole fun _ => hcontains
    · have hgrows : source.Grows state (record state (asset location file)) := by
        refine grows_record fun other hother _ heq => absurd ?_ hcontains
        exact Assets.contains_iff.mpr ⟨other, hother, heq.trans hpath⟩
      have hcomplete : source.Complete state role location := fun role' authored hmem => by
        rw [hreferences] at hmem
        cases hmem
      refine ⟨record state (asset location file), ?_, hinv.record href hembed fun _ => hcomplete,
        hgrows, handled_of_contains hrole fun _ => ?_⟩
      · simp only [addFile, hfile, hcontains, Bool.false_eq_true, if_false]
      · exact Assets.contains_iff.mpr ⟨_, Assets.mem_put_self _ _, hpath⟩

/-! ## §5 The budget that is enough -/

theorem eventually_of_succ {p : Nat → Prop} (h : ∀ᶠ budget in atTop, p (budget + 1)) :
    ∀ᶠ budget in atTop, p budget := by
  rw [← map_add_atTop_eq_nat 1]
  exact h

theorem eventually_settles_query (hregular : source.Regular target)
    (href : source.Referenced target role location) (hrole : role.IsQuery) :
    ∀ᶠ budget in atTop, ∀ bound,
      source.Settles target bound role location (source.addAsset budget role location) := by
  induction hregular.acyclic href hrole generalizing role with
  | intro location _ ih =>
    -- all of the finitely many included files at once
    have hincluded : ∀ᶠ budget in atTop, ∀ reference ∈ {r | r ∈ source.queryReferences location},
        ∀ authored, reference = ⟨.queryInclude, .str authored⟩ → ∀ bound,
          source.Settles target bound .queryInclude (absRelativeTo authored (dirname location))
            (source.addAsset budget .queryInclude (absRelativeTo authored (dirname location))) := by
      refine (eventually_all_finite (finite_toSet _)).mpr fun reference hmem => ?_
      obtain ⟨authored, rfl⟩ := eq_queryInclude_of_mem (Or.inl rfl) hmem
      have hmem' := hmem
      rw [Set.mem_ofPred_eq, ← referencesIn_of_isQuery hrole] at hmem'
      refine (ih _ ⟨authored, hmem, rfl⟩ (Referenced.step href hmem') (.inr rfl)).mono ?_
      intro budget hbudget authored' heq
      cases heq
      exact hbudget
    refine eventually_of_succ (hincluded.mono fun budget hbudget bound => ?_)
    have hadd := addQueryFile_settles hregular href hrole fun authored hmem =>
      hbudget _ hmem authored rfl bound
    rcases hrole with rfl | rfl
    · exact hadd
    · exact hadd

theorem queryReferences_eq_nil (h : location ∉ source.tree.map (·.1)) :
    source.queryReferences location = [] := by
  have hnone : source.tree.readText location = none := by
    have hfile : source.tree.file? location = none := by
      refine Option.map_eq_none_iff.mpr (List.find?_eq_none.mpr fun entry hentry heq => h ?_)
      exact mem_map.mpr ⟨entry, hentry, of_decide_eq_true heq⟩
    simp only [SourceTree.readText, hfile]
  simp only [queryReferences, hnone]

theorem eventually_settles_queries (hregular : source.Regular target) (hrole : role.IsQuery) :
    ∀ᶠ budget in atTop, ∀ {location}, source.Referenced target role location → ∀ bound,
      source.Settles target bound role location (source.addAsset budget role location) := by
  have htree : ∀ᶠ budget in atTop, ∀ location ∈ {l | l ∈ source.tree.map (·.1)},
      source.Referenced target role location → ∀ bound,
        source.Settles target bound role location (source.addAsset budget role location) := by
    refine (eventually_all_finite (finite_toSet _)).mpr fun location _ => ?_
    by_cases href : source.Referenced target role location
    · exact (eventually_settles_query hregular href hrole).mono fun _ h _ => h
    · exact Eventually.of_forall fun _ h => absurd h href
  refine (htree.and (eventually_gt_atTop 0)).mono ?_
  intro budget ⟨hbudget, hpos⟩ location href bound
  by_cases hlocation : location ∈ source.tree.map (·.1)
  · exact hbudget location hlocation href bound
  · obtain ⟨before, rfl⟩ := Nat.exists_eq_succ_of_ne_zero hpos.ne'
    have hadd : source.Settles target bound role location
        (source.addQueryFile role (source.addAsset before) location) :=
      addQueryFile_settles hregular href hrole fun authored hmem => by
        rw [queryReferences_eq_nil hlocation] at hmem
        cases hmem
    rcases hrole with rfl | rfl
    · exact hadd
    · exact hadd

theorem eventually_settles_others (hregular : source.Regular target) :
    ∀ᶠ budget in atTop, ∀ {role location}, source.Referenced target role location →
      role ≠ .yaml → ∀ bound,
        source.Settles target bound role location (source.addAsset budget role location) := by
  refine ((eventually_settles_queries hregular (.inl rfl)).and
    ((eventually_settles_queries hregular (.inr rfl)).and (eventually_gt_atTop 0))).mono ?_
  intro budget ⟨hquery, hinclude, hpos⟩ role location href hrole bound
  obtain ⟨before, rfl⟩ := Nat.exists_eq_succ_of_ne_zero hpos.ne'
  cases role with
  | yaml => exact absurd rfl hrole
  | query => exact hquery href bound
  | queryInclude => exact hinclude href bound
  | executable => exact addFile_settles href hrole rfl rfl
  | support => exact addFile_settles href hrole rfl rfl

theorem eventually_settles (hregular : source.Regular target) (bound : Nat) :
    ∀ᶠ budget in atTop, ∀ {role location}, source.Referenced target role location →
      source.Settles target bound role location (source.addAsset budget role location) := by
  induction bound with
  | zero => exact Eventually.of_forall fun _ _ _ _ _ _ h => absurd h (Nat.not_lt_zero _)
  | succ bound ih =>
    refine eventually_of_succ ?_
    have hothers := (tendsto_add_atTop_nat 1).eventually (eventually_settles_others hregular)
    refine (ih.and hothers).mono ?_
    intro budget ⟨hdocuments, hothers⟩ role location href
    by_cases hrole : role = .yaml
    · subst hrole
      exact processYaml_settles hregular href hdocuments
    · exact hothers href hrole (bound + 1)

/-! ## §6 The whole walk -/

theorem role_of_query (hregular : source.Regular target) {role' : Role}
    (href : source.Referenced target role location) (hrole : role.IsQuery)
    (href' : source.Referenced target role' location) :
    role'.IsQuery ∨ role' = .support ∧ source.queryReferences location = [] := by
  obtain ⟨hyaml, hsupport⟩ := hregular.roles href hrole
  cases role' with
  | yaml => exact absurd href' hyaml
  | query => exact .inl (.inl rfl)
  | queryInclude => exact .inl (.inr rfl)
  | executable =>
    have hexecutable := hregular.executables href' href
    subst hexecutable
    rcases hrole with h | h <;> cases h
  | support => exact .inr ⟨rfl, hsupport href'⟩

theorem handled_of_referenced (hregular : source.Regular target)
    (hinv : source.Invariant target state) (htarget : target ∈ state.history)
    (hfinished : ∀ location ∈ state.history, source.Finished state location)
    (href : source.Referenced target role location) : source.Handled state role location := by
  induction href with
  | target => rwa [Handled, if_pos rfl]
  | @step role role' location authored before hmem ih =>
    cases role with
    | yaml =>
      rw [Handled, if_pos rfl] at ih
      exact (hfinished location ih).2 role' authored hmem
    | executable => cases hmem
    | support => cases hmem
    | query | queryInclude =>
      -- the query is there, so it is recorded, and what it includes was dealt with before
      rw [Handled, if_neg (by decide)] at ih
      have hmem' : _ ∈ source.queryReferences location := hmem
      have hfile : (source.tree.file? location).isSome := by
        unfold queryReferences at hmem'
        split at hmem'
        · next htext =>
          obtain ⟨_, _, hfile, _⟩ := exists_file_of_readText htext
          rw [hfile]
          rfl
        · cases hmem'
      obtain ⟨file, hin, role'', href', hembed⟩ := hinv.exists_embed (ih hfile)
      rcases role_of_query hregular before (by decide) href' with hquery | ⟨_, hnil⟩
      · refine hinv.closed role'' location (Role.IsQuery.ne_yaml hquery) file hin hembed role'
          authored ?_
        rwa [referencesIn_of_isQuery hquery]
      · rw [hnil] at hmem'
        cases hmem'

theorem eventually_walk (hregular : source.Regular target) :
    ∀ᶠ budget in atTop, ∃ state, source.addAsset budget .yaml target {} = .ok state ∧
      source.Invariant target state ∧
      (∀ {role location}, source.Referenced target role location →
        source.Handled state role location) ∧
      ∀ {location}, source.Referenced target .yaml location → source.Finished state location := by
  refine (eventually_settles hregular (source.unvisited {} + 1)).mono fun budget hbudget => ?_
  have hinit : source.Invariant target {} :=
    { embedded := fun _ h => absurd h not_mem_nil
      closed := fun _ _ _ _ h => absurd h not_mem_nil }
  obtain ⟨state, hrun, hinv, hgrows, htarget⟩ :=
    hbudget Referenced.target {} hinit (Nat.lt_succ_self _)
  rw [Handled, if_pos rfl] at htarget
  -- whatever was begun, the walk began it
  have hfinished : ∀ location ∈ state.history, source.Finished state location :=
    fun location h => hgrows.finished location h not_mem_nil
  have hhandled : ∀ {role location}, source.Referenced target role location →
      source.Handled state role location := handled_of_referenced hregular hinv htarget hfinished
  refine ⟨state, hrun, hinv, hhandled, fun {location} href => hfinished location ?_⟩
  have hbegun := hhandled href
  rwa [Handled, if_pos rfl] at hbegun

end Ace3.HuntCompiler.HuntSource
