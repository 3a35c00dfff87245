import Mathlib.Data.List.Nodup
import Mathlib.Data.Set.Insert

/-!
# Merging Paths into Trees

Paths of labelled keys are merged where they begin alike, and the node at the end of each path is
marked. Where the label of a key depends on the key alone and on the one before it, the trees have
the paths that were merged, those with which they begin, and no others.
-/

namespace Ace3.Lib

open List

/-! ## §1 Trees -/

inductive PathTree (α ε δ : Type*) where
  | node (key : α) (label : ε) (marks : List δ) (children : List (PathTree α ε δ))

namespace PathTree

variable {α ε δ : Type*}

def key : PathTree α ε δ → α
  | node key _ _ _ => key

def label : PathTree α ε δ → ε
  | node _ label _ _ => label

def marks : PathTree α ε δ → List δ
  | node _ _ marks _ => marks

def children : PathTree α ε δ → List (PathTree α ε δ)
  | node _ _ _ children => children

def step (tree : PathTree α ε δ) : α × ε := (tree.key, tree.label)

/-- The paths from a root, each with the node where it ends. -/
inductive Path : List (PathTree α ε δ) → List (α × ε) → PathTree α ε δ → Prop
  | here {trees : List (PathTree α ε δ)} {tree : PathTree α ε δ} (h : tree ∈ trees) :
      Path trees [tree.step] tree
  | deeper {trees : List (PathTree α ε δ)} {tree last : PathTree α ε δ} {path : List (α × ε)}
      (h : tree ∈ trees) (hpath : Path tree.children path last) :
      Path trees (tree.step :: path) last

/-! ## §2 Adding -/

variable [DecidableEq α] [DecidableEq δ]

/-- The tree with this key is changed, or a new one, which is added. -/
def update (step : α × ε) (change : PathTree α ε δ → PathTree α ε δ) :
    List (PathTree α ε δ) → List (PathTree α ε δ)
  | [] => [change (node step.1 step.2 [] [])]
  | tree :: trees =>
    if tree.key = step.1 then change tree :: trees else tree :: update step change trees

def addMark (m : δ) : PathTree α ε δ → PathTree α ε δ
  | node key label marks children =>
    node key label (if m ∈ marks then marks else marks ++ [m]) children

def withChildren (change : List (PathTree α ε δ) → List (PathTree α ε δ)) :
    PathTree α ε δ → PathTree α ε δ
  | node key label marks children => node key label marks (change children)

def add (m : δ) : List (α × ε) → List (PathTree α ε δ) → List (PathTree α ε δ)
  | [], trees => trees
  | step :: path, trees =>
    update step (if path.isEmpty then addMark m else withChildren (add m path)) trees

section Projections

variable (m : δ) (change : List (PathTree α ε δ) → List (PathTree α ε δ)) (tree : PathTree α ε δ)

omit [DecidableEq α] in
@[simp] theorem step_addMark : (tree.addMark m).step = tree.step := by
  cases tree
  rfl

omit [DecidableEq α] in
@[simp] theorem children_addMark : (tree.addMark m).children = tree.children := by
  cases tree
  rfl

omit [DecidableEq α] in
@[simp] theorem mem_marks_addMark {m' : δ} :
    m' ∈ (tree.addMark m).marks ↔ m' = m ∨ m' ∈ tree.marks := by
  cases tree with
  | node key label marks children =>
    show m' ∈ (if m ∈ marks then marks else marks ++ [m]) ↔ m' = m ∨ m' ∈ marks
    by_cases hm : m ∈ marks
    · rw [if_pos hm]
      exact ⟨.inr, fun h => h.elim (fun heq => heq ▸ hm) id⟩
    · rw [if_neg hm, mem_append, mem_singleton, or_comm]

omit [DecidableEq α] [DecidableEq δ] in
@[simp] theorem step_withChildren : (tree.withChildren change).step = tree.step := by
  cases tree
  rfl

omit [DecidableEq α] [DecidableEq δ] in
@[simp] theorem children_withChildren :
    (tree.withChildren change).children = change tree.children := by
  cases tree
  rfl

omit [DecidableEq α] [DecidableEq δ] in
@[simp] theorem marks_withChildren : (tree.withChildren change).marks = tree.marks := by
  cases tree
  rfl

end Projections

/-- What `update` changes: the tree with the key, or a new one where there is none. -/
def Target (trees : List (PathTree α ε δ)) (step : α × ε) (tree : PathTree α ε δ) : Prop :=
  tree ∈ trees ∧ tree.key = step.1 ∨
    (∀ other ∈ trees, other.key ≠ step.1) ∧ tree = node step.1 step.2 [] []

variable {trees : List (PathTree α ε δ)} {step : α × ε} {tree : PathTree α ε δ}
  {change : PathTree α ε δ → PathTree α ε δ} {m : δ}

omit [DecidableEq α] [DecidableEq δ] in
theorem Target.key (h : Target trees step tree) : tree.key = step.1 := by
  rcases h with ⟨-, hkey⟩ | ⟨-, rfl⟩
  · exact hkey
  · rfl

omit [DecidableEq δ] in
theorem mem_update (hdistinct : (trees.map PathTree.key).Nodup) :
    ∃ target, Target trees step target ∧ ∀ tree, tree ∈ update step change trees ↔
      tree = change target ∨ tree ∈ trees ∧ tree.key ≠ step.1 := by
  induction trees with
  | nil => exact ⟨node step.1 step.2 [] [], .inr ⟨nofun, rfl⟩, fun tree => by simp [update]⟩
  | cons first trees ih =>
    rw [map_cons, nodup_cons] at hdistinct
    by_cases hkey : first.key = step.1
    · refine ⟨first, .inl ⟨mem_cons_self .., hkey⟩, fun tree => ?_⟩
      rw [update, if_pos hkey, mem_cons, mem_cons]
      have hother : tree ∈ trees → tree.key ≠ step.1 := fun htree heq =>
        hdistinct.1 (hkey.trans heq.symm ▸ mem_map_of_mem htree)
      constructor
      · exact Or.imp_right fun htree => ⟨.inr htree, hother htree⟩
      · rintro (heq | ⟨rfl | htree, hne⟩)
        · exact .inl heq
        · exact absurd hkey hne
        · exact .inr htree
    · obtain ⟨target, htarget, hmem⟩ := ih hdistinct.2
      refine ⟨target, ?_, fun tree => ?_⟩
      · rcases htarget with ⟨hin, hstep⟩ | ⟨hnone, heq⟩
        · exact .inl ⟨mem_cons_of_mem _ hin, hstep⟩
        · exact .inr ⟨forall_mem_cons.mpr ⟨hkey, hnone⟩, heq⟩
      · rw [update, if_neg hkey, mem_cons, mem_cons, hmem]
        constructor
        · rintro (rfl | heq | ⟨htree, hne⟩)
          · exact .inr ⟨.inl rfl, hkey⟩
          · exact .inl heq
          · exact .inr ⟨.inr htree, hne⟩
        · rintro (heq | ⟨rfl | htree, hne⟩)
          · exact .inr (.inl heq)
          · exact .inl rfl
          · exact .inr (.inr ⟨htree, hne⟩)

omit [DecidableEq δ] in
theorem nodup_update (hchange : ∀ tree, (change tree).key = tree.key)
    (hdistinct : (trees.map PathTree.key).Nodup) :
    ((update step change trees).map PathTree.key).Nodup := by
  induction trees with
  | nil => exact nodup_singleton _
  | cons first trees ih =>
    have hrest := (nodup_cons.mp hdistinct).2
    rw [update]
    split
    · rw [map_cons, hchange]
      exact hdistinct
    · rename_i hkey
      rw [map_cons, nodup_cons]
      refine ⟨fun hmem => ?_, ih hrest⟩
      obtain ⟨tree, htree, heq⟩ := mem_map.mp hmem
      obtain ⟨target, htarget, hmem⟩ := @mem_update _ _ _ _ _ step change hrest
      rcases (hmem tree).mp htree with rfl | ⟨hin, -⟩
      · exact hkey (heq.symm.trans ((hchange target).trans htarget.key))
      · exact (nodup_cons.mp hdistinct).1 (heq ▸ mem_map_of_mem hin)

/-! ## §3 Representation -/

/-- Each label is what this function gives for the key before and the key. -/
def Labelled (f : Option α → α → ε) : Option α → List (α × ε) → Prop
  | _, [] => True
  | above, step :: path => step.2 = f above step.1 ∧ Labelled f (some step.1) path

def after (step : α × ε) (paths : Set (List (α × ε) × δ)) : Set (List (α × ε) × δ) :=
  {rest | (step :: rest.1, rest.2) ∈ paths}

/-- The trees have a node for each way to begin one of the marked paths. -/
inductive Represents (f : Option α → α → ε) :
    Option α → Set (List (α × ε) × δ) → List (PathTree α ε δ) → Prop
  | intro {above : Option α} {paths : Set (List (α × ε) × δ)} {trees : List (PathTree α ε δ)}
      (distinct : (trees.map PathTree.key).Nodup)
      (labels : ∀ tree ∈ trees, tree.label = f above tree.key)
      (used : ∀ tree ∈ trees, ∃ path m, (tree.step :: path, m) ∈ paths)
      (marks : ∀ tree ∈ trees, ∀ m, m ∈ tree.marks ↔ ([tree.step], m) ∈ paths)
      (complete : ∀ step path m, (step :: path, m) ∈ paths → step ∈ trees.map PathTree.step)
      (below : ∀ tree ∈ trees,
        Represents f (some tree.key) (after tree.step paths) tree.children) :
      Represents f above paths trees

variable {f : Option α → α → ε} {above : Option α} {paths paths' : Set (List (α × ε) × δ)}
  {path : List (α × ε)}

omit [DecidableEq α] [DecidableEq δ] in
theorem represents_empty : Represents f above (∅ : Set (List (α × ε) × δ)) [] :=
  .intro nodup_nil nofun nofun nofun (fun _ _ _ h => absurd h (Set.notMem_empty _)) nofun

omit [DecidableEq α] [DecidableEq δ] in
theorem Represents.congr (h : Represents f above paths trees)
    (hpaths : ∀ step path m, (step :: path, m) ∈ paths ↔ (step :: path, m) ∈ paths') :
    Represents f above paths' trees := by
  obtain ⟨distinct, labels, used, marks, complete, below⟩ := h
  refine .intro distinct labels ?_ ?_ ?_ ?_
  · intro tree htree
    obtain ⟨path, m, hmem⟩ := used tree htree
    exact ⟨path, m, (hpaths _ _ _).mp hmem⟩
  · exact fun tree htree m => (marks tree htree m).trans (hpaths _ _ _)
  · exact fun step path m hmem => complete step path m ((hpaths _ _ _).mpr hmem)
  · intro tree htree
    have hafter : after tree.step paths = after tree.step paths' :=
      Set.ext fun rest => hpaths _ _ _
    exact hafter ▸ below tree htree

omit [DecidableEq δ] in
theorem Represents.exists_target (h : Represents f above paths trees)
    (hlabel : step.2 = f above step.1) (change : PathTree α ε δ → PathTree α ε δ) :
    ∃ target : PathTree α ε δ, target.step = step ∧
      (∀ m, m ∈ target.marks ↔ ([step], m) ∈ paths) ∧
      Represents f (some step.1) (after step paths) target.children ∧
      ∀ tree, tree ∈ update step change trees ↔
        tree = change target ∨ tree ∈ trees ∧ tree.step ≠ step := by
  obtain ⟨distinct, labels, used, marks, complete, below⟩ := h
  have hkey : ∀ tree ∈ trees, tree.key = step.1 ↔ tree.step = step := by
    intro tree htree
    refine ⟨fun hkey => Prod.ext hkey ?_, fun hstep => congrArg Prod.fst hstep⟩
    exact (labels tree htree).trans (hkey ▸ hlabel.symm)
  obtain ⟨target, htarget, hmem⟩ := @mem_update _ _ _ _ _ step change distinct
  have hmem' : ∀ tree, tree ∈ update step change trees ↔
      tree = change target ∨ tree ∈ trees ∧ tree.step ≠ step := by
    intro tree
    rw [hmem]
    exact or_congr_right (and_congr_right fun htree => not_congr (hkey tree htree))
  rcases htarget with ⟨hin, heq⟩ | ⟨hnone, rfl⟩
  · have hstep := (hkey target hin).mp heq
    exact ⟨target, hstep, hstep ▸ marks target hin, heq ▸ hstep ▸ below target hin, hmem'⟩
  · -- No path went this way before.
    have hnew : ∀ path m, (step :: path, m) ∉ paths := by
      intro path m hpath
      obtain ⟨tree, htree, heq⟩ := mem_map.mp (complete step path m hpath)
      exact hnone tree htree ((hkey tree htree).mpr heq)
    refine ⟨_, rfl, fun m => ⟨fun hm => absurd hm not_mem_nil, fun hm => ?_⟩, ?_, hmem'⟩
    · exact absurd hm (hnew [] m)
    · exact represents_empty.congr fun next path m =>
        ⟨fun hmem => absurd hmem (Set.notMem_empty _), fun hmem => absurd hmem (hnew _ m)⟩

theorem Represents.add (h : Represents f above paths trees) (hlabelled : Labelled f above path)
    (m : δ) : Represents f above (insert (path, m) paths) (add m path trees) := by
  induction path generalizing above paths trees with
  | nil => exact h.congr fun step path m' => by simp
  | cons step path ih =>
    obtain ⟨hlabel, hrest⟩ := hlabelled
    rw [PathTree.add]
    generalize hchange : (if path.isEmpty then addMark m else withChildren (PathTree.add m path)) =
      change
    have hstep : ∀ tree, (change tree).step = tree.step := by
      intro tree
      rw [← hchange]
      split <;> simp
    obtain ⟨target, htarget, htargetMarks, htargetBelow, hmem⟩ := h.exists_target hlabel change
    obtain ⟨distinct, labels, used, marks, complete, below⟩ := h
    have hother : ∀ next path' m', next ≠ step →
        ((next :: path', m') ∈ insert (step :: path, m) paths ↔ (next :: path', m') ∈ paths) := by
      intro next path' m' hne
      simp [hne]
    refine .intro (nodup_update (fun tree => congrArg Prod.fst (hstep tree)) distinct)
      ?_ ?_ ?_ ?_ ?_
    · intro tree htree
      rcases (hmem tree).mp htree with rfl | ⟨htree, -⟩
      · have heq : (change target).step = step := (hstep target).trans htarget
        exact (congrArg Prod.snd heq).trans (hlabel.trans (congrArg (f above ·.1) heq.symm))
      · exact labels tree htree
    · intro tree htree
      rcases (hmem tree).mp htree with rfl | ⟨htree, -⟩
      · refine ⟨path, m, ?_⟩
        rw [hstep, htarget]
        exact Set.mem_insert _ _
      · obtain ⟨path', m', hpath⟩ := used tree htree
        exact ⟨path', m', Set.mem_insert_of_mem _ hpath⟩
    · intro tree htree m'
      rcases (hmem tree).mp htree with rfl | ⟨htree, hne⟩
      · rw [hstep, htarget, Set.mem_insert_iff, ← htargetMarks m', ← hchange]
        cases path with
        | nil => simp
        | cons next path => simp
      · rw [hother _ _ _ hne]
        exact marks tree htree m'
    · intro next path' m' hpath
      rw [mem_map]
      by_cases hnext : next = step
      · refine ⟨change target, (hmem _).mpr (.inl rfl), ?_⟩
        exact (hstep target).trans (htarget.trans hnext.symm)
      · rw [hother _ _ _ hnext] at hpath
        obtain ⟨tree, htree, rfl⟩ := mem_map.mp (complete next path' m' hpath)
        exact ⟨tree, (hmem tree).mpr (.inr ⟨htree, hnext⟩), rfl⟩
    · intro tree htree
      rcases (hmem tree).mp htree with rfl | ⟨htree, hne⟩
      · have heq : (change target).step = step := (hstep target).trans htarget
        have hkey : (change target).key = step.1 := congrArg Prod.fst heq
        rw [heq, hkey, ← hchange]
        have hafter : after step (insert (step :: path, m) paths) =
            insert (path, m) (after step paths) := by
          ext rest
          simp [after, Prod.ext_iff]
        rw [hafter]
        have hadded := ih htargetBelow hrest
        cases path with
        | nil => simpa [PathTree.add] using hadded
        | cons next path => simpa using hadded
      · have hafter : after tree.step (insert (step :: path, m) paths) = after tree.step paths :=
          Set.ext fun rest => hother _ _ _ hne
        rw [hafter]
        exact below tree htree

/-! ## §4 Paths -/

omit [DecidableEq α] [DecidableEq δ] in
theorem path_cons_iff {last : PathTree α ε δ} : Path trees (step :: path) last ↔
    ∃ tree ∈ trees, tree.step = step ∧ (path = [] ∧ last = tree ∨ Path tree.children path last) := by
  constructor
  · rintro (hin | ⟨hin, hpath⟩)
    · exact ⟨last, hin, rfl, .inl ⟨rfl, rfl⟩⟩
    · exact ⟨_, hin, rfl, .inr hpath⟩
  · rintro ⟨tree, hin, rfl, ⟨rfl, rfl⟩ | hpath⟩
    · exact .here hin
    · exact .deeper hin hpath

omit [DecidableEq α] [DecidableEq δ] in
theorem not_path_nil {last : PathTree α ε δ} : ¬ Path trees [] last := nofun

omit [DecidableEq α] [DecidableEq δ] in
theorem Represents.marks_iff {last : PathTree α ε δ} (h : Represents f above paths trees)
    (hpath : Path trees path last) (m : δ) : m ∈ last.marks ↔ (path, m) ∈ paths := by
  induction path generalizing above paths trees with
  | nil => exact absurd hpath not_path_nil
  | cons step path ih =>
    obtain ⟨-, -, -, marks, -, below⟩ := h
    obtain ⟨tree, hin, rfl, ⟨rfl, rfl⟩ | hpath⟩ := path_cons_iff.mp hpath
    · exact marks last hin m
    · exact ih (below tree hin) hpath

omit [DecidableEq α] [DecidableEq δ] in
theorem Represents.path_iff (h : Represents f above paths trees) :
    (∃ last, Path trees path last) ↔ path ≠ [] ∧ ∃ marked ∈ paths, path <+: marked.1 := by
  induction path generalizing above paths trees with
  | nil => exact ⟨fun ⟨_, hpath⟩ => absurd hpath not_path_nil, fun h => absurd rfl h.1⟩
  | cons step path ih =>
    obtain ⟨-, -, used, -, complete, below⟩ := h
    constructor
    · rintro ⟨last, hpath⟩
      refine ⟨cons_ne_nil _ _, ?_⟩
      obtain ⟨tree, hin, rfl, ⟨rfl, rfl⟩ | hpath⟩ := path_cons_iff.mp hpath
      · obtain ⟨rest, m, hmem⟩ := used last hin
        exact ⟨_, hmem, cons_prefix_cons.mpr ⟨rfl, nil_prefix⟩⟩
      · obtain ⟨-, rest, hmem, hpre⟩ := (ih (below tree hin)).mp ⟨last, hpath⟩
        exact ⟨_, hmem, cons_prefix_cons.mpr ⟨rfl, hpre⟩⟩
    · rintro ⟨-, ⟨marked, m⟩, hmem, hpre⟩
      obtain ⟨rest, rfl⟩ := hpre
      obtain ⟨tree, hin, rfl⟩ := mem_map.mp (complete step (path ++ rest) m hmem)
      by_cases hnil : path = []
      · exact ⟨tree, path_cons_iff.mpr ⟨tree, hin, rfl, .inl ⟨hnil, rfl⟩⟩⟩
      · obtain ⟨last, hpath⟩ :=
          (ih (below tree hin)).mpr ⟨hnil, (path ++ rest, m), hmem, prefix_append _ _⟩
        exact ⟨last, path_cons_iff.mpr ⟨tree, hin, rfl, .inr hpath⟩⟩

omit [DecidableEq α] [DecidableEq δ] in
theorem Represents.leaf_iff {last : PathTree α ε δ} (h : Represents f above paths trees)
    (hpath : Path trees path last) :
    last.children = [] ↔ ∀ marked ∈ paths, path <+: marked.1 → marked.1 = path := by
  induction path generalizing above paths trees with
  | nil => exact absurd hpath not_path_nil
  | cons step path ih =>
    obtain ⟨-, -, -, -, -, below⟩ := h
    obtain ⟨tree, hin, rfl, ⟨rfl, rfl⟩ | hpath⟩ := path_cons_iff.mp hpath
    · obtain ⟨-, -, used, -, complete, -⟩ := below last hin
      constructor
      · rintro hleaf ⟨marked, m⟩ hmem ⟨rest, rfl⟩
        cases rest with
        | nil => exact append_nil _
        | cons next rest =>
          have hnext := complete next rest m hmem
          rw [hleaf] at hnext
          exact absurd hnext not_mem_nil
      · refine fun hends => eq_nil_iff_forall_not_mem.mpr fun child hchild => ?_
        obtain ⟨rest, m, hmem⟩ := used child hchild
        have hend := hends _ hmem (prefix_append [last.step] (child.step :: rest))
        cases hend
    · rw [ih (below tree hin) hpath]
      constructor
      · rintro hends ⟨marked, m⟩ hmem ⟨rest, rfl⟩
        exact congrArg _ (hends (path ++ rest, m) hmem (prefix_append _ _))
      · rintro hends ⟨marked, m⟩ hmem hpre
        exact (List.cons.inj (hends _ hmem (cons_prefix_cons.mpr ⟨rfl, hpre⟩))).2

end PathTree

end Ace3.Lib
