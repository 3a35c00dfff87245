import Mathlib.Logic.Function.Basic
import Mathlib.Data.List.Induction

/-!
# A File System With Hard Links
-/

namespace Ace3.Lib.FileSystem

open List Function

abbrev Bytes := List UInt8

/-! ## §1 Path strings -/

/-- `path.split("/")`: `["", "a", "b"]` is `/a/b`, and `[""]` is the empty string. -/
abbrev PathString := List String

namespace PathString

def absolute (path : PathString) : Bool :=
  path.head? == some "" && decide (2 ≤ path.length)

/-- `os.path.join`. -/
def join (path rest : PathString) : PathString :=
  if rest.absolute ∨ path = [] ∨ path = [""] then rest
  else if path.getLast? = some "" then path.dropLast ++ rest
  else path ++ rest

/-- `os.path.basename`. -/
def basename (path : PathString) : PathString :=
  [path.getLast?.getD ""]

/-- `str.startswith`. -/
def startsWith : PathString → PathString → Bool
  | _, [] => true
  | [], _ :: _ => false
  | part :: _, [start] => start.toList.isPrefixOf part.toList
  | part :: path, start :: start' :: starts =>
    part == start && startsWith path (start' :: starts)

end PathString

/-! ## §2 Locations -/

abbrev Name := { part : String // part ≠ "" ∧ part ≠ "." ∧ part ≠ ".." }

abbrev Location := List Name

namespace Location

def enter (here : Location) (part : String) : Location :=
  if h : part ≠ "" ∧ part ≠ "." ∧ part ≠ ".." then here ++ [⟨part, h⟩]
  else if part = ".." then here.dropLast
  else here

def origin (cwd : Location) (path : PathString) : Location :=
  if path.absolute then [] else cwd

/-- `os.path.abspath`. -/
def resolve (cwd : Location) (path : PathString) : Location :=
  path.foldl enter (origin cwd path)

def relative : Location → Location → PathString
  | name :: start, name' :: path =>
    if name = name' then relative start path
    else List.replicate (start.length + 1) ".." ++ (name' :: path).map (·.val)
  | start, path => List.replicate start.length ".." ++ path.map (·.val)

/-- `os.path.relpath`. -/
def relpath (cwd : Location) (path start : PathString) : PathString :=
  match relative (resolve cwd start) (resolve cwd path) with
  | [] => ["."]
  | way => way

/-- The directories that a path leads through in front of its last component. -/
def passed (cwd : Location) (path : PathString) : List Location :=
  path.dropLast.inits.map fun parts => parts.foldl enter (origin cwd path)

theorem enter_name (here : Location) (name : Name) : here.enter name.val = here ++ [name] := by
  rw [enter, dif_pos name.property]

theorem enter_names (here path : Location) :
    (path.map (·.val)).foldl enter here = here ++ path := by
  induction path generalizing here with
  | nil => exact (append_nil _).symm
  | cons name path ih =>
    rw [map_cons, foldl_cons, enter_name, ih, append_assoc]
    rfl

theorem enter_parents (here below : Location) :
    (List.replicate below.length "..").foldl enter (here ++ below) = here := by
  induction below using List.reverseRecOn with
  | nil => exact append_nil _
  | append_singleton below name ih =>
    rw [length_append, length_singleton, replicate_succ, foldl_cons,
      ← append_assoc]
    have hup : enter (here ++ below ++ [name]) ".." = here ++ below := by
      rw [enter, dif_neg (by simp), if_pos rfl, dropLast_concat]
    rw [hup, ih]

theorem relative_of_not_cons {start path : Location}
    (h : ∀ name start' name' path', start = name :: start' → path = name' :: path' → False) :
    relative start path = List.replicate start.length ".." ++ path.map (·.val) := by
  unfold relative
  split
  · exact (h _ _ _ _ rfl rfl).elim
  · rfl

theorem enter_relative (here start path : Location) :
    (relative start path).foldl enter (here ++ start) = here ++ path := by
  induction start, path using relative.induct generalizing here with
  | case1 start name path ih =>
    rw [relative, if_pos rfl]
    have hway : (relative start path).foldl enter ((here ++ [name]) ++ start) =
        (here ++ [name]) ++ path := ih _
    rwa [append_assoc, append_assoc] at hway
  | case2 name start name' path hne =>
    rw [relative, if_neg hne, foldl_append]
    have hup := enter_parents here (name :: start)
    rw [length_cons] at hup
    rw [hup, enter_names]
  | case3 start path hnil =>
    rw [relative_of_not_cons hnil, foldl_append, enter_parents, enter_names]

theorem origin_append (cwd : Location) {path rest rest' : PathString} (hpath : path ≠ [])
    (hrest : rest ≠ []) (hrest' : rest' ≠ []) :
    origin cwd (path ++ rest) = origin cwd (path ++ rest') := by
  have hlong : ∀ {rest : PathString}, rest ≠ [] → 2 ≤ (path ++ rest).length := by
    intro rest hrest
    have hpath := length_pos_iff.mpr hpath
    have hrest := length_pos_iff.mpr hrest
    rw [length_append]
    omega
  have hhead : (path ++ rest).head? = (path ++ rest').head? := by
    obtain ⟨part, parts, rfl⟩ := exists_cons_of_ne_nil hpath
    rfl
  rw [origin, origin, PathString.absolute, PathString.absolute, hhead,
    decide_eq_true (hlong hrest), decide_eq_true (hlong hrest')]

theorem origin_append_of_ne (cwd : Location) {path rest : PathString} (hpath : path ≠ [])
    (hempty : path ≠ [""]) (hrest : rest ≠ []) :
    origin cwd (path ++ rest) = origin cwd path := by
  obtain ⟨part, parts, rfl⟩ := exists_cons_of_ne_nil hpath
  obtain ⟨next, after, rfl⟩ := exists_cons_of_ne_nil hrest
  cases parts with
  | nil =>
    have hpart : part ≠ "" := fun h => hempty (by rw [h])
    simp [origin, PathString.absolute, hpart]
  | cons part' parts => simp [origin, PathString.absolute]

theorem resolve_join {cwd : Location} {path rest : PathString} (hrest : rest.absolute = false)
    (hsome : rest ≠ []) :
    resolve cwd (path.join rest) = rest.foldl enter (resolve cwd path) := by
  have horigin : origin cwd rest = cwd := by
    unfold origin
    rw [hrest]
    rfl
  unfold PathString.join
  split
  · rename_i hfirst
    rcases hfirst with habsolute | rfl | rfl
    · exact absurd (hrest.symm.trans habsolute) (by decide)
    · rw [resolve, horigin]
      rfl
    · rw [resolve, horigin]
      rfl
  · rename_i hfirst
    obtain ⟨-, hnil, hempty⟩ : _ ∧ path ≠ [] ∧ path ≠ [""] := by
      simpa only [not_or] using hfirst
    split
    · rename_i hlast
      -- a separator at the end is a component that leads nowhere
      obtain ⟨before, rfl⟩ := List.getLast?_eq_some_iff.mp hlast
      have hbefore : before ≠ [] := by
        rintro rfl
        exact hempty rfl
      rw [dropLast_concat, resolve, foldl_append,
        origin_append cwd hbefore hsome (cons_ne_nil "" []), resolve, foldl_append]
      rfl
    · rw [resolve, foldl_append, origin_append_of_ne cwd hnil hempty hsome, resolve]

theorem relpath_not_absolute (cwd : Location) (path start : PathString) :
    (relpath cwd path start).absolute = false ∧ relpath cwd path start ≠ [] := by
  have hmem : ∀ (count : Nat) (path : Location),
      ∀ part ∈ List.replicate count ".." ++ path.map (·.val), part ≠ "" := by
    intro count path part hpart
    rcases mem_append.mp hpart with hup | hdown
    · rw [eq_of_mem_replicate hup]
      decide
    · obtain ⟨name, -, rfl⟩ := mem_map.mp hdown
      exact name.property.1
  have hparts : ∀ start path : Location, ∀ part ∈ relative start path, part ≠ "" := by
    intro start path
    induction start, path using relative.induct with
    | case1 start name path ih =>
      rw [relative, if_pos rfl]
      exact ih
    | case2 name start name' path hne =>
      rw [relative, if_neg hne]
      exact hmem _ _
    | case3 start path hnil =>
      rw [relative_of_not_cons hnil]
      exact hmem _ _
  unfold relpath
  split
  · exact ⟨by decide, cons_ne_nil _ _⟩
  · rename_i hne
    refine ⟨?_, hne⟩
    rw [PathString.absolute]
    cases hway : relative (resolve cwd start) (resolve cwd path) with
    | nil => exact absurd hway hne
    | cons part parts =>
      have hpart := hparts _ _ part (by rw [hway]; exact mem_cons_self)
      simp [hpart]

theorem resolve_join_relpath (cwd : Location) (path start : PathString) :
    resolve cwd (start.join (relpath cwd path start)) = resolve cwd path := by
  obtain ⟨habsolute, hsome⟩ := relpath_not_absolute cwd path start
  rw [resolve_join habsolute hsome]
  have hway := enter_relative [] (resolve cwd start) (resolve cwd path)
  unfold relpath
  split
  · rename_i hnil
    rw [hnil] at hway
    exact hway
  · exact hway

end Location

/-! ## §3 The disk -/

inductive Entry where
  | directory
  /-- The number of the file, which several locations can share. -/
  | file (inode : Nat)
  deriving DecidableEq

structure Disk where
  entries : Location → Option Entry
  contents : Nat → Bytes
  /-- The number of the next file. -/
  next : Nat

namespace Disk

variable {disk disk' : Disk} {location : Location} {inode : Nat}

def read (disk : Disk) (location : Location) : Option Bytes :=
  match disk.entries location with
  | some (.file inode) => some (disk.contents inode)
  | _ => none

def put (disk : Disk) (location : Location) (entry : Entry) : Disk :=
  { disk with entries := Function.update disk.entries location (some entry) }

/-- `os.unlink`. -/
def unlink (disk : Disk) (location : Location) : Disk :=
  { disk with entries := Function.update disk.entries location none }

def create (disk : Disk) (location : Location) (bytes : Bytes) : Disk where
  entries := Function.update disk.entries location (some (.file disk.next))
  contents := Function.update disk.contents disk.next bytes
  next := disk.next + 1

def overwrite (disk : Disk) (inode : Nat) (bytes : Bytes) : Disk :=
  { disk with contents := Function.update disk.contents inode bytes }

/-- `os.link`, to a location that is free. -/
def link (disk : Disk) (source location : Location) : Except Disk Disk :=
  match disk.entries source with
  | some (.file inode) => .ok (disk.put location (.file inode))
  | _ => .error disk

@[simp] theorem put_self (disk : Disk) (location : Location) (entry : Entry) :
    (disk.put location entry).entries location = some entry :=
  update_self ..

variable {other : Location}

@[simp] theorem put_of_ne (entry : Entry) (h : other ≠ location) :
    (disk.put location entry).entries other = disk.entries other :=
  update_of_ne h _ _

@[simp] theorem unlink_self (disk : Disk) (location : Location) :
    (disk.unlink location).entries location = none :=
  update_self ..

@[simp] theorem unlink_of_ne (h : other ≠ location) :
    (disk.unlink location).entries other = disk.entries other :=
  update_of_ne h _ _

@[simp] theorem create_self (disk : Disk) (location : Location) (bytes : Bytes) :
    (disk.create location bytes).entries location = some (.file disk.next) :=
  update_self ..

@[simp] theorem create_of_ne (bytes : Bytes) (h : other ≠ location) :
    (disk.create location bytes).entries other = disk.entries other :=
  update_of_ne h _ _

@[simp] theorem contents_create_next (disk : Disk) (location : Location) (bytes : Bytes) :
    (disk.create location bytes).contents disk.next = bytes :=
  update_self ..

@[simp] theorem contents_create_of_ne (location : Location) (bytes : Bytes)
    (h : inode ≠ disk.next) : (disk.create location bytes).contents inode = disk.contents inode :=
  update_of_ne h _ _

def Numbered (disk : Disk) : Prop :=
  ∀ location inode, disk.entries location = some (.file inode) → inode < disk.next

theorem read_eq_some {bytes : Bytes} :
    disk.read location = some bytes ↔
      ∃ inode, disk.entries location = some (.file inode) ∧ disk.contents inode = bytes := by
  unfold read
  cases disk.entries location with
  | none => simp
  | some entry => cases entry <;> simp

/-! ## §4 Paths on the disk -/

/-- `os.path.exists`: the location that a path leads to through directories that are there. -/
def locate (disk : Disk) (cwd : Location) (path : PathString) : Option Location :=
  let location := Location.resolve cwd path
  if path ≠ [""] ∧ (disk.entries location).isSome ∧
      (Location.passed cwd path).all fun passed => disk.entries passed == some .directory then
    some location
  else none

/-- `os.makedirs` with `exist_ok`: each of the directories is made unless it is there. -/
def makeDirectories (disk : Disk) : List Location → Except Disk Disk
  | [] => .ok disk
  | location :: locations =>
    match disk.entries location with
    | none => (disk.put location .directory).makeDirectories locations
    | some .directory => disk.makeDirectories locations
    | some (.file _) => .error disk

/-- `os.makedirs(os.path.dirname(path), exist_ok=True)`. -/
def makeParents (disk : Disk) (cwd : Location) (path : PathString) : Except Disk Disk :=
  if path.length ≤ 1 then .error disk
  else disk.makeDirectories (Location.passed cwd path)

/-- Directories that were made where nothing was, among some locations. -/
structure Extends (disk disk' : Disk) (made : List Location) : Prop where
  contents : disk'.contents = disk.contents
  next : disk'.next = disk.next
  entries : ∀ location, disk'.entries location = disk.entries location ∨
    (disk.entries location = none ∧ disk'.entries location = some .directory ∧ location ∈ made)

theorem Extends.refl (disk : Disk) (made : List Location) : disk.Extends disk made :=
  ⟨rfl, rfl, fun _ => .inl rfl⟩

/-- What is left of the directories, also when one of them cannot be made. -/
def leftBehind : Except Disk Disk → Disk
  | .error disk => disk
  | .ok disk => disk

theorem makeDirectories_extends (disk : Disk) (locations : List Location) :
    disk.Extends (leftBehind (disk.makeDirectories locations)) locations := by
  induction locations generalizing disk with
  | nil => exact .refl disk []
  | cons location locations ih =>
    have hmore : ∀ {disk' : Disk}, disk.Extends disk' locations →
        disk.Extends disk' (location :: locations) := by
      intro disk' h
      refine ⟨h.contents, h.next, fun other => ?_⟩
      rcases h.entries other with hsame | ⟨hfree, hmade, hmem⟩
      · exact .inl hsame
      · exact .inr ⟨hfree, hmade, mem_cons_of_mem _ hmem⟩
    unfold makeDirectories
    split
    · rename_i hfree
      have h := ih (disk.put location .directory)
      refine ⟨h.contents, h.next, fun other => ?_⟩
      by_cases hother : other = location
      · subst hother
        rcases h.entries other with hsame | ⟨hnone, -, -⟩
        · right
          refine ⟨hfree, ?_, mem_cons_self⟩
          rw [hsame, put_self]
        · rw [put_self] at hnone
          cases hnone
      · have hput : (disk.put location .directory).entries other = disk.entries other :=
          put_of_ne _ hother
        rw [← hput]
        rcases h.entries other with hsame | ⟨hnone, hmade, hmem⟩
        · exact .inl hsame
        · exact .inr ⟨hnone, hmade, mem_cons_of_mem _ hmem⟩
    · exact hmore (ih disk)
    · exact .refl disk _

theorem makeParents_extends (disk : Disk) (cwd : Location) (path : PathString) :
    disk.Extends (leftBehind (disk.makeParents cwd path)) (Location.passed cwd path) := by
  unfold makeParents
  split
  · exact .refl disk _
  · exact makeDirectories_extends disk _

variable {made : List Location}

theorem Extends.file (h : disk.Extends disk' made) :
    disk'.entries location = some (.file inode) ↔ disk.entries location = some (.file inode) := by
  rcases h.entries location with hsame | ⟨hfree, hmade, -⟩
  · rw [hsame]
  · rw [hfree, hmade]
    simp

theorem Extends.read (h : disk.Extends disk' made) :
    disk'.read location = disk.read location := by
  unfold Disk.read
  rcases h.entries location with hsame | ⟨hfree, hmade, -⟩
  · rw [hsame, h.contents]
  · rw [hfree, hmade]

theorem Extends.numbered (h : disk.Extends disk' made) (hnumbered : disk.Numbered) :
    disk'.Numbered := by
  intro location inode hfile
  rw [h.next]
  exact hnumbered location inode (h.file.mp hfile)

theorem Extends.of_not_mem (h : disk.Extends disk' made) (hlocation : location ∉ made) :
    disk'.entries location = disk.entries location := by
  rcases h.entries location with hsame | ⟨-, -, hmem⟩
  · exact hsame
  · exact absurd hmem hlocation

end Disk

end Ace3.Lib.FileSystem
