import Ace3.Lib.FileSystem
import Ace3.Lib.Runs

/-!
# Names and Contents of Stored Files

`LocalFileManager.store_file` of `saq/analysis/file_manager/local_file_manager.py`. The contents
of a file go to a hardcopy under their hash, and the name that the file is stored under becomes a
hard link to it.
-/

namespace Ace3.Analysis

open List
open Lib Lib.FileSystem Lib.Runs

/-! ## §1 `store_file` -/

/-- `LocalFileManager`, with the directory that the process runs in. -/
structure LocalFileManager where
  storageDir : PathString
  cwd : Location
  /-- `sha256_file`, of the bytes of the file. -/
  sha256File : Bytes → String
  /-- A hash in hexadecimal digits is a file name. -/
  sha256_name : ∀ bytes, sha256File bytes ≠ "" ∧ sha256File bytes ≠ "." ∧ sha256File bytes ≠ ".."

/-- How a file gets to a hardcopy that is not there yet. -/
inductive Transfer where
  /-- By `os.link`, or where the file is moved by renaming it. -/
  | linked
  /-- The hardcopy is on another device, and the bytes are copied. -/
  | copied
  /-- Copying raises, and leaves nothing or a file with some bytes. -/
  | broken (left : Option Bytes)
  deriving DecidableEq

/-- The arguments of `store_file`, and what the file system does with the hardcopy. -/
structure StoreCall where
  sourcePath : PathString
  targetPath : Option PathString
  move : Bool
  transfer : Transfer
  deriving DecidableEq

/-- What `store_file` returns. -/
structure StoredFile where
  sha256Hash : String
  relativePath : PathString
  deriving DecidableEq

namespace LocalFileManager

variable (fm : LocalFileManager)

def hardcopyDir : PathString := fm.storageDir.join ["hardcopies"]

def fileDir : PathString := fm.storageDir.join ["files"]

def hardcopyPath (sha256Hash : String) : PathString := fm.hardcopyDir.join [sha256Hash]

def hardcopyLocation (sha256Hash : String) : Location :=
  .resolve fm.cwd (fm.hardcopyPath sha256Hash)

/-- The target path of a call. A source that is stored already keeps its name. -/
def targetPath (call : StoreCall) : PathString :=
  if call.sourcePath.startsWith fm.fileDir then call.sourcePath
  else
    fm.fileDir.join <| match call.targetPath with
      | some path => if path = [""] then call.sourcePath.basename else path
      | none => call.sourcePath.basename

def targetLocation (call : StoreCall) : Location :=
  .resolve fm.cwd (fm.targetPath call)

def location (stored : StoredFile) : Location :=
  .resolve fm.cwd (fm.fileDir.join stored.relativePath)

/-- The part of `store_file` that stores the hardcopy. -/
def storeHardcopy (disk : Disk) (call : StoreCall) (source hardcopy : Location) (bytes : Bytes) :
    Except Disk Disk :=
  if disk.entries hardcopy = none then
    match call.transfer with
    | .linked => do
      let disk ← disk.link source hardcopy
      .ok (if call.move then disk.unlink source else disk)
    | .copied =>
      let disk := disk.create hardcopy bytes
      .ok (if call.move then disk.unlink source else disk)
    | .broken none => .error disk
    | .broken (some left) => .error (disk.create hardcopy left)
  else .ok (if call.move then disk.unlink source else disk)

/-- The part that links the target to the hardcopy, unless there is something. -/
def createReference (disk : Disk) (hardcopy target : Location) : Except Disk Disk :=
  if disk.entries target = none then disk.link hardcopy target else .ok disk

/-- `store_file`. A call that raises leaves what it did before. -/
def storeFile (disk : Disk) (call : StoreCall) : Except Disk (Disk × StoredFile) :=
  match disk.locate fm.cwd call.sourcePath with
  | none => .error disk
  | some source => do
    let disk ← disk.makeParents fm.cwd (fm.targetPath call)
    match disk.read source with
    | none => .error disk
    | some bytes =>
      let sha256Hash := fm.sha256File bytes
      let disk ← disk.makeParents fm.cwd (fm.hardcopyPath sha256Hash)
      let disk ← storeHardcopy disk call source (fm.hardcopyLocation sha256Hash) bytes
      let disk ← createReference disk (fm.hardcopyLocation sha256Hash) (fm.targetLocation call)
      .ok (disk, ⟨sha256Hash, Location.relpath fm.cwd (fm.targetPath call) fm.fileDir⟩)

theorem location_relpath (call : StoreCall) (sha256Hash : String) :
    fm.location ⟨sha256Hash, Location.relpath fm.cwd (fm.targetPath call) fm.fileDir⟩ =
      fm.targetLocation call :=
  Location.resolve_join_relpath ..

theorem hardcopyLocation_injective {bytes bytes' : Bytes}
    (h : fm.hardcopyLocation (fm.sha256File bytes) = fm.hardcopyLocation (fm.sha256File bytes')) :
    fm.sha256File bytes = fm.sha256File bytes' := by
  have hlocation : ∀ bytes, fm.hardcopyLocation (fm.sha256File bytes) =
      Location.resolve fm.cwd fm.hardcopyDir ++ [⟨fm.sha256File bytes, fm.sha256_name bytes⟩] := by
    intro bytes
    unfold hardcopyLocation hardcopyPath
    rw [Location.resolve_join (by simp [PathString.absolute]) (cons_ne_nil _ _)]
    exact Location.enter_name _ ⟨_, fm.sha256_name bytes⟩
  rw [hlocation, hlocation] at h
  have hname := (append_inj_right' h rfl)
  simpa using hname

/-! ## §2 Runs -/

/-- The disk, and what the calls so far have returned. -/
structure Storage where
  disk : Disk
  returned : List StoredFile

inductive StorageEvent where
  | store (call : StoreCall)
  /-- A new file takes the place of what was there. -/
  | replace (location : Location) (bytes : Bytes)
  /-- The file that is there is opened and written over. -/
  | rewrite (location : Location) (bytes : Bytes)
  deriving DecidableEq

def step (s : Storage) : StorageEvent → Storage
  | .store call =>
    match fm.storeFile s.disk call with
    | .error disk => { s with disk }
    | .ok (disk, stored) => ⟨disk, stored :: s.returned⟩
  | .replace location bytes =>
    if s.disk.entries location = some .directory then s
    else { s with disk := s.disk.create location bytes }
  | .rewrite location bytes =>
    match s.disk.entries location with
    | none => { s with disk := s.disk.create location bytes }
    | some .directory => s
    | some (.file inode) => { s with disk := s.disk.overwrite inode bytes }

/-! ## §3 What the storage keeps -/

def Holds (disk : Disk) (location : Location) (sha256Hash : String) : Prop :=
  ∃ bytes, disk.read location = some bytes ∧ fm.sha256File bytes = sha256Hash

/-- The hardcopies hold what they are called after, and the returned paths what they were
returned with. -/
structure Sound (disk : Disk) (returned : List StoredFile) : Prop where
  numbered : disk.Numbered
  hardcopies : ∀ bytes, disk.entries (fm.hardcopyLocation (fm.sha256File bytes)) = none ∨
    fm.Holds disk (fm.hardcopyLocation (fm.sha256File bytes)) (fm.sha256File bytes)
  returned : ∀ stored ∈ returned, fm.Holds disk (fm.location stored) stored.sha256Hash

section Operations

variable {fm} {disk disk' : Disk} {location : Location} {sha256Hash : String}
  {returned : List StoredFile} {inode : Nat} {bytes : Bytes}

theorem holds_of_file (h : disk.entries location = some (.file inode))
    (hhash : fm.sha256File (disk.contents inode) = sha256Hash) :
    fm.Holds disk location sha256Hash :=
  ⟨_, Disk.read_eq_some.mpr ⟨inode, h, rfl⟩, hhash⟩

theorem Holds.of_read (h : fm.Holds disk location sha256Hash)
    (hread : disk'.read location = disk.read location) : fm.Holds disk' location sha256Hash := by
  obtain ⟨bytes, hbytes, hhash⟩ := h
  exact ⟨bytes, hread.trans hbytes, hhash⟩

theorem Holds.ne_none (h : fm.Holds disk location sha256Hash) :
    disk.entries location ≠ none := by
  obtain ⟨bytes, hread, -⟩ := h
  obtain ⟨inode, hfile, -⟩ := Disk.read_eq_some.mp hread
  rw [hfile]
  exact Option.some_ne_none _

theorem Sound.sublist {some : List StoredFile} (h : fm.Sound disk returned)
    (hsome : ∀ stored ∈ some, stored ∈ returned) : fm.Sound disk some :=
  ⟨h.numbered, h.hardcopies, fun stored hstored => h.returned stored (hsome stored hstored)⟩

theorem Sound.extends {made : List Location} (h : fm.Sound disk returned)
    (hextends : disk.Extends disk' made)
    (hmade : ∀ bytes, fm.hardcopyLocation (fm.sha256File bytes) ∉ made) :
    fm.Sound disk' returned := by
  refine ⟨hextends.numbered h.numbered, ?_, ?_⟩
  · intro bytes
    rw [hextends.of_not_mem (hmade bytes)]
    exact (h.hardcopies bytes).imp_right (·.of_read hextends.read)
  · exact fun stored hstored => (h.returned stored hstored).of_read hextends.read

theorem Sound.add (h : fm.Sound disk returned) (hnumbered : disk'.Numbered)
    (hfree : disk.entries location = none)
    (hothers : ∀ other, other ≠ location → disk'.read other = disk.read other ∧
      (disk.entries other = none → disk'.entries other = none))
    (hhardcopy : ∀ bytes, location = fm.hardcopyLocation (fm.sha256File bytes) →
      fm.Holds disk' location (fm.sha256File bytes)) :
    fm.Sound disk' returned := by
  refine ⟨hnumbered, ?_, ?_⟩
  · intro bytes
    by_cases hother : fm.hardcopyLocation (fm.sha256File bytes) = location
    · right
      rw [hother]
      exact hhardcopy bytes hother.symm
    · obtain ⟨hread, hnone⟩ := hothers _ hother
      exact (h.hardcopies bytes).imp hnone (·.of_read hread)
  · intro stored hstored
    have hholds := h.returned stored hstored
    apply hholds.of_read
    apply (hothers _ _).1
    rintro rfl
    exact hholds.ne_none hfree

theorem Sound.put (h : fm.Sound disk returned) (hfree : disk.entries location = none)
    (hinode : inode < disk.next)
    (hhardcopy : ∀ bytes, location = fm.hardcopyLocation (fm.sha256File bytes) →
      fm.sha256File (disk.contents inode) = fm.sha256File bytes) :
    fm.Sound (disk.put location (.file inode)) returned := by
  apply h.add _ hfree
  · intro other hother
    simp only [Disk.read, Disk.put_of_ne _ hother]
    exact ⟨rfl, id⟩
  · intro bytes hlocation
    exact holds_of_file (Disk.put_self ..) (hhardcopy bytes hlocation)
  · intro other inode' hfile
    by_cases hother : other = location
    · subst hother
      rw [Disk.put_self] at hfile
      obtain rfl : inode = inode' := by simpa using hfile
      exact hinode
    · rw [Disk.put_of_ne _ hother] at hfile
      exact h.numbered other inode' hfile

theorem numbered_create (h : disk.Numbered) (location : Location) (bytes : Bytes) :
    (disk.create location bytes).Numbered := by
  intro other inode hfile
  by_cases hother : other = location
  · subst hother
    rw [Disk.create_self] at hfile
    obtain rfl : disk.next = inode := by simpa using hfile
    exact Nat.lt_succ_self _
  · rw [Disk.create_of_ne _ hother] at hfile
    exact Nat.lt_succ_of_lt (h other inode hfile)

theorem read_create_of_ne (h : disk.Numbered) {other : Location} (hother : other ≠ location) :
    (disk.create location bytes).read other = disk.read other := by
  unfold Disk.read
  rw [Disk.create_of_ne _ hother]
  split
  · rename_i inode hfile
    rw [Disk.contents_create_of_ne location bytes (Nat.ne_of_lt (h other inode hfile))]
  · rfl

theorem holds_create (hhash : fm.sha256File bytes = sha256Hash) :
    fm.Holds (disk.create location bytes) location sha256Hash := by
  apply holds_of_file (Disk.create_self ..)
  rwa [Disk.contents_create_next]

theorem Sound.create (h : fm.Sound disk returned) (hfree : disk.entries location = none)
    (hhardcopy : ∀ bytes', location = fm.hardcopyLocation (fm.sha256File bytes') →
      fm.sha256File bytes = fm.sha256File bytes') :
    fm.Sound (disk.create location bytes) returned := by
  apply h.add (numbered_create h.numbered location bytes) hfree
  · intro other hother
    refine ⟨read_create_of_ne h.numbered hother, ?_⟩
    rw [Disk.create_of_ne _ hother]
    exact id
  · exact fun bytes' hlocation => holds_create (hhardcopy bytes' hlocation)

theorem read_unlink_of_ne {other : Location} (hother : other ≠ location) :
    (disk.unlink location).read other = disk.read other := by
  simp only [Disk.read, Disk.unlink_of_ne hother]
  rfl

theorem Sound.unlink (h : fm.Sound disk returned)
    (hkept : ∀ stored ∈ returned, fm.location stored ≠ location) :
    fm.Sound (disk.unlink location) returned := by
  refine ⟨?_, ?_, ?_⟩
  · intro other inode hfile
    by_cases hother : other = location
    · subst hother
      rw [Disk.unlink_self] at hfile
      cases hfile
    · rw [Disk.unlink_of_ne hother] at hfile
      exact h.numbered other inode hfile
  · intro bytes
    by_cases hother : fm.hardcopyLocation (fm.sha256File bytes) = location
    · left
      rw [hother, Disk.unlink_self]
    · rw [Disk.unlink_of_ne hother]
      exact (h.hardcopies bytes).imp_right (·.of_read (read_unlink_of_ne hother))
  · intro stored hstored
    exact (h.returned stored hstored).of_read (read_unlink_of_ne (hkept stored hstored))

end Operations

/-! ## §4 What keeps it so -/

/-- The target of a call on a file with these bytes does not get in the way of other names. -/
structure Fits (s : Storage) (call : StoreCall) (source : Location) (bytes : Bytes) : Prop where
  /-- The target is not one of the directories that the call makes. -/
  names : fm.targetLocation call ∉ Location.passed fm.cwd (fm.targetPath call) ++
    Location.passed fm.cwd (fm.hardcopyPath (fm.sha256File bytes))
  /-- There is nothing at the target, or a file with the same hash. -/
  free : s.disk.entries (fm.targetLocation call) = none ∨
    fm.Holds s.disk (fm.targetLocation call) (fm.sha256File bytes)
  /-- No hardcopy belongs where the directories of the hardcopies are. -/
  through : ∀ other, fm.hardcopyLocation (fm.sha256File other) ∉
    Location.passed fm.cwd (fm.hardcopyPath (fm.sha256File bytes))
  /-- The target is not where another hardcopy belongs. -/
  apart : ∀ other, fm.targetLocation call = fm.hardcopyLocation (fm.sha256File other) →
    fm.sha256File bytes = fm.sha256File other
  /-- A file that is moved is no hardcopy, and was returned under the target only. -/
  moved : call.move → source ≠ fm.hardcopyLocation (fm.sha256File bytes) ∧
    ∀ stored ∈ s.returned, fm.location stored = source → fm.targetLocation call = source
  /-- Copying does not break off with some of the bytes. -/
  whole : ∀ left, call.transfer = .broken (some left) →
    fm.sha256File left = fm.sha256File bytes

/-- The other program does not write to where the storage keeps something. -/
def Outside (s : Storage) (location : Location) : Prop :=
  (∀ bytes, location ≠ fm.hardcopyLocation (fm.sha256File bytes)) ∧
    ∀ stored ∈ s.returned, location ≠ fm.location stored

def Unlinked (s : Storage) (inode : Nat) : Prop :=
  (∀ bytes, s.disk.entries (fm.hardcopyLocation (fm.sha256File bytes)) ≠ some (.file inode)) ∧
    ∀ stored ∈ s.returned, s.disk.entries (fm.location stored) ≠ some (.file inode)

def Meets (s : Storage) : StorageEvent → Prop
  | .store call => ∀ source, s.disk.locate fm.cwd call.sourcePath = some source →
      (∀ other, fm.hardcopyLocation (fm.sha256File other) ∉
        Location.passed fm.cwd (fm.targetPath call)) ∧
      ∀ bytes, s.disk.read source = some bytes → fm.Fits s call source bytes
  | .replace location _ => fm.Outside s location
  | .rewrite location _ => fm.Outside s location ∧
      ∀ inode, s.disk.entries location = some (.file inode) → fm.Unlinked s inode

section Steps

variable {fm} {s : Storage} {disk disk' : Disk} {call : StoreCall} {source : Location}
  {bytes : Bytes} {returned : List StoredFile}

/-- What is returned under other names than the target. -/
def elsewhere (fm : LocalFileManager) (s : Storage) (call : StoreCall) : List StoredFile :=
  s.returned.filter fun stored => fm.location stored ≠ fm.targetLocation call

/-- The hardcopy is there, and nothing but the target can have lost what it held. -/
structure Hardcopied (fm : LocalFileManager) (disk : Disk) (returned : List StoredFile)
    (target : Location) (sha256Hash : String) : Prop where
  sound : fm.Sound disk returned
  hardcopy : fm.Holds disk (fm.hardcopyLocation sha256Hash) sha256Hash
  target : disk.entries target = none ∨ fm.Holds disk target sha256Hash

theorem hardcopied_of_add (before : Disk) {target : Location} {sha256Hash : String}
    (hsound : fm.Sound disk' returned)
    (hhardcopy : fm.Holds disk' (fm.hardcopyLocation sha256Hash) sha256Hash)
    (hothers : ∀ other, other ≠ fm.hardcopyLocation sha256Hash →
      disk'.read other = before.read other ∧
        (before.entries other = none → disk'.entries other = none))
    (htarget : before.entries target = none ∨ fm.Holds before target sha256Hash) :
    fm.Hardcopied disk' returned target sha256Hash := by
  refine ⟨hsound, hhardcopy, ?_⟩
  by_cases hsame : target = fm.hardcopyLocation sha256Hash
  · right
    rwa [hsame]
  · obtain ⟨hread, hnone⟩ := hothers target hsame
    exact htarget.imp hnone (·.of_read hread)

theorem Hardcopied.moved (hfits : fm.Fits s call source bytes)
    (h : fm.Hardcopied disk s.returned (fm.targetLocation call) (fm.sha256File bytes)) :
    fm.Hardcopied (if call.move then disk.unlink source else disk) (fm.elsewhere s call)
      (fm.targetLocation call) (fm.sha256File bytes) := by
  cases hmove : call.move with
  | false =>
    exact ⟨h.sound.sublist fun _ hmem => (mem_filter.mp hmem).1, h.hardcopy, h.target⟩
  | true =>
    obtain ⟨hsource, hmoved⟩ := hfits.moved hmove
    refine ⟨?_, h.hardcopy.of_read (read_unlink_of_ne hsource.symm), ?_⟩
    · apply (h.sound.sublist fun _ hmem => (mem_filter.mp hmem).1).unlink
      intro stored hstored hlocation
      obtain ⟨hmem, hne⟩ := mem_filter.mp hstored
      -- what was returned under the name of the source was returned under the target
      have htarget := hmoved stored hmem hlocation
      exact (of_decide_eq_true hne) (hlocation.trans htarget.symm)
    · by_cases hsame : fm.targetLocation call = source
      · left
        rw [hsame, if_pos rfl, Disk.unlink_self]
      · rw [if_pos rfl, Disk.unlink_of_ne hsame]
        exact h.target.imp_right (·.of_read (read_unlink_of_ne hsame))

theorem storeHardcopy_ok (hsound : fm.Sound disk s.returned)
    (hfits : fm.Fits s call source bytes) (hread : disk.read source = some bytes)
    (htarget : disk.entries (fm.targetLocation call) = none ∨
      fm.Holds disk (fm.targetLocation call) (fm.sha256File bytes))
    (hok : storeHardcopy disk call source (fm.hardcopyLocation (fm.sha256File bytes)) bytes =
      .ok disk') :
    fm.Hardcopied disk' (fm.elsewhere s call) (fm.targetLocation call) (fm.sha256File bytes) := by
  unfold storeHardcopy at hok
  split at hok
  · rename_i hfree
    cases htransfer : call.transfer with
    | linked =>
      obtain ⟨inode, hfile, hcontents⟩ := Disk.read_eq_some.mp hread
      simp only [htransfer, Disk.link, hfile] at hok
      obtain rfl := Except.ok.inj hok
      refine (hardcopied_of_add disk ?_ ?_ ?_ htarget).moved hfits
      · apply hsound.put hfree (hsound.numbered source inode hfile)
        intro other hother
        rw [hcontents]
        exact fm.hardcopyLocation_injective hother
      · exact holds_of_file (Disk.put_self ..) (congrArg fm.sha256File hcontents)
      · intro other hother
        simp only [Disk.read, Disk.put_of_ne _ hother]
        exact ⟨rfl, id⟩
    | copied =>
      simp only [htransfer] at hok
      obtain rfl := Except.ok.inj hok
      refine (hardcopied_of_add disk ?_ (holds_create rfl) ?_ htarget).moved hfits
      · exact hsound.create hfree fun other hother => fm.hardcopyLocation_injective hother
      · intro other hother
        refine ⟨read_create_of_ne hsound.numbered hother, ?_⟩
        rw [Disk.create_of_ne _ hother]
        exact id
    | broken left =>
      rw [htransfer] at hok
      cases left <;> cases hok
  · rename_i htaken
    obtain rfl := Except.ok.inj hok
    have hhardcopy := (hsound.hardcopies bytes).resolve_left htaken
    exact Hardcopied.moved hfits ⟨hsound, hhardcopy, htarget⟩

theorem storeHardcopy_error (hsound : fm.Sound disk s.returned)
    (hfits : fm.Fits s call source bytes) (hread : disk.read source = some bytes)
    (herror : storeHardcopy disk call source (fm.hardcopyLocation (fm.sha256File bytes)) bytes =
      .error disk') :
    fm.Sound disk' s.returned := by
  unfold storeHardcopy at herror
  split at herror
  · rename_i hfree
    cases htransfer : call.transfer with
    | linked =>
      obtain ⟨inode, hfile, -⟩ := Disk.read_eq_some.mp hread
      simp only [htransfer, Disk.link, hfile] at herror
      cases herror
    | copied => simp [htransfer] at herror
    | broken left =>
      rw [htransfer] at herror
      cases left with
      | none =>
        obtain rfl := Except.error.inj herror
        exact hsound
      | some left =>
        obtain rfl := Except.error.inj herror
        apply hsound.create hfree
        intro other hother
        rw [hfits.whole left htransfer]
        exact fm.hardcopyLocation_injective hother
  · cases herror

theorem createReference_ok (h : fm.Hardcopied disk (fm.elsewhere s call) (fm.targetLocation call)
      (fm.sha256File bytes)) (hfits : fm.Fits s call source bytes) :
    ∃ disk', createReference disk (fm.hardcopyLocation (fm.sha256File bytes))
        (fm.targetLocation call) = .ok disk' ∧ fm.Sound disk' (fm.elsewhere s call) ∧
      fm.Holds disk' (fm.targetLocation call) (fm.sha256File bytes) := by
  unfold createReference
  split
  · rename_i hfree
    obtain ⟨stored, hread, hhash⟩ := h.hardcopy
    obtain ⟨inode, hfile, hcontents⟩ := Disk.read_eq_some.mp hread
    simp only [Disk.link, hfile]
    refine ⟨_, rfl, ?_, holds_of_file (Disk.put_self ..) (hcontents ▸ hhash)⟩
    apply h.sound.put hfree (h.sound.numbered _ inode hfile)
    intro other hother
    rw [hcontents, hhash]
    exact hfits.apart other hother
  · rename_i htaken
    exact ⟨disk, rfl, h.sound, h.target.resolve_left htaken⟩

theorem Sound.of_elsewhere (hsound : fm.Sound s.disk s.returned)
    (hfits : fm.Fits s call source bytes) (h : fm.Sound disk (fm.elsewhere s call))
    (htarget : fm.Holds disk (fm.targetLocation call) (fm.sha256File bytes)) :
    fm.Sound disk s.returned := by
  refine ⟨h.numbered, h.hardcopies, ?_⟩
  intro stored hstored
  by_cases hlocation : fm.location stored = fm.targetLocation call
  · obtain ⟨before, hbefore, hhash⟩ := hsound.returned stored hstored
    rw [hlocation] at hbefore ⊢
    rcases hfits.free with hnone | ⟨there, hthere, hsame⟩
    · simp [Disk.read, hnone] at hbefore
    · obtain rfl := Option.some.inj (hbefore.symm.trans hthere)
      rwa [← hhash, hsame]
  · exact h.returned stored (mem_filter.mpr ⟨hstored, decide_eq_true hlocation⟩)

theorem step_store_sound (hsound : fm.Sound s.disk s.returned)
    (hmeets : fm.Meets s (.store call)) :
    fm.Sound (fm.step s (.store call)).disk (fm.step s (.store call)).returned := by
  simp only [step, storeFile, bind, Except.bind]
  cases hlocate : s.disk.locate fm.cwd call.sourcePath with
  | none => exact hsound
  | some source =>
    obtain ⟨hthrough, hfits⟩ := hmeets source hlocate
    have hparents := Disk.makeParents_extends s.disk fm.cwd (fm.targetPath call)
    have hparentsSound := hsound.extends hparents hthrough
    cases hmade : s.disk.makeParents fm.cwd (fm.targetPath call) with
    | error disk =>
      rw [hmade] at hparentsSound
      exact hparentsSound
    | ok disk =>
      rw [hmade] at hparents hparentsSound
      cases hread : disk.read source with
      | none =>
        simp only [hread]
        exact hparentsSound
      | some bytes =>
        have hfits := hfits bytes (hparents.read.symm.trans hread)
        simp only [hread]
        have hparents' := Disk.makeParents_extends disk fm.cwd
          (fm.hardcopyPath (fm.sha256File bytes))
        have hparentsSound' := hparentsSound.extends hparents' hfits.through
        cases hmade' : disk.makeParents fm.cwd (fm.hardcopyPath (fm.sha256File bytes)) with
        | error disk' =>
          rw [hmade'] at hparentsSound'
          exact hparentsSound'
        | ok disk' =>
          rw [hmade'] at hparents' hparentsSound'
          -- neither the source nor the target has changed so far
          have hsource : disk'.read source = some bytes := hparents'.read.trans hread
          have htarget : disk'.entries (fm.targetLocation call) =
              s.disk.entries (fm.targetLocation call) := by
            have hnames := hfits.names
            rw [mem_append, not_or] at hnames
            exact (hparents'.of_not_mem hnames.2).trans (hparents.of_not_mem hnames.1)
          have hfree : disk'.entries (fm.targetLocation call) = none ∨
              fm.Holds disk' (fm.targetLocation call) (fm.sha256File bytes) := by
            rw [htarget]
            exact hfits.free.imp_right (·.of_read (hparents'.read.trans hparents.read))
          cases hstored : storeHardcopy disk' call source
            (fm.hardcopyLocation (fm.sha256File bytes)) bytes with
          | error left =>
            have hleft := storeHardcopy_error hparentsSound' hfits hsource hstored
            simp only [hstored]
            exact hleft
          | ok stored =>
            have hhardcopied := storeHardcopy_ok hparentsSound' hfits hsource hfree hstored
            obtain ⟨linked, hlinked, helsewhere, hholds⟩ := createReference_ok hhardcopied hfits
            simp only [hstored, hlinked]
            have hlinkedSound := hsound.of_elsewhere hfits helsewhere hholds
            refine ⟨hlinkedSound.numbered, hlinkedSound.hardcopies, ?_⟩
            intro other hother
            rcases mem_cons.mp hother with rfl | hother
            · rw [fm.location_relpath]
              exact hholds
            · exact hlinkedSound.returned other hother

theorem step_replace_sound {location : Location} (hsound : fm.Sound s.disk s.returned)
    (houtside : fm.Outside s location) (bytes : Bytes) :
    fm.Sound (s.disk.create location bytes) s.returned := by
  have hread : ∀ {other : Location}, other ≠ location →
      (s.disk.create location bytes).read other = s.disk.read other :=
    fun hother => read_create_of_ne hsound.numbered hother
  refine ⟨numbered_create hsound.numbered location bytes, ?_, ?_⟩
  · intro other
    have hother := (houtside.1 other).symm
    rw [Disk.create_of_ne _ hother]
    exact (hsound.hardcopies other).imp_right (·.of_read (hread hother))
  · intro stored hstored
    have hother := (houtside.2 stored hstored).symm
    exact (hsound.returned stored hstored).of_read (hread hother)

theorem step_overwrite_sound {inode : Nat} (hsound : fm.Sound s.disk s.returned)
    (hunlinked : fm.Unlinked s inode) (bytes : Bytes) :
    fm.Sound (s.disk.overwrite inode bytes) s.returned := by
  have hread : ∀ {other : Location}, s.disk.entries other ≠ some (.file inode) →
      (s.disk.overwrite inode bytes).read other = s.disk.read other := by
    intro other hother
    simp only [Disk.read, Disk.overwrite]
    split
    · rename_i inode' hfile
      have hne : inode' ≠ inode := by
        rintro rfl
        exact hother hfile
      rw [Function.update_of_ne hne]
    · rfl
  refine ⟨hsound.numbered, ?_, ?_⟩
  · intro other
    exact (hsound.hardcopies other).imp_right (·.of_read (hread (hunlinked.1 other)))
  · intro stored hstored
    exact (hsound.returned stored hstored).of_read (hread (hunlinked.2 stored hstored))

theorem step_sound (s : Storage) (event : StorageEvent) (hsound : fm.Sound s.disk s.returned)
    (hmeets : fm.Meets s event) :
    fm.Sound (fm.step s event).disk (fm.step s event).returned := by
  cases event with
  | store call => exact step_store_sound hsound hmeets
  | replace location bytes =>
    by_cases hdirectory : s.disk.entries location = some .directory
    · simp only [step, if_pos hdirectory]
      exact hsound
    · simp only [step, if_neg hdirectory]
      exact step_replace_sound hsound hmeets bytes
  | rewrite location bytes =>
    cases hentry : s.disk.entries location with
    | none =>
      simp only [step, hentry]
      exact step_replace_sound hsound hmeets.1 bytes
    | some entry =>
      cases entry with
      | directory =>
        simp only [step, hentry]
        exact hsound
      | file inode =>
        simp only [step, hentry]
        exact step_overwrite_sound hsound (hmeets.2 inode hentry) bytes

end Steps

/-- **Every returned path holds what was returned for it**, in all states of a run in which each
call finds its name free, or taken by the same contents, and no other program writes to the
files of the storage. -/
theorem returned_holds {disk : Disk} (hnumbered : disk.Numbered)
    (hempty : ∀ bytes, disk.entries (fm.hardcopyLocation (fm.sha256File bytes)) = none)
    {events : List StorageEvent} (h : Along fm.step fm.Meets ⟨disk, []⟩ events) :
    Along fm.step (fun s event => ∀ stored ∈ (fm.step s event).returned,
      fm.Holds (fm.step s event).disk (fm.location stored) stored.sha256Hash) ⟨disk, []⟩ events := by
  apply h.of_invariant fun s => fm.Sound s.disk s.returned
  · exact fun s event => step_sound s event
  · exact fun s event hsound hmeets => (step_sound s event hsound hmeets).returned
  · exact ⟨hnumbered, fun bytes => .inl (hempty bytes), nofun⟩

/-! ## §5 Two contents under one name -/

section Examples

/-- The storage of `/alert`. The hashes are those of the three bytes `abc` and of no bytes. -/
def alertFiles : LocalFileManager where
  storageDir := ["", "alert"]
  cwd := []
  sha256File bytes :=
    if bytes = [97, 98, 99] then
      "ba7816bf8f01cfea414140de5dae2223b00361a396177a9cb410ff61f20015ad"
    else "e3b0c44298fc1c149afbf4c8996fb92427ae41e4649b934ca495991b7852b855"
  sha256_name bytes := by split <;> decide

def inputLocation : Location := [⟨"in", by decide⟩]

/-- The root directory with the file `/in`. -/
def inputDisk : Disk where
  entries location :=
    if location = [] then some .directory
    else if location = inputLocation then some (.file 0)
    else none
  contents _ := [97, 98, 99]
  next := 1

/-- The file `/in` is stored as `a.txt`. -/
def storeInput (transfer : Transfer) : StorageEvent :=
  .store ⟨["", "in"], some ["a.txt"], false, transfer⟩

/-- The file is stored, an empty file takes its place, and is stored under the same name. -/
def sameName : List StorageEvent :=
  [storeInput .linked, .replace inputLocation [], storeInput .linked]

/-- Both calls return `a.txt`, the second with the hash of no bytes; it holds `abc`. -/
theorem second_contents_are_not_stored :
    (sameName.foldl alertFiles.step ⟨inputDisk, []⟩).returned =
        [⟨"e3b0c44298fc1c149afbf4c8996fb92427ae41e4649b934ca495991b7852b855", ["a.txt"]⟩,
          ⟨"ba7816bf8f01cfea414140de5dae2223b00361a396177a9cb410ff61f20015ad", ["a.txt"]⟩] ∧
      ¬ alertFiles.Holds (sameName.foldl alertFiles.step ⟨inputDisk, []⟩).disk
        (alertFiles.location
          ⟨"e3b0c44298fc1c149afbf4c8996fb92427ae41e4649b934ca495991b7852b855", ["a.txt"]⟩)
        "e3b0c44298fc1c149afbf4c8996fb92427ae41e4649b934ca495991b7852b855" := by
  refine ⟨by decide, ?_⟩
  rintro ⟨bytes, hread, hhash⟩
  have habc : (sameName.foldl alertFiles.step ⟨inputDisk, []⟩).disk.read (alertFiles.location
      ⟨"e3b0c44298fc1c149afbf4c8996fb92427ae41e4649b934ca495991b7852b855", ["a.txt"]⟩) =
        some [97, 98, 99] := by decide
  obtain rfl := Option.some.inj (habc.symm.trans hread)
  exact absurd hhash (by decide)

theorem alertFiles_hash (bytes : Bytes) :
    alertFiles.sha256File bytes =
        "ba7816bf8f01cfea414140de5dae2223b00361a396177a9cb410ff61f20015ad" ∨
      alertFiles.sha256File bytes =
        "e3b0c44298fc1c149afbf4c8996fb92427ae41e4649b934ca495991b7852b855" := by
  by_cases h : bytes = [97, 98, 99]
  · exact .inl (if_pos h)
  · exact .inr (if_neg h)

/-- Storing the file once, and replacing it afterwards, leaves the stored file alone. -/
theorem stored_input_is_kept :
    Along alertFiles.step (fun s event => ∀ stored ∈ (alertFiles.step s event).returned,
      alertFiles.Holds (alertFiles.step s event).disk (alertFiles.location stored)
        stored.sha256Hash) ⟨inputDisk, []⟩
      [storeInput .linked, .replace inputLocation []] := by
  apply alertFiles.returned_holds
  · intro location inode hfile
    simp only [inputDisk] at hfile ⊢
    split at hfile
    · cases hfile
    · split at hfile
      · obtain rfl : 0 = inode := by simpa using hfile
        decide
      · cases hfile
  · intro bytes
    rcases alertFiles_hash bytes with h | h <;> rw [h] <;> decide
  · refine ⟨?_, ⟨?_, ?_⟩, trivial⟩
    · intro source hsource
      have hlocate : inputDisk.locate [] ["", "in"] = some inputLocation := by decide
      obtain rfl := Option.some.inj (hlocate.symm.trans hsource)
      refine ⟨?_, ?_⟩
      · intro other
        rcases alertFiles_hash other with h | h <;> rw [h] <;> decide
      · intro bytes hread
        have habc : inputDisk.read inputLocation = some [97, 98, 99] := by decide
        obtain rfl := Option.some.inj (habc.symm.trans hread)
        refine ⟨by decide, .inl (by decide), ?_, ?_, nofun, nofun⟩
        · intro other
          rcases alertFiles_hash other with h | h <;> rw [h] <;> decide
        · intro other hother
          rcases alertFiles_hash other with h | h <;> rw [h] at hother <;>
            exact absurd hother (by decide)
    · intro other
      rcases alertFiles_hash other with h | h <;> rw [h] <;> decide
    · decide

end Examples

end LocalFileManager

end Ace3.Analysis
