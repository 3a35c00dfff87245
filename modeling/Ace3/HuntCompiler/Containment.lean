import Ace3.HuntCompiler.Compiler
import Ace3.Query.Decoder
import Mathlib.Algebra.Group.Int.Defs

/-!
# Where a Received Hunt Is Written

`load_compiled_hunt` gets its hunts from requests. The paths of the embedded files are any
strings there, and `os.path.join` gives way to a path that begins with a separator.
-/

namespace Ace3.HuntCompiler.Received

open List
open Lib.FileSystem

/-! ## §1 The document -/

/-- `EmbeddedFile`, with anything that the data model accepts. -/
structure EmbeddedFile where
  kind : Role
  path : Text
  content : Text
  encoding : Text := "text".toList
  permissions : Option Int := none

structure CompiledHunt where
  version : Int := 2
  target : Text
  assets : List EmbeddedFile := []

/-! ## §2 The operating system -/

/-- Where relative paths start, and the locations at which nothing can be made or written, for
want of a permission or because of a name that is too long. -/
structure OperatingSystem where
  cwd : Location
  refuses : Location → Bool

namespace OperatingSystem

variable (os : OperatingSystem)

def denies (location : Location) : Bool :=
  os.refuses location || location.any (·.val.toList.contains '\x00')

/-- `os.makedirs(path, exist_ok=True)`, by the directories that the path leads through. -/
def makedirs (disk : Disk) : List Location → Except Disk Disk
  | [] => .ok disk
  | location :: locations =>
    match disk.entries location with
    | some .directory => makedirs disk locations
    | some (.file _) => .error disk
    | none =>
      if os.denies location then .error disk
      else makedirs (disk.put location .directory) locations

/-- `open(path, "w")` and the writing of some bytes. A path that ends in a separator or in dots is
that of a directory. -/
def write (disk : Disk) (path : PathString) (bytes : Bytes) : Option Disk :=
  let location := Location.resolve os.cwd path
  if path.getLast?.getD "" ∈ ["", ".", ".."] ∨ os.denies location then none
  else
    match disk.entries location with
    | some .directory => none
    | some (.file inode) => some (disk.overwrite inode bytes)
    | none => some (disk.create location bytes)

end OperatingSystem

/-! ## §3 One file -/

namespace EmbeddedFile

variable (os : OperatingSystem) (tempDir : Text) (asset : EmbeddedFile)

def absPath : PathString :=
  (authoredPath tempDir).join (authoredPath asset.path)

def location : Location :=
  Location.resolve os.cwd (asset.absPath tempDir)

def passed : List Location :=
  Location.passed os.cwd (asset.absPath tempDir)

/-- The bytes that are written, unless `base64.b64decode` raises. -/
def bytes : Option Bytes :=
  if asset.encoding = "base64".toList then
    if asset.content.all (·.toNat < 128) then
      (Query.a2bBase64 asset.content 0 0 0 []).toOption
    else none
  else some (String.ofList (expand tempDir asset.content)).toUTF8.toList

/-- The argument of `os.chmod`, if it is called. -/
def mode : Option Int :=
  if asset.kind = .executable then asset.permissions else none

end EmbeddedFile

/-- What has been done so far: the files that were opened, and the modes they were given. -/
structure Loading where
  disk : Disk
  opened : List Location := []
  modes : List (Location × Int) := []

inductive LoadError where
  | version
  | makedirs
  | opening
  | decoding
  | chmod
  deriving DecidableEq

/-- An `int` of the platform. -/
def isCInt (mode : Int) : Bool :=
  -2 ^ 31 ≤ mode && mode < 2 ^ 31

def loadAsset (os : OperatingSystem) (tempDir : Text) (state : Loading) (asset : EmbeddedFile) :
    Except (LoadError × Loading) Loading :=
  let location := asset.location os tempDir
  if (asset.absPath tempDir).length ≤ 1 then .error (.makedirs, state)
  else
    match os.makedirs state.disk (asset.passed os tempDir) with
    | .error disk => .error (.makedirs, { state with disk })
    | .ok disk =>
      match os.write disk (asset.absPath tempDir) ((asset.bytes tempDir).getD []) with
      | none => .error (.opening, { state with disk })
      | some disk =>
        let state := { state with disk, opened := state.opened ++ [location] }
        if (asset.bytes tempDir).isNone then .error (.decoding, state)
        else
          match asset.mode with
          | none => .ok state
          | some mode =>
            if isCInt mode then .ok { state with modes := state.modes ++ [(location, mode)] }
            else .error (.chmod, state)

/-! ## §4 All files -/

def loadAssets (os : OperatingSystem) (tempDir : Text) :
    Loading → List EmbeddedFile → Option LoadError × Loading
  | state, [] => (none, state)
  | state, asset :: assets =>
    match loadAsset os tempDir state asset with
    | .error (error, state) => (some error, state)
    | .ok state => loadAssets os tempDir state assets

def loadCompiledHunt (os : OperatingSystem) (disk : Disk) (tempDir : Text)
    (compiled : CompiledHunt) : Except LoadError PathString × Loading :=
  if compiled.version ≠ 2 then (.error .version, { disk })
  else
    match loadAssets os tempDir { disk } compiled.assets with
    | (some error, state) => (.error error, state)
    | (none, state) => (.ok ((authoredPath tempDir).join (authoredPath compiled.target)), state)

/-! ## §5 What keeps a file from being written -/

section Obstacles

variable (os : OperatingSystem) (disk : Disk) (tempDir : Text)

def Passable (location : Location) : Prop :=
  disk.entries location = some .directory ∨
    disk.entries location = none ∧ os.denies location = false

/-- Nothing is in the way of the file: neither the path itself nor what is on the disk, nor what
the files in front of it need. -/
structure Free (earlier : List EmbeddedFile) (asset : EmbeddedFile) : Prop where
  long : 1 < (asset.absPath tempDir).length
  named : (asset.absPath tempDir).getLast?.getD "" ∉ ["", ".", ".."]
  allowed : os.denies (asset.location os tempDir) = false
  noDirectory : disk.entries (asset.location os tempDir) ≠ some .directory
  notPassed : ∀ other ∈ earlier ++ [asset], asset.location os tempDir ∉ other.passed os tempDir
  directories : ∀ location ∈ asset.passed os tempDir,
    Passable os disk location ∧ ∀ other ∈ earlier, other.location os tempDir ≠ location

def Completes (asset : EmbeddedFile) : Prop :=
  (asset.bytes tempDir).isSome ∧ ∀ mode ∈ asset.mode, isCInt mode

/-- Each of the files can be written after those in front of it. -/
def AllWritten (assets : List EmbeddedFile) : Prop :=
  ∀ earlier asset later, assets = earlier ++ asset :: later →
    Free os disk tempDir earlier asset ∧ Completes tempDir asset

def Beneath (location : Location) : Prop :=
  Location.resolve os.cwd (authoredPath tempDir) <+: location ∧
    location ≠ Location.resolve os.cwd (authoredPath tempDir)

instance (location : Location) : Decidable (Beneath os tempDir location) := by
  unfold Beneath
  infer_instance

/-! ## §6 What one file does -/

variable {os disk tempDir} {state : Loading} {earlier : List EmbeddedFile} {asset : EmbeddedFile}

theorem makedirs_ok {locations : List Location} (h : ∀ l ∈ locations, Passable os disk l) :
    ∃ disk', os.makedirs disk locations = .ok disk' ∧
      ∀ l, disk'.entries l = if l ∈ locations then some .directory else disk.entries l := by
  induction locations generalizing disk with
  | nil => exact ⟨disk, rfl, fun l => rfl⟩
  | cons location locations ih =>
    have hrest := fun l (hl : l ∈ locations) => h l (mem_cons_of_mem _ hl)
    rcases h location mem_cons_self with hdir | ⟨hnone, hallowed⟩
    · obtain ⟨disk', hok, hentries⟩ := ih hrest
      refine ⟨disk', by rw [OperatingSystem.makedirs, hdir]; exact hok, fun l => ?_⟩
      rw [hentries]
      by_cases heq : l = location
      · subst heq
        simp [hdir]
      · simp [heq]
    · obtain ⟨disk', hok, hentries⟩ := @ih (disk.put location .directory) fun l hl => by
        by_cases heq : l = location
        · subst heq
          exact .inl (Disk.put_self ..)
        · rw [Passable, Disk.put_of_ne _ heq]
          exact hrest l hl
      refine ⟨disk', by simpa [OperatingSystem.makedirs, hnone, hallowed] using hok, fun l => ?_⟩
      rw [hentries]
      by_cases heq : l = location
      · subst heq
        simp
      · simp [heq, Disk.put_of_ne _ heq]

theorem makedirs_error {locations : List Location} (h : ∃ l ∈ locations, ¬ Passable os disk l) :
    ∃ disk', os.makedirs disk locations = .error disk' := by
  induction locations generalizing disk with
  | nil =>
    obtain ⟨l, hl, -⟩ := h
    cases hl
  | cons location locations ih =>
    rw [OperatingSystem.makedirs]
    obtain ⟨l, hl, hnot⟩ := h
    cases hentry : disk.entries location with
    | none =>
      by_cases hdenied : os.denies location
      · exact ⟨disk, if_pos hdenied⟩
      · have hallowed : os.denies location = false := by simpa using hdenied
        have hne : l ≠ location := by
          rintro rfl
          exact hnot (.inr ⟨hentry, hallowed⟩)
        obtain ⟨disk', herror⟩ := @ih (disk.put location .directory)
          ⟨l, (mem_cons.mp hl).resolve_left hne, by rwa [Passable, Disk.put_of_ne _ hne]⟩
        exact ⟨disk', by simpa [hallowed] using herror⟩
    | some entry =>
      cases entry with
      | file inode => exact ⟨disk, rfl⟩
      | directory =>
        have hne : l ≠ location := by
          rintro rfl
          exact hnot (.inl hentry)
        exact ih ⟨l, (mem_cons.mp hl).resolve_left hne, hnot⟩

theorem write_ok {path : PathString} (bytes : Bytes)
    (hnamed : path.getLast?.getD "" ∉ ["", ".", ".."])
    (hallowed : os.denies (Location.resolve os.cwd path) = false)
    (hfree : disk.entries (Location.resolve os.cwd path) ≠ some .directory) :
    ∃ disk' inode, os.write disk path bytes = some disk' ∧ ∀ l, disk'.entries l =
      if l = Location.resolve os.cwd path then some (.file inode) else disk.entries l := by
  have hgo : ¬ (path.getLast?.getD "" ∈ ["", ".", ".."] ∨
      os.denies (Location.resolve os.cwd path)) := by
    rw [hallowed]
    simpa using hnamed
  simp only [OperatingSystem.write, if_neg hgo]
  cases hentry : disk.entries (Location.resolve os.cwd path) with
  | none =>
    refine ⟨_, disk.next, rfl, fun l => ?_⟩
    by_cases heq : l = Location.resolve os.cwd path
    · simp [heq]
    · simp [heq, Disk.create_of_ne _ heq]
  | some entry =>
    cases entry with
    | directory => exact absurd hentry hfree
    | file inode =>
      refine ⟨_, inode, rfl, fun l => ?_⟩
      by_cases heq : l = Location.resolve os.cwd path
      · simpa [heq, Disk.overwrite] using hentry
      · simp [heq, Disk.overwrite]

/-- What the disk looks like after some files: theirs and their directories are there. -/
structure Progress (os : OperatingSystem) (disk : Disk) (tempDir : Text)
    (earlier : List EmbeddedFile) (now : Disk) : Prop where
  file : ∀ l, (∃ inode, now.entries l = some (.file inode)) ↔
    (∃ inode, disk.entries l = some (.file inode)) ∨
      ∃ other ∈ earlier, other.location os tempDir = l
  directory : ∀ l, now.entries l = some .directory ↔
    disk.entries l = some .directory ∨ ∃ other ∈ earlier, l ∈ other.passed os tempDir
  allowed : ∀ l, disk.entries l = none → now.entries l ≠ none → os.denies l = false

theorem Progress.passable_iff {now : Disk} (h : Progress os disk tempDir earlier now)
    (l : Location) :
    Passable os now l ↔
      Passable os disk l ∧ ∀ other ∈ earlier, other.location os tempDir ≠ l := by
  have hfile := h.file l
  have hdirectory := h.directory l
  have hallowed := h.allowed l
  unfold Passable
  cases hdisk : disk.entries l with
  | none => cases hnow : now.entries l with
    | none => grind
    | some entry => cases entry <;> grind
  | some entry => cases hnow : now.entries l with
    | none => cases entry <;> grind
    | some entry' => cases entry <;> cases entry' <;> grind

theorem loadAsset_of_not_free (h : Progress os disk tempDir earlier state.disk)
    (hnot : ¬ Free os disk tempDir earlier asset) :
    ∃ error state', loadAsset os tempDir state asset = .error (error, state') ∧
      state'.opened = state.opened := by
  simp only [loadAsset]
  by_cases hlong : (asset.absPath tempDir).length ≤ 1
  · exact ⟨_, _, if_pos hlong, rfl⟩
  rw [if_neg hlong]
  by_cases hpassable : ∀ l ∈ asset.passed os tempDir, Passable os state.disk l
  swap
  · obtain ⟨disk', herror⟩ := makedirs_error (by simpa using hpassable)
    rw [herror]
    exact ⟨_, _, rfl, rfl⟩
  obtain ⟨disk', hok, hentries⟩ := makedirs_ok hpassable
  rw [hok]
  -- the directories can be made, so it is the file itself that cannot be opened
  have hwrite : ∀ bytes, os.write disk' (asset.absPath tempDir) bytes = none := by
    intro bytes
    by_contra hsome
    simp only [OperatingSystem.write] at hsome
    split at hsome
    · simp at hsome
    rename_i hgo
    rw [not_or] at hgo
    have hdirectory : disk'.entries (asset.location os tempDir) ≠ some .directory := by
      intro hdirectory
      unfold EmbeddedFile.location at hdirectory
      simp only [hdirectory, not_true] at hsome
    rw [hentries] at hdirectory
    have hown : asset.location os tempDir ∉ asset.passed os tempDir := by
      intro hmem
      simp [hmem] at hdirectory
    rw [if_neg hown, Ne, h.directory, not_or] at hdirectory
    refine hnot ⟨by omega, hgo.1, Bool.eq_false_iff.mpr hgo.2, hdirectory.1, ?_, fun l hl =>
      (h.passable_iff l).mp (hpassable l hl)⟩
    intro other hother hmem
    rcases mem_append.mp hother with hother | hother
    · exact hdirectory.2 ⟨other, hother, hmem⟩
    · rw [mem_singleton.mp hother] at hmem
      exact hown hmem
  simp only [hwrite]
  exact ⟨_, _, rfl, rfl⟩

theorem loadAsset_of_free (h : Progress os disk tempDir earlier state.disk)
    (hfree : Free os disk tempDir earlier asset) :
    ∃ state', state'.opened = state.opened ++ [asset.location os tempDir] ∧
      Progress os disk tempDir (earlier ++ [asset]) state'.disk ∧
      (Completes tempDir asset → loadAsset os tempDir state asset = .ok state') ∧
      (¬ Completes tempDir asset →
        ∃ error, loadAsset os tempDir state asset = .error (error, state')) := by
  have hpassable : ∀ l ∈ asset.passed os tempDir, Passable os state.disk l := fun l hl =>
    (h.passable_iff l).mpr (hfree.directories l hl)
  have hown := hfree.notPassed asset (by simp)
  obtain ⟨made, hmade, hdirs⟩ := makedirs_ok hpassable
  have hdirectory : made.entries (asset.location os tempDir) ≠ some .directory := by
    rw [hdirs, if_neg hown, Ne, h.directory, not_or]
    exact ⟨hfree.noDirectory, fun ⟨other, hother, hmem⟩ =>
      hfree.notPassed other (mem_append_left _ hother) hmem⟩
  obtain ⟨written, inode, hwritten, hentries⟩ :=
    write_ok ((asset.bytes tempDir).getD []) hfree.named hfree.allowed hdirectory
  have hprogress : Progress os disk tempDir (earlier ++ [asset]) written := by
    have hall : ∀ l, written.entries l =
        if l = asset.location os tempDir then some (.file inode)
        else if l ∈ asset.passed os tempDir then some .directory else state.disk.entries l := by
      intro l
      rw [hentries, hdirs]
      rfl
    refine ⟨fun l => ?_, fun l => ?_, fun l hnone hsome => ?_⟩
    · have hfile := h.file l
      have hway := hfree.directories l
      rw [hall]
      unfold Passable at hway
      by_cases heq : l = asset.location os tempDir
      · simp [heq]
      by_cases hmem : l ∈ asset.passed os tempDir
      · grind
      · simp only [if_neg heq, if_neg hmem, hfile, mem_append, mem_singleton]
        grind
    · have hdir := h.directory l
      rw [hall]
      by_cases heq : l = asset.location os tempDir
      · have hnot := hfree.notPassed
        have hno := hfree.noDirectory
        subst heq
        simp only [if_true]
        grind
      by_cases hmem : l ∈ asset.passed os tempDir
      · simp only [if_neg heq, if_pos hmem, true_iff]
        exact .inr ⟨asset, by simp, hmem⟩
      · simp only [if_neg heq, if_neg hmem, hdir, mem_append, mem_singleton]
        grind
    · rw [hall] at hsome
      by_cases heq : l = asset.location os tempDir
      · exact heq ▸ hfree.allowed
      by_cases hmem : l ∈ asset.passed os tempDir
      · rcases (hfree.directories l hmem).1 with hdir | hnone
        · rw [hnone] at hdir
          cases hdir
        · exact hnone.2
      · rw [if_neg heq, if_neg hmem] at hsome
        exact h.allowed l hnone hsome
  have hlong : ¬ (asset.absPath tempDir).length ≤ 1 := by
    have := hfree.long
    omega
  simp only [loadAsset, if_neg hlong, hmade, hwritten]
  cases hbytes : asset.bytes tempDir with
  | none =>
    refine ⟨{ state with disk := written, opened := state.opened ++ [asset.location os tempDir] },
      rfl, hprogress, fun hcompletes => ?_, fun _ => ⟨_, rfl⟩⟩
    have hsome := hcompletes.1
    rw [hbytes] at hsome
    cases hsome
  | some bytes =>
    cases hmode : asset.mode with
    | none =>
      refine ⟨{ state with disk := written, opened := state.opened ++ [asset.location os tempDir] },
        rfl, hprogress, fun _ => rfl, fun hnot => ?_⟩
      exact absurd ⟨by rw [hbytes]; rfl, by simp [hmode]⟩ hnot
    | some mode =>
      by_cases hint : isCInt mode
      · refine ⟨{ state with
            disk := written, opened := state.opened ++ [asset.location os tempDir],
            modes := state.modes ++ [(asset.location os tempDir, mode)] },
          rfl, hprogress, fun _ => by simp [hint], fun hnot => ?_⟩
        exact absurd ⟨by rw [hbytes]; rfl, by simpa [hmode] using hint⟩ hnot
      · refine ⟨{ state with
            disk := written, opened := state.opened ++ [asset.location os tempDir] },
          rfl, hprogress, fun hcompletes => ?_, fun _ => ⟨.chmod, by simp [hint]⟩⟩
        exact absurd (hcompletes.2 mode (by simp [hmode])) hint

/-! ## §7 What is written -/

theorem AllWritten.concat (h : AllWritten os disk tempDir earlier)
    (hfree : Free os disk tempDir earlier asset) (hcompletes : Completes tempDir asset) :
    AllWritten os disk tempDir (earlier ++ [asset]) := by
  intro before other after heq
  rcases after.eq_nil_or_concat with rfl | ⟨after, last, rfl⟩
  · obtain ⟨rfl, hlast⟩ := append_inj' heq rfl
    cases hlast
    exact ⟨hfree, hcompletes⟩
  · have hsplit : earlier ++ [asset] = (before ++ other :: after) ++ [last] := by
      rw [heq]
      simp
    exact h before other after (append_inj' hsplit rfl).1

/-- The files that are opened are those that nothing is in the way of, up to the first that is
not written. -/
theorem mem_opened_iff {assets : List EmbeddedFile} {location : Location}
    (h : Progress os disk tempDir earlier state.disk)
    (hearlier : AllWritten os disk tempDir earlier) :
    location ∈ (loadAssets os tempDir state assets).2.opened ↔ location ∈ state.opened ∨
      ∃ before asset after, assets = before ++ asset :: after ∧
        AllWritten os disk tempDir (earlier ++ before) ∧
        Free os disk tempDir (earlier ++ before) asset ∧ asset.location os tempDir = location := by
  induction assets generalizing earlier state with
  | nil => simp [loadAssets]
  | cons asset assets ih =>
    rw [loadAssets]
    -- a file that is not the first one is opened only if the first one was written
    have hsplit : (∃ before other after, asset :: assets = before ++ other :: after ∧
        AllWritten os disk tempDir (earlier ++ before) ∧
        Free os disk tempDir (earlier ++ before) other ∧ other.location os tempDir = location) ↔
        (Free os disk tempDir earlier asset ∧ asset.location os tempDir = location) ∨
        ((Free os disk tempDir earlier asset ∧ Completes tempDir asset) ∧
        ∃ before other after, assets = before ++ other :: after ∧
          AllWritten os disk tempDir (earlier ++ [asset] ++ before) ∧
          Free os disk tempDir (earlier ++ [asset] ++ before) other ∧
          other.location os tempDir = location) := by
      constructor
      · rintro ⟨before, other, after, heq, hall, hfree, hlocation⟩
        cases before with
        | nil =>
          cases heq
          exact .inl ⟨by simpa using hfree, hlocation⟩
        | cons first before =>
          obtain ⟨rfl, hrest⟩ := List.cons.inj heq
          refine .inr ⟨hall earlier asset before rfl, before, other, after, hrest, ?_, ?_, hlocation⟩
          · simpa using hall
          · simpa using hfree
      · rintro (⟨hfree, hlocation⟩ | ⟨-, before, other, after, heq, hall, hfree, hlocation⟩)
        · exact ⟨[], asset, assets, rfl, by simpa using hearlier, by simpa using hfree, hlocation⟩
        · refine ⟨asset :: before, other, after, by rw [heq]; rfl, ?_, ?_, hlocation⟩
          · simpa using hall
          · simpa using hfree
    rw [hsplit]
    by_cases hfree : Free os disk tempDir earlier asset
    · obtain ⟨state', hopened, hprogress, hok, herror⟩ := loadAsset_of_free h hfree
      by_cases hcompletes : Completes tempDir asset
      · rw [hok hcompletes]
        simp only [ih hprogress (hearlier.concat hfree hcompletes), hopened]
        simp [hfree, hcompletes, or_assoc, eq_comm]
      · obtain ⟨error, herror⟩ := herror hcompletes
        rw [herror]
        simp [hopened, hfree, hcompletes, eq_comm]
    · obtain ⟨error, state', herror, hopened⟩ := loadAsset_of_not_free h hfree
      rw [herror]
      simp [hopened, hfree]

/-- All that is opened lies below the directory exactly if this holds for the path of each file
that is reached: that has nothing in its way and comes after files which can be written. -/
theorem opened_beneath_iff (os : OperatingSystem) (disk : Disk) (tempDir : Text)
    (compiled : CompiledHunt) :
    (∀ location ∈ (loadCompiledHunt os disk tempDir compiled).2.opened,
        Beneath os tempDir location) ↔
      (compiled.version = 2 → ∀ earlier asset later,
        compiled.assets = earlier ++ asset :: later → AllWritten os disk tempDir earlier →
        Free os disk tempDir earlier asset → Beneath os tempDir (asset.location os tempDir)) := by
  by_cases hversion : compiled.version = 2
  swap
  · simp [loadCompiledHunt, hversion]
  have hopened : (loadCompiledHunt os disk tempDir compiled).2 =
      (loadAssets os tempDir { disk } compiled.assets).2 := by
    rw [loadCompiledHunt, if_neg (not_not.mpr hversion)]
    split <;> simp_all
  have hstart : Progress os disk tempDir [] ({ disk } : Loading).disk :=
    ⟨by simp, by simp, by grind⟩
  have hnone : AllWritten os disk tempDir [] := by
    intro earlier asset later heq
    simp at heq
  rw [hopened]
  simp only [mem_opened_iff hstart hnone, nil_append]
  constructor
  · intro h _ earlier asset later heq hall hfree
    exact h _ (.inr ⟨earlier, asset, later, heq, hall, hfree, rfl⟩)
  · rintro h location (hmem | ⟨earlier, asset, later, heq, hall, hfree, rfl⟩)
    · cases hmem
    · exact h hversion earlier asset later heq hall hfree

/-- Both a path from the root and one with a parent segment lead out of the directory. -/
theorem written_outside :
    let os : OperatingSystem := ⟨[], fun _ => false⟩
    let disk : Disk := ⟨fun location => if location.length ≤ 1 then some .directory else none,
      fun _ => [], 0⟩
    let file (path : String) : EmbeddedFile :=
      ⟨.support, path.toList, "x".toList, "text".toList, none⟩
    ¬ (∀ location ∈ (loadCompiledHunt os disk "/t".toList
        ⟨2, "a.yaml".toList, [file "/etc/x"]⟩).2.opened, Beneath os "/t".toList location) ∧
      ¬ ∀ location ∈ (loadCompiledHunt os disk "/t".toList
        ⟨2, "a.yaml".toList, [file "../u/x"]⟩).2.opened, Beneath os "/t".toList location := by
  decide

end Obstacles

end Ace3.HuntCompiler.Received
