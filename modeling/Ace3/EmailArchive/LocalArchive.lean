import Ace3.Analysis.Observable
import Ace3.Crypto.EncryptedChunk
import Mathlib.Logic.Function.Basic

/-!
# The Local Email Archive

`EmailArchiveLocal` of `saq/email_archive/local.py` with `lock_local` of `saq/local_locking.py`.
Calls of `archive_email` take one operation on the disk or the database at a time; between two
operations any other call may run, and a call may end at any of them.
-/

namespace Ace3.EmailArchive

open Analysis (isSpace)
open Crypto

/-! ## §1 Values -/

/-- The libraries behind the archive. Hashes do not collide, compression is undone, and an
encrypted file that is cut off is not read. -/
structure Codec (Hash : Type*) where
  sha256 : Bytes → Hash
  gzip : Bytes → Bytes
  gunzip : Bytes → Option Bytes
  primitives : Primitives
  /-- The global encryption key. -/
  key : Bytes
  sha256_injective : Function.Injective sha256
  gunzip_gzip : ∀ email, gunzip (gzip email) = some email
  decrypt_truncated : ∀ nonce email n, nonce.length = 12 →
    n < (encrypt primitives nonce (gzip email) key).length →
      decrypt primitives ((encrypt primitives nonce (gzip email) key).take n) key = none

/-- What `os.urandom(12)` returns. -/
abbrev Nonce := { nonce : Bytes // nonce.length = 12 }

def strip (s : String) : String :=
  String.ofList ((s.toList.dropWhile isSpace).reverse.dropWhile isSpace).reverse

/-- `normalize_message_id` of `saq/email.py`. -/
def normalizeMessageId (messageId : String) : String :=
  let messageId := strip messageId
  let messageId := if messageId.startsWith "<" then messageId else "<" ++ messageId
  if messageId.endsWith ">" then messageId else messageId ++ ">"

/-- What is on disk under the paths that belong to one hash. -/
structure Slot where
  /-- The content of `target_path`. -/
  target : Option Bytes
  /-- The content of `compressed_path`. -/
  compressed : Option Bytes
  /-- The directory `lock_dir` of the target path exists. -/
  locked : Bool
  deriving DecidableEq

def Slot.empty : Slot := ⟨none, none, false⟩

variable {Hash : Type*}

/-- `iter_decrypt_email`: all that it yields, or nothing when it raises. -/
def Slot.iterDecryptEmail (codec : Codec Hash) (slot : Slot) : Option Bytes :=
  slot.target.bind fun content =>
    (decrypt codec.primitives content codec.key).bind codec.gunzip

/-! ## §2 `archive_email_file` -/

inductive Action where
  /-- The next operation is carried out. -/
  | proceeds
  /-- A file that is being written receives the next `n` bytes. -/
  | writes (n : Nat)
  /-- The `SELECT archive_id` returns this id first. -/
  | selects (archiveId : Nat)
  /-- The next operation raises, and whether what it raises is an `OSError`. -/
  | raises (osError : Bool)
  /-- The next statement is rolled back by a deadlock, and `execute_with_retry` tries again. -/
  | deadlocks
  /-- The commit takes place, but its answer is lost and it raises. -/
  | losesAnswer
  /-- The process dies. -/
  | dies
  deriving DecidableEq

/-- The next operation of `archive_email_file`. -/
inductive FilePhase where
  /-- `sha256_file(file_path)`, then `os.path.exists(target_path)`. -/
  | checking
  /-- `os.makedirs`. -/
  | makingDirectories
  /-- `os.mkdir(lock_dir)`. -/
  | locking
  /-- Copying into `compressed_path`, of which this many bytes are written. -/
  | compressing (written : Nat)
  /-- `encrypt` opens its source and its target. -/
  | encrypting
  /-- `encrypt` writes this content to `target_path`, of which this many bytes are written. -/
  | writing (content : Bytes) (written : Nat)
  /-- The `finally` with `os.remove(compressed_path)`; behind an exception it keeps whether that
  is an `OSError`. -/
  | removing (pending : Option Bool)
  /-- `os.rmdir(lock_dir)`. -/
  | unlocking
  deriving DecidableEq

/-- What an operation of `archive_email_file` leads to. -/
inductive FileOutcome where
  | next (phase : FilePhase)
  /-- `archive_email_file` returns the hash. -/
  | returned
  /-- `archive_email_file` raises. -/
  | raised
  deriving DecidableEq

/-- An exception leaves the body of `with lock_local(target_path)`: an `OSError` becomes a
`LocalLockError`, which `archive_email_file` takes for an email that was written already. The lock
directory stays. -/
def leaveLock (osError : Bool) : FileOutcome :=
  if osError then .returned else .raised

/-- One operation of `archive_email_file` on an email. -/
def FilePhase.step (codec : Codec Hash) (email : Bytes) (nonce : Nonce) (slot : Slot) :
    FilePhase → Action → Slot × FileOutcome
  | .checking, .proceeds =>
    (slot, if slot.target.isSome then .returned else .next .makingDirectories)
  | .makingDirectories, .proceeds => (slot, .next .locking)
  | .locking, .proceeds =>
    -- `os.mkdir` of a directory that exists raises a `FileExistsError`
    if slot.locked then (slot, leaveLock true)
    else ({ slot with locked := true }, .next (.compressing 0))
  | .compressing written, .writes n =>
    ({ slot with compressed := some ((codec.gzip email).take (written + n)) },
      .next (.compressing (written + n)))
  | .compressing _, .proceeds =>
    ({ slot with compressed := some (codec.gzip email) }, .next .encrypting)
  | .encrypting, .proceeds =>
    match slot.compressed with
    | none => (slot, .next (.removing (some true)))
    | some source =>
      -- the target is open when `struct.pack` refuses a size that takes more than eight bytes
      if source.length < 2 ^ 64 then
        ({ slot with target := some [] },
          .next (.writing (encrypt codec.primitives nonce source codec.key) 0))
      else ({ slot with target := some [] }, .next (.removing (some false)))
  | .writing content written, .writes n =>
    ({ slot with target := some (content.take (written + n)) },
      .next (.writing content (written + n)))
  | .writing content _, .proceeds =>
    ({ slot with target := some content }, .next (.removing none))
  | .removing pending, .proceeds =>
    -- without the file `os.remove` raises a `FileNotFoundError`, as `os.rmdir` does below
    if slot.compressed = none then (slot, leaveLock true)
    else
      ({ slot with compressed := none },
        match pending with
        | none => .next .unlocking
        | some osError => leaveLock osError)
  | .unlocking, .proceeds =>
    if slot.locked then ({ slot with locked := false }, .returned) else (slot, leaveLock true)
  | .checking, .raises _ | .makingDirectories, .raises _ => (slot, .raised)
  | .encrypting, .raises osError | .writing _ _, .raises osError =>
    (slot, .next (.removing (some osError)))
  | .locking, .raises osError | .compressing _, .raises osError | .removing _, .raises osError
  | .unlocking, .raises osError => (slot, leaveLock osError)
  | _, .dies => (slot, .raised)
  | phase, _ => (slot, .next phase)

/-! ## §3 The tables -/

/-- A row of `archive`, all of one server. -/
structure ArchiveRow (Hash : Type*) where
  archiveId : Nat
  hash : Hash
  insertDate : Nat
  deriving DecidableEq

/-- A row of `archive_index` with `field = 'message_id'`; its hash is the one of the message
id. -/
structure IndexRow where
  messageId : String
  archiveId : Nat
  insertDate : Nat
  deriving DecidableEq

/-- The tables, the rows that running transactions have inserted, and what MySQL assigns. -/
structure Tables (Hash : Type*) where
  archive : List (ArchiveRow Hash)
  archiveIndex : List IndexRow
  pendingArchive : List (Nat × ArchiveRow Hash)
  pendingIndex : List (Nat × IndexRow)
  /-- The next `AUTO_INCREMENT` value. -/
  nextArchiveId : Nat
  /-- `CURRENT_TIMESTAMP`. -/
  now : Nat

/-- The arguments of a call of `archive_email`, with the bytes of the file. -/
structure ArchiveRequest where
  email : Bytes
  messageId : String
  recipients : List String
  insertDate : Nat
  /-- What `os.urandom(12)` returns for this call. -/
  nonce : Nonce

inductive DatabasePhase where
  /-- The `INSERT IGNORE INTO archive`. -/
  | inserting
  /-- The `SELECT archive_id` when the insert was ignored. -/
  | selecting
  /-- The `INSERT IGNORE INTO archive_index`. -/
  | indexing (archiveId : Nat)
  /-- The `INSERT INTO email_history` for each of these recipients, then the commit. -/
  | recording (recipients : List String)
  deriving DecidableEq

/-- What an operation of the transaction leads to. -/
inductive DatabaseOutcome where
  | next (phase : DatabasePhase)
  /-- The transaction is committed; `archive_email` returns unless the answer is lost. -/
  | committed (answered : Bool)
  /-- The transaction is rolled back and `archive_email` raises. -/
  | raised
  deriving DecidableEq

namespace Tables

variable [DecidableEq Hash] (t : Tables Hash)

def rollback (id : Nat) : Tables Hash :=
  { t with
    pendingArchive := t.pendingArchive.filter (·.1 ≠ id)
    pendingIndex := t.pendingIndex.filter (·.1 ≠ id) }

/-- The rows of one transaction become rows of the tables. -/
def commit (id : Nat) : Tables Hash :=
  { t.rollback id with
    archive := t.archive ++ (t.pendingArchive.filter (·.1 = id)).map (·.2)
    archiveIndex := t.archiveIndex ++ (t.pendingIndex.filter (·.1 = id)).map (·.2) }

/-- `INSERT IGNORE INTO archive`: it is ignored when the server has the hash under the same date,
and it waits for a transaction that has inserted that row. -/
def insertEmailArchive (id : Nat) (hash : Hash) : Tables Hash × DatabasePhase :=
  if t.archive.any fun row => row.hash = hash ∧ row.insertDate = t.now then (t, .selecting)
  else if t.pendingArchive.any fun row => row.2.hash = hash ∧ row.2.insertDate = t.now then
    (t, .inserting)
  else
    ({ t with
      pendingArchive := t.pendingArchive ++ [(id, ⟨t.nextArchiveId, hash, t.now⟩)]
      nextArchiveId := t.nextArchiveId + 1 }, .indexing t.nextArchiveId)

def indexEmailArchive (id archiveId : Nat) (request : ArchiveRequest) :
    Tables Hash × DatabasePhase :=
  let row : IndexRow := ⟨normalizeMessageId request.messageId, archiveId, request.insertDate⟩
  if row ∈ t.archiveIndex then (t, .recording request.recipients)
  else if t.pendingIndex.any fun pending => pending.2 = row then (t, .indexing archiveId)
  else ({ t with pendingIndex := t.pendingIndex ++ [(id, row)] }, .recording request.recipients)

end Tables

/-- One operation of the transaction of call `id`. -/
def DatabasePhase.step [DecidableEq Hash] (codec : Codec Hash) (id : Nat)
    (request : ArchiveRequest) (t : Tables Hash) :
    DatabasePhase → Action → Tables Hash × DatabaseOutcome
  | .inserting, .proceeds =>
    let (t, phase) := t.insertEmailArchive id (codec.sha256 request.email)
    (t, .next phase)
  | .selecting, .selects archiveId =>
    if t.archive.any fun row =>
        row.archiveId = archiveId ∧ row.hash = codec.sha256 request.email then
      (t, .next (.indexing archiveId))
    else (t, .next .selecting)
  | .indexing archiveId, .proceeds =>
    let (t, phase) := t.indexEmailArchive id archiveId request
    (t, .next phase)
  | .recording (_ :: recipients), .proceeds => (t, .next (.recording recipients))
  | .recording [], .proceeds => (t.commit id, .committed true)
  | .recording [], .losesAnswer => (t.commit id, .committed false)
  | .inserting, .deadlocks => (t.rollback id, .next .inserting)
  | .indexing archiveId, .deadlocks => (t.rollback id, .next (.indexing archiveId))
  | .recording (recipient :: recipients), .deadlocks =>
    -- only the failed statement is executed again
    (t.rollback id, .next (.recording (recipient :: recipients)))
  | _, .raises _ | _, .dies => (t.rollback id, .raised)
  | phase, _ => (t, .next phase)

/-! ## §4 The server -/

inductive Phase where
  | file (phase : FilePhase)
  | database (phase : DatabasePhase)
  deriving DecidableEq

/-- A call of `archive_email` that runs. -/
structure Call where
  request : ArchiveRequest
  phase : Phase

structure Server (Hash : Type*) where
  slots : Hash → Slot
  tables : Tables Hash
  calls : Nat → Option Call
  /-- The emails that were archived, with their message ids. -/
  archived : List (String × Bytes)
  /-- The message ids for which `archive_email` returned. -/
  returned : List String

inductive ArchiveEvent where
  /-- A call of `archive_email`, with a number that is not in use. -/
  | archiveEmail (id : Nat) (request : ArchiveRequest)
  /-- The call takes its next operation. -/
  | acts (id : Nat) (action : Action)
  /-- The clock of the database goes on. -/
  | ticks

namespace Server

def empty (Hash : Type*) : Server Hash where
  slots := fun _ => .empty
  tables := ⟨[], [], [], [], 1, 0⟩
  calls := fun _ => none
  archived := []
  returned := []

variable [DecidableEq Hash] (codec : Codec Hash) (s : Server Hash)

def goto (id : Nat) (request : ArchiveRequest) (phase : Phase) : Server Hash :=
  { s with calls := Function.update s.calls id (some ⟨request, phase⟩) }

def finish (id : Nat) : Server Hash :=
  { s with calls := Function.update s.calls id none }

/-- An operation of `archive_email_file`; when that returns, the transaction begins. -/
def fileStep (id : Nat) (request : ArchiveRequest) (phase : FilePhase) (action : Action) :
    Server Hash :=
  let hash := codec.sha256 request.email
  let (slot, outcome) := phase.step codec request.email request.nonce (s.slots hash) action
  let s := { s with slots := Function.update s.slots hash slot }
  match outcome with
  | .next phase => s.goto id request (.file phase)
  | .returned => s.goto id request (.database .inserting)
  | .raised => s.finish id

def databaseStep (id : Nat) (request : ArchiveRequest) (phase : DatabasePhase)
    (action : Action) : Server Hash :=
  let (t, outcome) := phase.step codec id request s.tables action
  let s := { s with tables := t }
  match outcome with
  | .next phase => s.goto id request (.database phase)
  | .raised => s.finish id
  | .committed answered =>
    let messageId := normalizeMessageId request.messageId
    { s.finish id with
      archived := s.archived ++ [(messageId, request.email)]
      returned := if answered then s.returned ++ [messageId] else s.returned }

def step : Server Hash → ArchiveEvent → Server Hash
  | s, .archiveEmail id request =>
    -- an empty message id fails an assertion
    if (s.calls id).isSome ∨ request.messageId = "" then s
    else s.goto id request (.file .checking)
  | s, .acts id action =>
    match s.calls id with
    | none => s
    | some ⟨request, .file phase⟩ => s.fileStep codec id request phase action
    | some ⟨request, .database phase⟩ => s.databaseStep codec id request phase action
  | s, .ticks => { s with tables := { s.tables with now := s.tables.now + 1 } }

/-! ## §5 Reading an email -/

/-- The rows that the join of `query_by_message_id` finds. -/
def indexedRows (messageId : String) : List (ArchiveRow Hash) :=
  s.tables.archive.filter fun row => s.tables.archiveIndex.any fun index =>
    index.messageId = normalizeMessageId messageId ∧ index.archiveId = row.archiveId

/-- The hashes `query_by_message_id` may return: of rows with the latest date. -/
def queryByMessageId (messageId : String) : List Hash :=
  ((s.indexedRows messageId).filter fun row =>
    (s.indexedRows messageId).all fun other => other.insertDate ≤ row.insertDate).map (·.hash)

/-- `iter_archived_email`, when `query_by_message_id` returns this hash. -/
def iterArchivedEmail (hash : Hash) : Option Bytes :=
  (s.slots hash).iterDecryptEmail codec

def Lists (messageId : String) : Prop :=
  ∃ index ∈ s.tables.archiveIndex, index.messageId = normalizeMessageId messageId

/-- Whatever row is found first, `iter_archived_email` yields an email that was archived under
the message id. -/
def ReadsBack (messageId : String) : Prop :=
  s.queryByMessageId messageId ≠ [] ∧
    ∀ hash ∈ s.queryByMessageId messageId, ∃ email,
      s.iterArchivedEmail codec hash = some email ∧
        (normalizeMessageId messageId, email) ∈ s.archived

end Server

end Ace3.EmailArchive
