import Ace3.Lib.Separators
import Ace3.Lib.StableSort
import Ace3.Observables.ObservableValues
import Mathlib.Data.Finset.Prod
import Mathlib.Data.Prod.Lex
import Mathlib.Order.WithBot

/-!
# Conversations

`get_conversation` and `_resolve_conversation_threads` (`saq/modules/email/conversation.py`) on the
recorded messages, with the methods of `Conversation` and what `saq/modules/email/thread.py`
concludes from it. A hash is taken for what it is of.
-/

namespace Ace3.Email

open Lib.StableSort
open Observables (Text strip)

/-! ## §1 The thread store -/

/-- A row of `email_thread_message`. -/
structure ConversationMessage (τ : Type*) where
  id : ℕ
  threadId : Text
  messageId : Text
  inReplyTo : Option Text
  normalizedSubject : Option Text
  messageDate : Option τ
  insertDate : τ
  deriving DecidableEq

/-- A row of `email_thread_domain`. -/
structure MessageParticipant where
  threadId : Text
  domain : Text
  address : Text
  role : Text

structure ThreadStore (τ : Type*) where
  messages : List (ConversationMessage τ)
  participants : List MessageParticipant
  /-- The id is the primary key. -/
  distinct : (messages.map (·.id)).Nodup
  /-- `record_thread` skips a message without an id. -/
  identified : ∀ m ∈ messages, m.messageId ≠ []

/-- What the two settings bound, at least one each. -/
structure Caps where
  maxMessages : ℕ
  maxThreads : ℕ
  messages_pos : 0 < maxMessages
  threads_pos : 0 < maxThreads

/-- The order of the hashes of threads, and the order in which the database puts messages that have
the same dates. -/
structure TieBreak (η : Type*) where
  hex : Text ↪ η
  row : ℕ ↪ ℕ

/-! ## §2 Message ids -/

/-- The matches of `<[^<>]+>`; the text that is read since the last `<` is at hand, reversed. -/
def parseTokens : Option Text → Text → List Text
  | _, [] => []
  | _, '<' :: rest => parseTokens (some []) rest
  | some (c :: body), '>' :: rest => ('<' :: (c :: body).reverse ++ ['>']) :: parseTokens none rest
  | _, '>' :: rest => parseTokens none rest
  | some body, c :: rest => parseTokens (some (c :: body)) rest
  | none, _ :: rest => parseTokens none rest

def parseMessageIdList : Option Text → List Text
  | none => []
  | some value => parseTokens none value

def normalizeMessageId (messageId : Text) : Text :=
  let messageId := strip messageId
  let messageId := if messageId.head? = some '<' then messageId else '<' :: messageId
  if messageId.getLast? = some '>' then messageId else messageId ++ ['>']

/-- The message id that the In-Reply-To header names. -/
def ConversationMessage.parent {τ : Type*} (message : ConversationMessage τ) : Option Text :=
  (parseMessageIdList message.inReplyTo).head?.map normalizeMessageId

/-! ## §3 Conversations -/

structure Conversation (τ : Type*) where
  threadCount : ℕ
  /-- Pairs of a domain and a role in which it was seen. -/
  domainRoles : Finset (Text × Text)
  domainAddresses : Finset (Text × Text)
  messages : List (ConversationMessage τ)
  /-- `participants_by_message` and `unattributed_participants`. -/
  allParticipants : List MessageParticipant
  truncated : Bool

namespace Conversation

variable {τ : Type*} (c : Conversation τ)

def rolesForDomain (domain : Text) : Finset Text :=
  (c.domainRoles.filter (·.1 = domain)).image (·.2)

def addressesForDomain (domain : Text) : Finset Text :=
  (c.domainAddresses.filter (·.1 = domain)).image (·.2)

def participantDomains : Finset Text :=
  if c.domainRoles ≠ ∅ then c.domainRoles.image (·.1)
  else ((c.allParticipants.map (·.domain)).filter (· ≠ [])).toFinset

def repliesToUnrecorded (message : ConversationMessage τ) : Bool :=
  match message.parent with
  | none => false
  | some parent => parent ∉ c.messages.map (·.messageId)

def missingParentIds : List Text :=
  c.messages.foldl (fun result message =>
    match message.parent with
    | none => result
    | some parent =>
      if parent ∉ c.messages.map (·.messageId) ∧ parent ∉ result then result ++ [parent]
      else result) []

/-- `_ever_sent`, with `ORIGIN_ROLES`. -/
def everSent (domain : Text) : Bool :=
  (c.rolesForDomain domain ∩ {"from".toList, "return_path".toList}).Nonempty

/-- The pairs that `_build_lookalikes` describes. -/
def lookalikes (isSimilar : Text → Text → Bool) : Finset (Text × Text) :=
  (c.participantDomains ×ˢ c.participantDomains).filter fun pair =>
    pair.1 < pair.2 ∧ isSimilar pair.1 pair.2

end Conversation

/-! ## §4 The threads of a conversation -/

section Queries

variable {τ η : Type*} [LinearOrder τ] [LinearOrder η] (ties : TieBreak η) (store : ThreadStore τ)
  (caps : Caps)

def ThreadStore.withSubject (subject : Text) : List (ConversationMessage τ) :=
  store.messages.filter (·.normalizedSubject = some subject)

/-- The participants of the threads that have a message with the subject. -/
def ThreadStore.subjectRows (subject : Text) : List MessageParticipant :=
  store.participants.filter fun row => row.threadId ∈ (store.withSubject subject).map (·.threadId)

def threadsOverlappingDomains (rows : List MessageParticipant) (domains : List Text) : List Text :=
  (rows.map (·.threadId)).dedup.filter fun thread =>
    rows.any fun row => row.threadId = thread ∧ row.domain ∈ domains

/-- `_oldest_first`: the earliest dates of the messages with the subject. -/
def oldestFirst (subject : Text) (thread : Text) : WithTop τ ×ₗ WithTop τ ×ₗ η :=
  let messages := (store.withSubject subject).filter (·.threadId = thread)
  toLex ((messages.map fun m => (m.messageDate : WithTop τ)).foldr min ⊤,
    toLex ((messages.map fun m => (m.insertDate : WithTop τ)).foldr min ⊤, ties.hex thread))

/-- The threads to display, whether the cap trimmed any, and the rows of every qualifying thread. -/
def resolveConversationThreads (anchor : ConversationMessage τ) (subjectMerge : Bool) :
    List Text × Bool × List MessageParticipant :=
  match anchor.normalizedSubject with
  | none | some [] => ([anchor.threadId], false, [])
  | some subject =>
    if !subjectMerge then ([anchor.threadId], false, []) else
    let rows := store.subjectRows subject
    let anchorDomains := (rows.filter (·.threadId = anchor.threadId)).map (·.domain)
    if anchorDomains = [] then ([anchor.threadId], false, []) else
    let overlapping := threadsOverlappingDomains rows anchorDomains
    let qualifying := rows.filter (·.threadId ∈ overlapping)
    let siblings := sortBy (oldestFirst ties store subject) overlapping
    let siblings := if anchor.threadId ∉ siblings then anchor.threadId :: siblings else siblings
    if siblings.length ≤ caps.maxThreads then (siblings, false, qualifying)
    else
      (anchor.threadId :: (siblings.filter (· ≠ anchor.threadId)).take (caps.maxThreads - 1), true,
        qualifying)

/-- The messages are in the order of their dates, a missing date last. -/
def messageOrder (m : ConversationMessage τ) : WithTop τ ×ₗ τ ×ₗ ℕ :=
  toLex (m.messageDate, toLex (m.insertDate, ties.row m.id))

/-- `_load_message`, and the query for the anchor. -/
def ThreadStore.loadMessage (messageId : Text) : Option (ConversationMessage τ) :=
  store.messages.find? (·.messageId = messageId)

/-- What `get_conversation` returns for the row of the anchor. -/
def conversationOf (messageId : Text) (anchor : ConversationMessage τ) : Conversation τ :=
  let headerThreaded := decide (anchor.threadId ≠ anchor.messageId)
  let (threads, threadsCapped, qualifying) :=
    resolveConversationThreads ties store caps anchor (!headerThreaded)
  let rows := (sortBy (messageOrder ties)
    (store.messages.filter (·.threadId ∈ threads))).take (caps.maxMessages + 1)
  let participants := store.participants.filter (·.threadId ∈ threads)
  let messagesCapped := decide (rows.length > caps.maxMessages)
  let rows :=
    if messagesCapped then
      let rows := rows.take caps.maxMessages
      if rows.any (·.messageId = messageId) then rows
      else rows ++ (store.loadMessage messageId).toList
    else rows
  let seen := qualifying ++ participants
  { threadCount := threads.length
    domainRoles := (seen.map fun row => (row.domain, row.role)).toFinset
    domainAddresses := (seen.map fun row => (row.domain, row.address)).toFinset
    messages := rows
    allParticipants := participants
    truncated := messagesCapped || threadsCapped }

def getConversation (messageId : Text) : Option (Conversation τ) :=
  if messageId = [] then none
  else (store.loadMessage messageId).map (conversationOf ties store caps messageId)

end Queries

end Ace3.Email
