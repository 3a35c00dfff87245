import Ace3.Email.Conversation
import Mathlib.Data.Char
import Mathlib.Data.List.Lex

/-!
# What the Caps of a Conversation Leave Out

What is concluded about the domains does not depend on the caps, but whether a parent counts as
recorded does.
-/

namespace Ace3.Email

open Lib.StableSort
open Observables (Text)

variable {τ η : Type*} [LinearOrder τ] [LinearOrder η] (ties ties' : TieBreak η)
  (store : ThreadStore τ) (caps caps' : Caps) (messageId : Text) (anchor : ConversationMessage τ)

/-! ## §1 What is shown -/

/-- The threads of the conversation of a message, displayed or not; none if the threading headers
group it. -/
def overlappingThreads : List Text :=
  match anchor.normalizedSubject with
  | none | some [] => []
  | some subject =>
    if anchor.threadId ≠ anchor.messageId then [] else
    let rows := store.subjectRows subject
    threadsOverlappingDomains rows ((rows.filter (·.threadId = anchor.threadId)).map (·.domain))

/-- The thread is the anchor's, or few enough of the others are older. -/
def Displayed (thread : Text) : Prop :=
  let order := oldestFirst ties store (anchor.normalizedSubject.getD [])
  thread = anchor.threadId ∨
    thread ∈ overlappingThreads store anchor ∧
      ((overlappingThreads store anchor).filter (· ≠ anchor.threadId)).countP
        (fun other => order other < order thread) < caps.maxThreads - 1

instance : DecidablePred (Displayed ties store caps anchor) :=
  fun _ => inferInstanceAs (Decidable (_ ∨ _))

/-- Few enough of the messages of the displayed threads are older. -/
def WithinCaps (m : ConversationMessage τ) : Prop :=
  m ∈ store.messages ∧ Displayed ties store caps anchor m.threadId ∧
    (store.messages.filter fun other => Displayed ties store caps anchor other.threadId).countP
      (fun other => messageOrder ties other < messageOrder ties m) < caps.maxMessages

/-- The message is within the caps, or it is the anchor. -/
def Shown (m : ConversationMessage τ) : Prop :=
  WithinCaps ties store caps anchor m ∨
    m = anchor ∧ ∀ other, WithinCaps ties store caps anchor other → other.messageId ≠ messageId

/-- The recorded messages to which shown messages reply are shown. -/
def ParentsShown : Prop :=
  ∀ m, Shown ties store caps messageId anchor m → ∀ parent, m.parent = some parent →
    (∃ n ∈ store.messages, n.messageId = parent) →
      ∃ n, Shown ties store caps messageId anchor n ∧ n.messageId = parent

/-! ## §2 Threads -/

theorem mem_capped_iff {siblings : List Text} {a t : Text} {n : ℕ} (hnodup : siblings.Nodup)
    (ha : a ∈ siblings) (hn : 0 < n) :
    (t ∈ if siblings.length ≤ n then siblings
      else a :: (siblings.filter (· ≠ a)).take (n - 1)) ↔
      t = a ∨ t ∈ (siblings.filter (· ≠ a)).take (n - 1) := by
  have hlength : (siblings.filter (· ≠ a)).length + 1 = siblings.length := by
    have herase : siblings.filter (· ≠ a) = siblings.erase a := by
      rw [hnodup.erase_eq_filter]
      exact List.filter_congr fun b _ => by simp [bne, beq_eq_decide]
    rw [herase, List.length_erase_of_mem ha]
    exact Nat.sub_add_cancel (List.length_pos_of_mem ha)
  split
  · rw [List.take_of_length_le (by omega), List.mem_filter]
    by_cases hta : t = a
    · simp [hta, ha]
    · simp [hta]
  · exact List.mem_cons

theorem nodup_overlappingThreads : (overlappingThreads store anchor).Nodup := by
  unfold overlappingThreads
  split
  · exact .nil
  · exact .nil
  · split
    · exact .nil
    · exact (List.nodup_dedup _).filter _

theorem oldestFirst_injective (subject : Text) :
    Function.Injective (oldestFirst ties store subject) := by
  intro t t' h
  have h := congrArg (fun key => (ofLex (ofLex key).2).2) h
  exact ties.hex.injective h

theorem mem_threads_iff {t : Text} :
    t ∈ (resolveConversationThreads ties store caps anchor
        (!decide (anchor.threadId ≠ anchor.messageId))).1 ↔
      Displayed ties store caps anchor t := by
  have hnodup := nodup_overlappingThreads store anchor
  unfold Displayed
  unfold resolveConversationThreads overlappingThreads at *
  cases hsubject : anchor.normalizedSubject with
  | none => simp
  | some subject =>
    cases subject with
    | nil => simp
    | cons first rest =>
      by_cases hself : anchor.threadId = anchor.messageId
      · simp only [hsubject, ne_eq, not_not.mpr hself, decide_false, Bool.not_false,
          Bool.not_true, Bool.false_eq_true, if_false, Option.getD_some] at hnodup ⊢
        set rows := store.subjectRows (first :: rest)
        set order := oldestFirst ties store (first :: rest) with horder
        have hdistinct : ∀ l : List Text, l.Nodup → (l.map order).Nodup := fun l =>
          List.Nodup.map (oldestFirst_injective ties store _)
        split
        next hnone =>
          -- no row of the anchor's thread, so nothing overlaps
          rw [hnone]
          simp [threadsOverlappingDomains]
        next hsome =>
          set overlapping := threadsOverlappingDomains rows
            ((rows.filter (·.threadId = anchor.threadId)).map (·.domain))
          set siblings := if anchor.threadId ∉ sortBy order overlapping then
            anchor.threadId :: sortBy order overlapping else sortBy order overlapping with hsiblings
          have hsorted : (sortBy order overlapping).Nodup :=
            (sortBy_perm order overlapping).nodup_iff.mpr hnodup
          have hsiblingsNodup : siblings.Nodup := by
            rw [hsiblings]
            split
            next ha => exact List.nodup_cons.mpr ⟨ha, hsorted⟩
            next => exact hsorted
          have hanchor : anchor.threadId ∈ siblings := by
            rw [hsiblings]
            split
            next => exact List.mem_cons_self
            next ha => exact not_not.mp ha
          have hothers : siblings.filter (· ≠ anchor.threadId) =
              sortBy order (overlapping.filter (· ≠ anchor.threadId)) := by
            rw [sortBy_filter (hdistinct _ hnodup), hsiblings]
            split <;> simp
          have hcapped := mem_capped_iff (t := t) hsiblingsNodup hanchor caps.threads_pos
          rw [apply_ite Prod.fst, hcapped, hothers, mem_take_sortBy_iff (hdistinct _ (hnodup.filter _)),
            List.mem_filter]
          by_cases ht : t = anchor.threadId
          · simp [ht]
          · rw [or_iff_right ht, or_iff_right ht]
            exact and_congr_left fun _ => and_iff_left (decide_eq_true ht)
      · simp [hself]

theorem mem_qualifying_iff {row : MessageParticipant} :
    row ∈ (resolveConversationThreads ties store caps anchor
        (!decide (anchor.threadId ≠ anchor.messageId))).2.2 ↔
      row ∈ store.participants ∧ row.threadId ∈ overlappingThreads store anchor := by
  unfold resolveConversationThreads overlappingThreads
  cases hsubject : anchor.normalizedSubject with
  | none => simp
  | some subject =>
    cases subject with
    | nil => simp
    | cons first rest =>
      by_cases hself : anchor.threadId = anchor.messageId
      · simp only [ne_eq, not_not.mpr hself, decide_false, Bool.not_false, Bool.not_true,
          Bool.false_eq_true, if_false]
        split
        next hnone =>
          rw [hnone]
          simp [threadsOverlappingDomains]
        next hsome =>
          rw [apply_ite Prod.snd, apply_ite Prod.snd, ite_self, List.mem_filter, decide_eq_true_iff]
          refine and_congr_left fun hthread => ?_
          -- a row of an overlapping thread is one of a thread with the subject
          obtain ⟨other, hother, hsame⟩ : ∃ other ∈ store.subjectRows (first :: rest),
              other.threadId = row.threadId := by
            have hthread := List.mem_dedup.mp (List.mem_filter.mp hthread).1
            exact List.mem_map.mp hthread
          have hsubject := (List.mem_filter.mp hother).2
          rw [hsame] at hsubject
          exact ⟨fun h => (List.mem_filter.mp h).1, fun h => List.mem_filter.mpr ⟨h, hsubject⟩⟩
      · simp [hself]

/-! ## §3 Messages -/

variable {ties ties' store caps caps' messageId anchor}

theorem mem_messages_iff (hanchor : store.loadMessage messageId = some anchor)
    {m : ConversationMessage τ} :
    m ∈ (conversationOf ties store caps messageId anchor).messages ↔
      Shown ties store caps messageId anchor m := by
  set displayed := store.messages.filter fun other => Displayed ties store caps anchor other.threadId
    with hdisplayed
  have hfilter : store.messages.filter (·.threadId ∈ (resolveConversationThreads ties store caps
      anchor (!decide (anchor.threadId ≠ anchor.messageId))).1) = displayed :=
    List.filter_congr fun other _ => decide_eq_decide.mpr (mem_threads_iff ..)
  have hdistinct : (displayed.map (messageOrder ties)).Nodup := by
    have hids : (displayed.map (·.id)).Nodup :=
      store.distinct.sublist (List.filter_sublist.map _)
    refine List.Nodup.of_map (fun key => (ofLex (ofLex key).2).2) ?_
    rw [List.map_map]
    have := hids.map ties.row.injective
    rwa [List.map_map] at this
  have hwithin : ∀ other, other ∈ (sortBy (messageOrder ties) displayed).take caps.maxMessages ↔
      WithinCaps ties store caps anchor other := by
    intro other
    rw [mem_take_sortBy_iff hdistinct, hdisplayed, List.mem_filter, decide_eq_true_iff, and_assoc]
    rfl
  have hloaded : anchor ∈ store.messages ∧ anchor.messageId = messageId := by
    have h := List.find?_eq_some_iff_append.mp hanchor
    exact ⟨List.mem_of_find?_eq_some hanchor, of_decide_eq_true h.1⟩
  unfold Shown conversationOf
  simp only [hfilter, ← hwithin]
  split
  next hcapped =>
    rw [List.take_take, min_eq_left (Nat.le_succ _)]
    split
    next hany =>
      obtain ⟨other, hother, hid⟩ := List.any_eq_true.mp hany
      exact ⟨.inl, fun h => h.resolve_right fun h => h.2 other hother (of_decide_eq_true hid)⟩
    next hany =>
      have hnone : ∀ other ∈ (sortBy (messageOrder ties) displayed).take caps.maxMessages,
          other.messageId ≠ messageId := by
        simpa using hany
      rw [List.mem_append, hanchor, Option.toList_some, List.mem_singleton]
      exact or_congr Iff.rfl ⟨fun h => ⟨h, hnone⟩, fun h => h.1⟩
  next hcapped =>
    -- nothing is cut, and the anchor is among the messages
    have hlength : (sortBy (messageOrder ties) displayed).length ≤ caps.maxMessages := by
      simpa using hcapped
    rw [List.take_of_length_le (by omega), List.take_of_length_le hlength]
    refine ⟨.inl, fun h => h.resolve_right fun h => h.2 anchor ?_ hloaded.2⟩
    exact mem_sortBy.mpr (List.mem_filter.mpr ⟨hloaded.1, decide_eq_true (.inl rfl)⟩)

/-! ## §4 Conclusions -/

/-- Two conversations lead to the same conclusions about the domains. -/
structure Agree (isSimilar : Text → Text → Bool) (c c' : Conversation τ) : Prop where
  roles : ∀ domain, c.rolesForDomain domain = c'.rolesForDomain domain
  addresses : ∀ domain, c.addressesForDomain domain = c'.addressesForDomain domain
  lookalikes : c.lookalikes isSimilar = c'.lookalikes isSimilar
  everSent : ∀ domain, c.everSent domain = c'.everSent domain

/-- A conversation has the anchor, and what it misses is not in the store. -/
structure Concludes (store : ThreadStore τ) (messageId : Text) (c : Conversation τ) : Prop where
  anchor : ∃ m ∈ c.messages, m.messageId = messageId
  unrecorded : ∀ m ∈ c.messages, c.repliesToUnrecorded m → ∀ parent, m.parent = some parent →
    ∀ n ∈ store.messages, n.messageId ≠ parent
  missing : ∀ parent ∈ c.missingParentIds, ∀ n ∈ store.messages, n.messageId ≠ parent

theorem Displayed.overlapping {t : Text} (h : Displayed ties store caps anchor t) :
    t = anchor.threadId ∨ t ∈ overlappingThreads store anchor :=
  h.imp_right And.left

variable (ties store caps anchor) in
/-- The rows from which the roles and addresses are taken. -/
def seenRows : List MessageParticipant :=
  let (threads, _, qualifying) := resolveConversationThreads ties store caps anchor
    (!decide (anchor.threadId ≠ anchor.messageId))
  qualifying ++ store.participants.filter (·.threadId ∈ threads)

theorem mem_seenRows_iff {row : MessageParticipant} :
    row ∈ seenRows ties store caps anchor ↔
      row ∈ store.participants ∧
        (row.threadId = anchor.threadId ∨ row.threadId ∈ overlappingThreads store anchor) := by
  unfold seenRows
  rw [List.mem_append, mem_qualifying_iff, List.mem_filter, decide_eq_true_iff, mem_threads_iff,
    ← and_or_left]
  refine and_congr_right fun _ => ⟨fun h => h.elim .inr (·.overlapping), fun h => ?_⟩
  exact h.elim (fun h => .inr (.inl h)) .inl

theorem seenRows_congr (f : MessageParticipant → Text × Text) :
    ((seenRows ties store caps anchor).map f).toFinset =
      ((seenRows ties' store caps' anchor).map f).toFinset := by
  ext pair
  simp only [List.mem_toFinset, List.mem_map, mem_seenRows_iff]

theorem domainRoles_congr :
    (conversationOf ties store caps messageId anchor).domainRoles =
      (conversationOf ties' store caps' messageId anchor).domainRoles :=
  seenRows_congr fun row => (row.domain, row.role)

theorem domainAddresses_congr :
    (conversationOf ties store caps messageId anchor).domainAddresses =
      (conversationOf ties' store caps' messageId anchor).domainAddresses :=
  seenRows_congr fun row => (row.domain, row.address)

theorem participantDomains_eq :
    (conversationOf ties store caps messageId anchor).participantDomains =
      (conversationOf ties store caps messageId anchor).domainRoles.image (·.1) := by
  unfold Conversation.participantDomains
  split
  next => rfl
  next hempty =>
    have hempty := not_not.mp hempty
    have hnil : (conversationOf ties store caps messageId anchor).allParticipants = [] := by
      refine List.eq_nil_iff_forall_not_mem.mpr fun row hrow => ?_
      have hmem : (row.domain, row.role) ∈
          (conversationOf ties store caps messageId anchor).domainRoles :=
        List.mem_toFinset.mpr (List.mem_map.mpr ⟨row, List.mem_append_right _ hrow, rfl⟩)
      rw [hempty] at hmem
      cases hmem
    rw [hempty, hnil]
    rfl

theorem agree_of_caps (isSimilar : Text → Text → Bool) :
    Agree isSimilar (conversationOf ties store caps messageId anchor)
      (conversationOf ties' store caps' messageId anchor) where
  roles domain := by
    unfold Conversation.rolesForDomain
    rw [domainRoles_congr]
  addresses domain := by
    unfold Conversation.addressesForDomain
    rw [domainAddresses_congr]
  lookalikes := by
    unfold Conversation.lookalikes
    rw [participantDomains_eq, participantDomains_eq, domainRoles_congr]
  everSent domain := by
    unfold Conversation.everSent Conversation.rolesForDomain
    rw [domainRoles_congr]

/-! ## §5 Parents -/

theorem repliesToUnrecorded_iff {c : Conversation τ} {m : ConversationMessage τ} :
    c.repliesToUnrecorded m ↔
      ∃ parent, m.parent = some parent ∧ ∀ n ∈ c.messages, n.messageId ≠ parent := by
  unfold Conversation.repliesToUnrecorded
  cases m.parent <;> simp

/-- The body of the loop of `missing_parent_ids`. -/
def addMissing (ids result : List Text) (message : ConversationMessage τ) : List Text :=
  match message.parent with
  | none => result
  | some parent => if parent ∉ ids ∧ parent ∉ result then result ++ [parent] else result

theorem mem_missingParentIds_iff {c : Conversation τ} {parent : Text} :
    parent ∈ c.missingParentIds ↔
      ∃ m ∈ c.messages, m.parent = some parent ∧ ∀ n ∈ c.messages, n.messageId ≠ parent := by
  generalize hids : c.messages.map (·.messageId) = ids
  have hloop : c.missingParentIds = c.messages.foldl (addMissing ids) [] := by
    rw [← hids]
    rfl
  have hstep : ∀ (messages : List (ConversationMessage τ)) (found : List Text),
      parent ∈ messages.foldl (addMissing ids) found ↔
        parent ∈ found ∨ ∃ m ∈ messages, m.parent = some parent ∧ parent ∉ ids := by
    intro messages
    induction messages with
    | nil => simp
    | cons m messages ih =>
      intro found
      rw [List.foldl_cons, ih]
      unfold addMissing
      cases hparent : m.parent with
      | none => simp [hparent]
      | some other =>
        by_cases hnew : other ∉ ids ∧ other ∉ found
        · simp only [if_pos hnew]
          grind
        · simp only [if_neg hnew]
          grind
  rw [hloop, hstep, ← hids]
  simp

theorem concludes_iff (hanchor : store.loadMessage messageId = some anchor) :
    Concludes store messageId (conversationOf ties store caps messageId anchor) ↔
      ParentsShown ties store caps messageId anchor := by
  set c := conversationOf ties store caps messageId anchor
  have hmem : ∀ m, m ∈ c.messages ↔ Shown ties store caps messageId anchor m := fun m =>
    mem_messages_iff hanchor
  constructor
  · rintro ⟨-, hunrecorded, -⟩ m hm parent hparent ⟨n, hn, hid⟩
    by_contra hnone
    have hreplies : c.repliesToUnrecorded m := repliesToUnrecorded_iff.mpr
      ⟨parent, hparent, fun other hother hid => hnone ⟨other, (hmem other).mp hother, hid⟩⟩
    exact hunrecorded m ((hmem m).mpr hm) hreplies parent hparent n hn hid
  · intro hparents
    -- a parent that is recorded is shown, so neither of the two names it
    have hshown : ∀ m ∈ c.messages, ∀ parent, m.parent = some parent →
        (∀ n ∈ c.messages, n.messageId ≠ parent) → ∀ n ∈ store.messages, n.messageId ≠ parent := by
      intro m hm parent hparent hnone n hn hid
      obtain ⟨other, hother, hid⟩ := hparents m ((hmem m).mp hm) parent hparent ⟨n, hn, hid⟩
      exact hnone other ((hmem other).mpr hother) hid
    refine ⟨?_, ?_, ?_⟩
    · by_cases hwithin : ∃ other, WithinCaps ties store caps anchor other ∧
          other.messageId = messageId
      · obtain ⟨other, hother, hid⟩ := hwithin
        exact ⟨other, (hmem other).mpr (.inl hother), hid⟩
      · refine ⟨anchor, (hmem anchor).mpr (.inr ⟨rfl, fun other hother hid => ?_⟩), ?_⟩
        · exact hwithin ⟨other, hother, hid⟩
        · simpa using List.find?_some hanchor
    · intro m hm hreplies parent hparent
      obtain ⟨other, hother, hnone⟩ := repliesToUnrecorded_iff.mp hreplies
      rw [hparent] at hother
      cases hother
      exact hshown m hm parent hparent hnone
    · intro parent hmissing
      obtain ⟨m, hm, hparent, hnone⟩ := mem_missingParentIds_iff.mp hmissing
      exact hshown m hm parent hparent hnone

/-- Under any two settings the conversations agree on the domains and have the anchor; what they
miss is not in the store exactly if the recorded parents of what is shown are shown. -/
theorem conversations_agree_iff (isSimilar : Text → Text → Bool)
    (hanchor : store.loadMessage messageId = some anchor) :
    (∃ c c', getConversation ties store caps messageId = some c ∧
        getConversation ties' store caps' messageId = some c' ∧ Agree isSimilar c c' ∧
        Concludes store messageId c ∧ Concludes store messageId c') ↔
      ParentsShown ties store caps messageId anchor ∧
        ParentsShown ties' store caps' messageId anchor := by
  have hnonempty : messageId ≠ [] := by
    have hid : anchor.messageId = messageId := by simpa using List.find?_some hanchor
    exact hid ▸ store.identified anchor (List.mem_of_find?_eq_some hanchor)
  unfold getConversation
  simp only [if_neg hnonempty, hanchor, Option.map_some, Option.some.injEq]
  constructor
  · rintro ⟨c, c', rfl, rfl, -, h, h'⟩
    exact ⟨(concludes_iff hanchor).mp h, (concludes_iff hanchor).mp h'⟩
  · rintro ⟨h, h'⟩
    exact ⟨_, _, rfl, rfl, agree_of_caps .., (concludes_iff hanchor).mpr h,
      (concludes_iff hanchor).mpr h'⟩

/-! ## §6 An undated parent -/

def datedReply : ConversationMessage ℕ :=
  ⟨2, "<a>".toList, "<b>".toList, some "<a>".toList, none, some 2, 2⟩

/-- A message without a date, and a dated reply in its thread. -/
def undatedParent : ThreadStore ℕ where
  messages := [⟨1, "<a>".toList, "<a>".toList, none, none, none, 1⟩, datedReply]
  participants := []
  distinct := by decide
  identified := by decide

theorem datedReply_loaded : undatedParent.loadMessage "<b>".toList = some datedReply := by
  decide

def lastTie : TieBreak Text := ⟨.refl _, .refl _⟩

theorem fifty_pos : 0 < 50 := by decide

def oneMessage : Caps := ⟨1, 50, by decide, fifty_pos⟩

def twoMessages : Caps := ⟨2, 50, by decide, fifty_pos⟩

theorem undatedParent_uncapped :
    ∃ c c', getConversation lastTie undatedParent twoMessages "<b>".toList = some c ∧
      getConversation lastTie undatedParent twoMessages "<b>".toList = some c' ∧
      Agree (fun _ _ => false) c c' ∧ Concludes undatedParent "<b>".toList c ∧
      Concludes undatedParent "<b>".toList c' := by
  refine (conversations_agree_iff (fun _ _ => false) datedReply_loaded).mpr ((and_self_iff).mpr ?_)
  rintro m - parent - ⟨n, hn, hid⟩
  refine ⟨n, .inl ⟨hn, ?_⟩, hid⟩
  obtain rfl | rfl : n = _ ∨ n = _ := by simpa [undatedParent] using hn
  · exact ⟨.inl rfl, by decide⟩
  · exact ⟨.inl rfl, by decide⟩

/-- A missing date sorts last, so that the cap leaves the parent out. -/
theorem undated_parent_unrecorded :
    ¬ ∃ c c', getConversation lastTie undatedParent oneMessage "<b>".toList = some c ∧
      getConversation lastTie undatedParent oneMessage "<b>".toList = some c' ∧
      Agree (fun _ _ => false) c c' ∧ Concludes undatedParent "<b>".toList c ∧
      Concludes undatedParent "<b>".toList c' := by
  rintro ⟨c, -, hc, -, -, hconcludes, -⟩
  have hparent : datedReply.parent = some "<a>".toList := by decide
  have hrecorded : ParentsShown lastTie undatedParent oneMessage "<b>".toList datedReply := by
    refine (concludes_iff datedReply_loaded).mp ?_
    unfold getConversation at hc
    rw [if_neg (by decide), datedReply_loaded] at hc
    exact Option.some.inj hc ▸ hconcludes
  obtain ⟨n, hn | ⟨rfl, -⟩, hid⟩ := hrecorded _
    (.inl ⟨List.mem_cons_of_mem _ List.mem_cons_self, .inl rfl, by decide⟩) _ hparent
    ⟨_, List.mem_cons_self, rfl⟩
  · obtain rfl | rfl : n = _ ∨ n = _ := by simpa [undatedParent] using hn.1
    · exact absurd hn.2.2 (by decide)
    · exact absurd hid (by decide)
  · exact absurd hid (by decide)

end Ace3.Email
