import Ace3.Observables.AddressNormalization

/-!
# Canonical Values

The value of an observable is put through the setter of its class again whenever the observable is
loaded or looked up. `RegisteredType.canonical_iff` says for which values it comes out as it went
in.
-/

namespace Ace3.Observables

open List
open Analysis (isSpace)
open Lib.Trim Lib.CaseMapping

/-! ## §1 The law -/

/-- The class checks its values: there is one that it does not accept. -/
def Rejects (construct : Constructor) : Prop :=
  ∃ newValue message, construct newValue = .error (.observableValueError message)

/-- `create_observable` does not raise on a value, and an observable that it creates has a value
(in a type that checks it) from which it creates the same observable again. -/
def Canonical (libs : Libraries) (type : RegisteredType) (oValue : Text) : Prop :=
  match createObservable libs type.name oValue with
  | .ok none => True
  | .ok (some observable) =>
    (Rejects (type.construct libs) → observable.value ≠ []) ∧
      createObservable libs observable.type observable.value = .ok (some observable)
  | .error _ => False

def Settled (construct : Constructor) (newValue : Text) : Prop :=
  match construct newValue with
  | .ok value => (Rejects construct → value ≠ []) ∧ construct value = .ok value
  | .error (.observableValueError _) => True
  | .error _ => False

theorem canonical_iff_settled (libs : Libraries) (type : RegisteredType) (oValue : Text) :
    Canonical libs type oValue ↔ Settled (type.construct libs) oValue := by
  simp only [Canonical, Settled, createObservable, RegisteredType.ofName?_name]
  rcases hfirst : type.construct libs oValue with error | value
  · cases error <;> simp
  · simp only [RegisteredType.ofName?_name]
    rcases hsecond : type.construct libs value with error | again
    · cases error <;> simp
    · simp

variable {construct : Constructor} {newValue value : Text} {message : String}

theorem Settled.of_ok (h : construct newValue = .ok value) (hne : Rejects construct → value ≠ [])
    (hagain : construct value = .ok value) : Settled construct newValue := by
  simp only [Settled, h]
  exact ⟨hne, hagain⟩

theorem Settled.of_rejected
    (h : construct newValue = .error (.observableValueError message)) :
    Settled construct newValue := by
  simp only [Settled, h]

theorem settled_iff_of_ok (h : construct newValue = .ok value) :
    Settled construct newValue ↔
      (Rejects construct → value ≠ []) ∧ construct value = .ok value := by
  simp only [Settled, h]

/-! ## §2 Classes that keep to the law -/

theorem settled_asGiven (newValue : Text) : Settled asGiven newValue :=
  .of_ok rfl (fun ⟨_, _, h⟩ => nomatch h) rfl

theorem settled_stripped (newValue : Text) : Settled stripped newValue :=
  .of_ok rfl (fun ⟨_, _, h⟩ => nomatch h) (by rw [stripped, strip_strip])

theorem settled_of_check {construct : Constructor} (check : Text → Bool)
    (hconstruct : ∀ newValue,
      check (strip newValue) = true ∧ construct newValue = .ok (strip newValue) ∨
        check (strip newValue) = false ∧
          ∃ message, construct newValue = .error (.observableValueError message))
    (hempty : check [] = false) (newValue : Text) : Settled construct newValue := by
  rcases hconstruct newValue with ⟨hcheck, hok⟩ | ⟨-, message, hrejected⟩
  · refine .of_ok hok (fun _ hnil => ?_) ?_
    · rw [hnil, hempty] at hcheck
      cases hcheck
    · -- the stripped value is checked as it was
      rcases hconstruct (strip newValue) with ⟨-, hagain⟩ | ⟨hcheck', -⟩
      · rwa [strip_strip] at hagain
      · rw [strip_strip, hcheck] at hcheck'
        cases hcheck'
  · exact .of_rejected hrejected

theorem settled_hashValue (algorithm : String) (newValue : Text) :
    Settled (hashValue algorithm) newValue := by
  apply settled_of_check fun value => decide (value.count '0' ≠ value.length)
  · intro newValue
    simp only [hashValue, invalid]
    split_ifs with h <;> simp [h]
  · rfl

variable (libs : Libraries)

theorem settled_awsAccountValue (newValue : Text) : Settled (awsAccountValue libs) newValue := by
  apply settled_of_check fun value => decide (value.length = 12) && value.all libs.isDigit
  · intro newValue
    simp only [awsAccountValue, notValid]
    split_ifs with h
    · refine .inr ⟨?_, _, rfl⟩
      simpa [or_iff_not_imp_left] using h
    · refine .inl ⟨?_, rfl⟩
      simpa [not_or] using h
  · rfl

theorem settled_ipv4ConversationValue (sep : Char) {maxsplit : ℕ} (message : String)
    (hmaxsplit : 1 < maxsplit) (newValue : Text) :
    Settled (ipv4ConversationValue sep maxsplit message) newValue := by
  apply settled_of_check fun value => decide ((split sep maxsplit value).length = maxsplit)
  · intro newValue
    simp only [ipv4ConversationValue, invalid]
    split_ifs with h <;> simp [h]
  · obtain ⟨maxsplit, rfl⟩ := Nat.exists_eq_succ_of_ne_zero (Nat.ne_of_gt (by omega : 0 < maxsplit))
    have : split sep (maxsplit + 1) [] = [[]] := rfl
    simp only [this, length_singleton, decide_eq_false_iff_not]
    omega

theorem settled_ipValue (newValue : Text) : Settled (ipValue libs) newValue := by
  apply settled_of_check libs.ipAddress
  · intro newValue
    simp only [ipValue, notValid]
    split_ifs with h <;> simp [h]
  · exact libs.ipAddress_empty

def isConversation (libs : Libraries) (value : Text) : Bool :=
  match split '_' 2 value with
  | [source, dest] =>
    !decide (source = [] ∨ dest = []) && (libs.ipAddress source && libs.ipAddress dest)
  | _ => false

theorem settled_ipConversationValue (newValue : Text) :
    Settled (ipConversationValue libs) newValue := by
  apply settled_of_check (isConversation libs)
  · intro newValue
    simp only [ipConversationValue, isConversation, invalid]
    generalize split '_' 2 (strip newValue) = parts
    -- only two parts are looked at
    rcases parts with _ | ⟨source, _ | ⟨dest, _ | ⟨third, rest⟩⟩⟩
    case cons.cons.nil =>
      by_cases hparts : source = [] ∨ dest = []
      · simp [hparts]
      · by_cases haddresses : (libs.ipAddress source && libs.ipAddress dest) = true
        · simp [hparts, haddresses]
        · simp [hparts, haddresses]
    all_goals exact .inr ⟨rfl, _, rfl⟩
  · rfl

def isFullConversation (libs : Libraries) (value : Text) : Bool :=
  match split '!' 4 value with
  | [source, sourcePort, dest, destPort] =>
    !decide (source = [] ∨ sourcePort = [] ∨ dest = [] ∨ destPort = []) &&
      (libs.ipAddress source && libs.ipAddress dest) &&
        (libs.isInt sourcePort && libs.isInt destPort)
  | _ => false

theorem settled_ipFullConversationValue (newValue : Text) :
    Settled (ipFullConversationValue libs) newValue := by
  apply settled_of_check (isFullConversation libs)
  · intro newValue
    simp only [ipFullConversationValue, isFullConversation, invalid]
    generalize split '!' 4 (strip newValue) = parts
    -- only four parts are looked at
    rcases parts with _ | ⟨source, _ | ⟨sourcePort, _ | ⟨dest, _ | ⟨destPort, _ | ⟨fifth, rest⟩⟩⟩⟩⟩
    case cons.cons.cons.cons.nil =>
      by_cases hparts : source = [] ∨ sourcePort = [] ∨ dest = [] ∨ destPort = []
      · simp [hparts]
      · by_cases haddresses : (libs.ipAddress source && libs.ipAddress dest) = true
        · by_cases hports : (libs.isInt sourcePort && libs.isInt destPort) = true
          · simp [hparts, haddresses, hports]
          · simp [hparts, haddresses, hports]
        · simp [hparts, haddresses]
    all_goals exact .inr ⟨rfl, _, rfl⟩
  · rfl

def isYaraString (value : Text) : Bool :=
  match rsplit ':' 1 value with
  | _ :: _ :: _ => true
  | _ => false

theorem settled_yaraStringValue (newValue : Text) : Settled yaraStringValue newValue := by
  apply settled_of_check isYaraString
  · intro newValue
    simp only [yaraStringValue, isYaraString]
    rcases rsplit ':' 1 (strip newValue) with _ | ⟨rule, _ | ⟨string, rest⟩⟩
    case cons.cons => exact .inl ⟨rfl, rfl⟩
    all_goals exact .inr ⟨rfl, _, rfl⟩
  · rfl

theorem strip_of_isIPv4Address (h : isIPv4Address value = true) : strip value = value := by
  have hdigits : ∀ octet ∈ value.splitOn '.', ∀ c ∈ octet, isSpace c = false := by
    intro octet hoctet c hc
    simp only [isIPv4Address, Bool.and_eq_true, all_eq_true] at h
    have hall := h.2 octet hoctet
    simp only [isOctet, Bool.and_eq_true, all_eq_true] at hall
    have hdigit := hall.1.1.1.2 c hc
    simp only [Char.isDigit, Bool.and_eq_true, decide_eq_true_eq, ge_iff_le] at hdigit
    have hlow : 48 ≤ c.toNat := UInt32.le_iff_toNat_le.mp hdigit.1
    have hhigh : c.toNat ≤ 57 := UInt32.le_iff_toNat_le.mp hdigit.2
    simp only [isSpace, decide_eq_false_iff_not]
    omega
  have hvalue : ∀ c ∈ value, isSpace c = false := by
    intro c hc
    rcases eq_or_mem_splitOn '.' hc with rfl | ⟨octet, hoctet, hc⟩
    · rfl
    · exact hdigits octet hoctet c hc
  exact Trimmed.trimEnds_eq ⟨fun c hc => hvalue c (mem_of_head? hc),
    fun c hc => hvalue c (mem_of_getLast? hc)⟩

theorem settled_ipv4Value (newValue : Text) : Settled ipv4Value newValue := by
  by_cases h : isIPv4Address newValue = true
  · have hok : ipv4Value newValue = .ok newValue := by
      rw [ipv4Value, if_pos h, strip_of_isIPv4Address h]
    refine .of_ok hok (fun _ hnil => ?_) hok
    rw [hnil] at h
    exact absurd h (by decide)
  · exact .of_rejected (by rw [ipv4Value, if_neg h, notValid])

theorem settled_fqdnValue (newValue : Text) : Settled (fqdnValue libs) newValue := by
  by_cases h : libs.domain newValue = true
  · have hstripped := libs.domain_strip newValue h
    refine .of_ok (by rw [fqdnValue, if_pos h]) (fun _ hnil => ?_)
      (by rw [fqdnValue, if_pos hstripped, strip_strip])
    rw [hnil, libs.domain_empty] at hstripped
    exact nomatch hstripped
  · exact .of_rejected (by rw [fqdnValue, if_neg h, notValid])

theorem settled_of_keep {construct : Constructor}
    (hconstruct : ∀ newValue, construct newValue = .ok newValue ∨
      ∃ message, construct newValue = .error (.observableValueError message))
    (hempty : construct [] ≠ .ok []) (newValue : Text) : Settled construct newValue := by
  rcases hconstruct newValue with hok | ⟨message, hrejected⟩
  · refine .of_ok hok (fun _ hnil => ?_) hok
    rw [hnil] at hok
    exact hempty hok
  · exact .of_rejected hrejected

theorem settled_fileLocationValue (newValue : Text) : Settled fileLocationValue newValue := by
  apply settled_of_keep
  · intro newValue
    simp only [fileLocationValue, invalid]
    rcases split '@' 1 newValue with _ | ⟨hostname, _ | ⟨fullPath, _ | ⟨third, rest⟩⟩⟩
    case cons.cons.nil =>
      dsimp only
      split_ifs
      · exact .inr ⟨_, rfl⟩
      · exact .inl rfl
    all_goals exact .inr ⟨_, rfl⟩
  · exact nofun

theorem settled_macAddressValue (newValue : Text) : Settled macAddressValue newValue := by
  apply settled_of_keep
  · intro newValue
    simp only [macAddressValue, notValid]
    split_ifs
    · exact .inl rfl
    · exact .inr ⟨_, rfl⟩
  · exact nofun

theorem settled_messageIdValue (newValue : Text) : Settled messageIdValue newValue := by
  by_cases h : '@' ∈ newValue
  · have hmem : '@' ∈ normalizeMessageId (strip newValue) :=
      mem_normalizeMessageId (mem_strip h (by decide)) (by decide)
    refine .of_ok (by rw [messageIdValue, if_neg (not_not_intro h)]) (fun _ hnil => ?_) ?_
    · rw [hnil] at hmem
      exact not_mem_nil hmem
    · rw [messageIdValue, if_neg (not_not_intro hmem), strip_normalizeMessageId,
        normalizeMessageId_normalizeMessageId]
  · exact .of_rejected (by rw [messageIdValue, if_pos h, notValid])

/-! ## §3 Classes that do not -/

theorem settled_userValue_iff (newValue : Text) :
    Settled userValue newValue ↔
      strip (lastSegment '\\' (strip newValue)) = lastSegment '\\' (strip newValue) := by
  have hvalue : ∀ text, userValue text = .ok (lastSegment '\\' (strip text)) := by
    intro text
    simp only [userValue]
    split_ifs with h
    · rfl
    · rw [(notMem_lastSegment '\\' (strip text)).2 h]
  obtain ⟨hsegment, -⟩ := notMem_lastSegment '\\' (strip newValue)
  -- there is no backslash left in the segment
  have hstripped : lastSegment '\\' (strip (lastSegment '\\' (strip newValue))) =
      strip (lastSegment '\\' (strip newValue)) :=
    (notMem_lastSegment '\\' _).2 fun h => hsegment (trimEnds_inside.subset h)
  rw [settled_iff_of_ok (hvalue newValue), hvalue, hstripped]
  constructor
  · intro h
    exact Except.ok.inj h.2
  · intro h
    refine ⟨fun ⟨other, message, hrejected⟩ => ?_, congrArg Except.ok h⟩
    rw [hvalue] at hrejected
    exact nomatch hrejected

theorem isPlain_of_isSpace : ∀ c, isSpace c = true → isPlain c = true := by
  intro c h
  simp [isPlain, h]

theorem isPlain_of_open : ∀ c, (c == '<') = true → isPlain c = true := by
  intro c h
  rw [beq_iff_eq.mp h]
  decide

theorem isPlain_of_close : ∀ c, (c == '>') = true → isPlain c = true := by
  intro c h
  rw [beq_iff_eq.mp h]
  decide

theorem strip_lower_eq_iff (text : Text) :
    strip (libs.lowering.lower text) = libs.lowering.lower text ↔ strip text = text := by
  rw [strip, strip, trimEnds_eq_self_iff, trimEnds_eq_self_iff]
  exact libs.lowering.trimmed_lower_iff isPlain_of_isSpace isPlain_of_isSpace

theorem dropAngles_lower_eq_iff (text : Text) :
    dropAngles (libs.lowering.lower text) = libs.lowering.lower text ↔
      dropAngles text = text := by
  rw [dropAngles, dropAngles, trimEnds_eq_self_iff, trimEnds_eq_self_iff]
  exact libs.lowering.trimmed_lower_iff isPlain_of_open isPlain_of_close

/-- An email address is canonical when the address that is found in it has an at sign, and when
its angle brackets enclose no white space at its ends. -/
theorem settled_emailAddressValue_iff (newValue : Text) :
    Settled (emailAddressValue libs) newValue ↔
      ('@' ∈ newValue → bareAddress (libs.findAddress newValue) = [] ∨
        '@' ∈ bareAddress (libs.findAddress newValue) ∧
          strip (bareAddress (libs.findAddress newValue)) =
            bareAddress (libs.findAddress newValue)) := by
  by_cases hat : '@' ∈ newValue
  swap
  · refine iff_of_true (.of_rejected (by rw [emailAddressValue, if_pos hat])) fun h => ?_
    exact absurd h hat
  have hvalue : ∀ text, '@' ∈ text →
      emailAddressValue libs text = .ok ((libs.normalizeEmailAddress text).getD text) :=
    fun text h => by rw [emailAddressValue, if_neg (not_not_intro h)]
  cases hnormalized : libs.normalizeEmailAddress newValue with
  | none =>
    -- the value stays as it is
    have hbare : bareAddress (libs.findAddress newValue) = [] := by
      rw [libs.normalizeEmailAddress_eq] at hnormalized
      by_contra hne
      rw [if_neg hne] at hnormalized
      exact nomatch hnormalized
    have hok : emailAddressValue libs newValue = .ok newValue := by
      rw [hvalue newValue hat, hnormalized, Option.getD_none]
    exact iff_of_true (.of_ok hok (fun _ => ne_nil_of_mem hat) hok) fun _ => .inl hbare
  | some address =>
    obtain ⟨hne, haddress⟩ := Libraries.normalizeEmailAddress_eq_some hnormalized
    have hok : emailAddressValue libs newValue = .ok address := by
      rw [hvalue newValue hat, hnormalized, Option.getD_some]
    have hmem : '@' ∈ address ↔ '@' ∈ bareAddress (libs.findAddress newValue) :=
      haddress ▸ libs.lowering.mem_lower_iff (by decide)
    have hstrip : strip address = address ↔
        strip (bareAddress (libs.findAddress newValue)) =
          bareAddress (libs.findAddress newValue) :=
      haddress ▸ strip_lower_eq_iff libs _
    have hangles : dropAngles address = address :=
      haddress ▸ (dropAngles_lower_eq_iff libs _).mpr (dropAngles_bareAddress _)
    have hnonempty : address ≠ [] := haddress ▸ libs.lowering.lower_ne_nil _ hne
    rw [settled_iff_of_ok hok, ← hmem, ← hstrip]
    constructor
    · rintro ⟨-, hagain⟩ -
      by_cases haddressAt : '@' ∈ address
      · have hbare : bareAddress address ≠ [] :=
          ne_nil_of_mem (mem_bareAddress haddressAt (by decide) (by decide) (by decide))
        rw [hvalue address haddressAt,
          Libraries.normalizeEmailAddress_again hnormalized (.inl rfl) hbare,
          Option.getD_some] at hagain
        -- nothing was dropped, in particular no white space
        have hpiece : address <:+: strip address := by
          have : bareAddress address <:+: strip address := trimEnds_inside
          rwa [Except.ok.inj hagain] at this
        exact .inr ⟨haddressAt, eq_of_infix_of_infix trimEnds_inside hpiece⟩
      · rw [emailAddressValue, if_pos haddressAt] at hagain
        exact nomatch hagain
    · intro h
      obtain ⟨haddressAt, hstripped⟩ := (h hat).resolve_left hne
      have hbare : bareAddress address = address := by rw [bareAddress, hstripped, hangles]
      refine ⟨fun _ => hnonempty, ?_⟩
      rw [hvalue address haddressAt, Libraries.normalizeEmailAddress_again hnormalized (.inl rfl)
        (hbare.symm ▸ hnonempty), hbare, Option.getD_some]

theorem emailDeliveryValue_of_parts {messageId emailAddress : Text}
    (hsplit : rsplit '|' 1 (strip newValue) = [messageId, emailAddress])
    (hmessageId : messageId ≠ []) (hemailAddress : emailAddress ≠ []) :
    emailDeliveryValue libs newValue =
      match libs.normalizeEmailAddress emailAddress with
      | none => .error .attributeError
      | some emailAddress => .ok (normalizeMessageId messageId ++ '|' :: strip emailAddress) := by
  cases hnormalize : libs.normalizeEmailAddress emailAddress with
  | none =>
    simp only [emailDeliveryValue, hsplit, hmessageId, hemailAddress, or_self, if_false, hnormalize]
  | some address =>
    simp only [emailDeliveryValue, hsplit, hmessageId, hemailAddress, or_self, if_false, hnormalize,
      strip_normalizeMessageId]

theorem emailDeliveryValue_rejected
    (h : ¬ ∃ messageId emailAddress, rsplit '|' 1 (strip newValue) = [messageId, emailAddress] ∧
      messageId ≠ [] ∧ emailAddress ≠ []) :
    ∃ message, emailDeliveryValue libs newValue = .error (.observableValueError message) := by
  simp only [emailDeliveryValue, invalid]
  rcases hsplit : rsplit '|' 1 (strip newValue) with
    _ | ⟨messageId, _ | ⟨emailAddress, _ | ⟨third, rest⟩⟩⟩
  case cons.cons.nil =>
    have hempty : messageId = [] ∨ emailAddress = [] := by
      by_contra hne
      rw [not_or] at hne
      exact h ⟨messageId, emailAddress, hsplit, hne⟩
    exact ⟨_, if_pos hempty⟩
  all_goals exact ⟨_, rfl⟩

theorem rsplit_delivery (messageId : Text) {emailAddress : Text} (hbar : '|' ∉ emailAddress)
    (hstrip : strip emailAddress = emailAddress) :
    rsplit '|' 1 (strip (normalizeMessageId messageId ++ '|' :: emailAddress)) =
      [normalizeMessageId messageId, emailAddress] := by
  have htrimmed : Trimmed isSpace isSpace emailAddress := trimEnds_eq_self_iff.mp hstrip
  have hvalue : strip (normalizeMessageId messageId ++ '|' :: emailAddress) =
      normalizeMessageId messageId ++ '|' :: emailAddress := by
    refine Trimmed.trimEnds_eq ⟨fun x hx => ?_, fun x hx => ?_⟩
    · rw [List.head?_append, head?_normalizeMessageId] at hx
      obtain rfl : '<' = x := by simpa using hx
      decide
    · by_cases hnil : emailAddress = []
      · obtain rfl : '|' = x := by simpa [hnil] using hx
        decide
      · rw [List.getLast?_append_of_ne_nil _ (cons_ne_nil _ _), List.getLast?_cons,
          List.getLast?_eq_some_getLast hnil, Option.getD_some] at hx
        exact htrimmed.last x (Option.some.inj hx ▸ List.getLast?_eq_some_getLast hnil)
  rw [hvalue, rsplit_one_append hbar]

/-- A delivery is canonical when an address is found in its second part, and when neither white
space nor angle brackets alone are left of it, nor an angle bracket behind white space. -/
theorem settled_emailDeliveryValue_iff (newValue : Text) :
    Settled (emailDeliveryValue libs) newValue ↔
      ∀ messageId emailAddress, rsplit '|' 1 (strip newValue) = [messageId, emailAddress] →
        messageId ≠ [] → emailAddress ≠ [] →
          strip (bareAddress (libs.findAddress emailAddress)) ≠ [] ∧
            dropAngles (strip (bareAddress (libs.findAddress emailAddress))) =
              strip (bareAddress (libs.findAddress emailAddress)) := by
  by_cases hparts : ∃ messageId emailAddress,
      rsplit '|' 1 (strip newValue) = [messageId, emailAddress] ∧
        messageId ≠ [] ∧ emailAddress ≠ []
  swap
  · refine iff_of_true ?_ fun messageId emailAddress hsplit hmessageId hemailAddress =>
      absurd ⟨messageId, emailAddress, hsplit, hmessageId, hemailAddress⟩ hparts
    obtain ⟨message, hrejected⟩ := emailDeliveryValue_rejected libs hparts
    exact .of_rejected hrejected
  obtain ⟨messageId, emailAddress, hsplit, hmessageId, hemailAddress⟩ := hparts
  have hcondition : ∀ P : Text → Prop,
      (∀ messageId' emailAddress',
        rsplit '|' 1 (strip newValue) = [messageId', emailAddress'] →
          messageId' ≠ [] → emailAddress' ≠ [] → P emailAddress') ↔ P emailAddress := by
    intro P
    constructor
    · intro h
      exact h messageId emailAddress hsplit hmessageId hemailAddress
    · intro h messageId' emailAddress' hsplit' _ _
      obtain ⟨-, rfl⟩ : messageId = messageId' ∧ emailAddress = emailAddress' := by
        simpa [hsplit] using hsplit'
      exact h
  rw [hcondition fun emailAddress => strip (bareAddress (libs.findAddress emailAddress)) ≠ [] ∧
    dropAngles (strip (bareAddress (libs.findAddress emailAddress))) =
      strip (bareAddress (libs.findAddress emailAddress))]
  have hvalue := emailDeliveryValue_of_parts libs hsplit hmessageId hemailAddress
  cases hnormalized : libs.normalizeEmailAddress emailAddress with
  | none =>
    -- the missing address is stripped, which raises
    have hbare : bareAddress (libs.findAddress emailAddress) = [] := by
      rw [libs.normalizeEmailAddress_eq] at hnormalized
      by_contra hne
      rw [if_neg hne] at hnormalized
      exact nomatch hnormalized
    rw [hnormalized] at hvalue
    refine iff_of_false (by simp only [Settled, hvalue, not_false_eq_true]) fun h => h.1 ?_
    rw [hbare]
    rfl
  | some address =>
    obtain ⟨-, haddress⟩ := Libraries.normalizeEmailAddress_eq_some hnormalized
    rw [hnormalized] at hvalue
    have hstrip : strip address =
        libs.lowering.lower (strip (bareAddress (libs.findAddress emailAddress))) :=
      haddress ▸ libs.lowering.trimEnds_lower isPlain_of_isSpace
    have hnonempty : strip address ≠ [] ↔
        strip (bareAddress (libs.findAddress emailAddress)) ≠ [] := by
      rw [hstrip, Ne, Lowering.lower_eq_nil_iff]
    have hangles : dropAngles (strip address) = strip address ↔
        dropAngles (strip (bareAddress (libs.findAddress emailAddress))) =
          strip (bareAddress (libs.findAddress emailAddress)) := by
      rw [hstrip]
      exact dropAngles_lower_eq_iff libs _
    have hbar : '|' ∉ strip address := by
      intro h
      have hmem : '|' ∈ bareAddress (libs.findAddress emailAddress) := by
        have := trimEnds_inside.subset h
        rw [haddress] at this
        exact (libs.lowering.mem_lower_iff (by decide)).mp this
      exact (rsplit_one_eq hsplit).2
        (Libraries.bar_mem_of_mem_findAddress ((bareAddress_inside _).subset hmem))
    have hagain := rsplit_delivery messageId hbar (strip_strip address)
    have hmessageId' : normalizeMessageId messageId ≠ [] := by
      intro h
      have := head?_normalizeMessageId messageId
      rw [h] at this
      exact nomatch this
    rw [settled_iff_of_ok hvalue, ← hnonempty, ← hangles]
    by_cases hblank : strip address = []
    · -- the second part is empty now
      refine iff_of_false (fun h => ?_) fun h => h.1 hblank
      obtain ⟨message, hrejected⟩ := emailDeliveryValue_rejected libs (by
          rintro ⟨messageId', emailAddress', hsplit', -, hne⟩
          rw [hagain, hblank] at hsplit'
          simp_all)
      rw [hrejected] at h
      exact nomatch h.2
    · have hsecond := emailDeliveryValue_of_parts libs hagain hmessageId' hblank
      rw [normalizeMessageId_normalizeMessageId] at hsecond
      have hstripped : bareAddress (strip address) = dropAngles (strip address) := by
        rw [bareAddress, strip_strip]
      by_cases hbrackets : bareAddress (strip address) = []
      · -- only angle brackets are left of it
        rw [Libraries.normalizeEmailAddress_blank hnormalized hbrackets] at hsecond
        refine iff_of_false (fun h => ?_) fun h => ?_
        · rw [hsecond] at h
          exact nomatch h.2
        · rw [← hstripped, hbrackets] at h
          exact hblank h.2.symm
      · rw [Libraries.normalizeEmailAddress_again hnormalized (.inr rfl) hbrackets] at hsecond
        constructor
        · rintro ⟨-, hok⟩
          rw [hsecond] at hok
          have heq : strip (bareAddress (strip address)) = strip address := by
            simpa using hok
          have hpiece : strip address <:+: bareAddress (strip address) := by
            have : strip (bareAddress (strip address)) <:+: bareAddress (strip address) :=
              trimEnds_inside
            rwa [heq] at this
          exact ⟨hblank, hstripped ▸ eq_of_infix_of_infix (bareAddress_inside _) hpiece⟩
        · rintro ⟨-, h⟩
          refine ⟨fun _ => by simp, ?_⟩
          rw [hsecond, hstripped, h]
          change Except.ok (normalizeMessageId messageId ++ '|' :: strip (strip address)) = _
          rw [strip_strip]

/-! ## §4 The exact condition -/

/-- What must hold of a value of a type. It concerns what is left when a value has been taken
apart, before it is normalized. -/
def RegisteredType.NothingExposed (libs : Libraries) : RegisteredType → Text → Prop
  -- no white space behind the last backslash
  | .user, oValue => strip (lastSegment '\\' (strip oValue)) = lastSegment '\\' (strip oValue)
  -- the address that is found in the value is one, without white space at its ends
  | .emailAddress, oValue => '@' ∈ oValue →
    bareAddress (libs.findAddress oValue) = [] ∨
      '@' ∈ bareAddress (libs.findAddress oValue) ∧
        strip (bareAddress (libs.findAddress oValue)) = bareAddress (libs.findAddress oValue)
  -- an address is found, and stripping it exposes no angle bracket
  | .emailDelivery, oValue => ∀ messageId emailAddress,
    rsplit '|' 1 (strip oValue) = [messageId, emailAddress] →
      messageId ≠ [] → emailAddress ≠ [] →
        strip (bareAddress (libs.findAddress emailAddress)) ≠ [] ∧
          dropAngles (strip (bareAddress (libs.findAddress emailAddress))) =
            strip (bareAddress (libs.findAddress emailAddress))
  | _, _ => True

/-- The values of a registered type other than `file` are canonical, except for users, addresses
and deliveries where something is exposed. -/
theorem RegisteredType.canonical_iff (type : RegisteredType) (hfile : type ≠ .file)
    (oValue : Text) : Canonical libs type oValue ↔ type.NothingExposed libs oValue := by
  rw [canonical_iff_settled]
  cases type with
  | file => exact absurd rfl hfile
  | user => exact settled_userValue_iff oValue
  | emailAddress => exact settled_emailAddressValue_iff libs oValue
  | emailDelivery => exact settled_emailDeliveryValue_iff libs oValue
  | filePath | fileName | url | emailBody | emailHeader | test | stringEps | stringHtml
  | stringJava | stringJs | stringOffice | stringPdf | stringPe | stringRtf | stringSwf
  | stringUnixShell | stringVbs | stringWindowsShell =>
    exact iff_of_true (settled_asGiven oValue) trivial
  | hostname | asset | uriPath | userAgent | emailSubject | emailXMailer | emailConversation
  | snortSignature | avStreetname | idsStreetname | mutex | windowsRegistry | windowsService
  | awsAccessKeyId | awsPrincipalId | awsUsername | awsInstanceId | awsSecurityGroupId
  | awsPrivateDnsName | indicator | yaraRule =>
    exact iff_of_true (settled_stripped oValue) trivial
  | md5 | sha1 | sha256 => exact iff_of_true (settled_hashValue _ oValue) trivial
  | awsAccountId => exact iff_of_true (settled_awsAccountValue libs oValue) trivial
  | ipv4Conversation | ipv4FullConversation =>
    exact iff_of_true (settled_ipv4ConversationValue _ _ (by decide) oValue) trivial
  | ip | emailFirstHopIp => exact iff_of_true (settled_ipValue libs oValue) trivial
  | ipConversation => exact iff_of_true (settled_ipConversationValue libs oValue) trivial
  | ipFullConversation => exact iff_of_true (settled_ipFullConversationValue libs oValue) trivial
  | ipv4 => exact iff_of_true (settled_ipv4Value oValue) trivial
  | fqdn => exact iff_of_true (settled_fqdnValue libs oValue) trivial
  | fileLocation => exact iff_of_true (settled_fileLocationValue oValue) trivial
  | macAddress => exact iff_of_true (settled_macAddressValue oValue) trivial
  | messageId => exact iff_of_true (settled_messageIdValue oValue) trivial
  | yaraString => exact iff_of_true (settled_yaraStringValue oValue) trivial

theorem toNat_toLower (c : Char) :
    c.toLower.toNat = if 65 ≤ c.toNat ∧ c.toNat ≤ 90 then c.toNat + 32 else c.toNat := by
  have hbounds : (c.val ≥ 'A'.val ∧ c.val ≤ 'Z'.val) ↔ 65 ≤ c.toNat ∧ c.toNat ≤ 90 := Iff.rfl
  by_cases h : 65 ≤ c.toNat ∧ c.toNat ≤ 90
  · rw [if_pos h, show c.toLower = _ from dif_pos (hbounds.mpr h)]
    change (c.val.toNat + 32) % 4294967296 = c.toNat + 32
    have : c.val.toNat = c.toNat := rfl
    omega
  · rw [if_neg h, show c.toLower = c from dif_neg (mt hbounds.mp h)]

theorem toLower_eq_self {c : Char} (h : ¬ (65 ≤ c.toNat ∧ c.toNat ≤ 90)) : c.toLower = c :=
  dif_neg h

theorem toNat_of_isPlain {c : Char} (h : isPlain c = true) :
    ¬ (65 ≤ c.toNat ∧ c.toNat ≤ 90) ∧ ¬ (97 ≤ c.toNat ∧ c.toNat ≤ 122) := by
  simp only [isPlain, isSpace, Bool.or_eq_true, decide_eq_true_eq, mem_cons,
    not_mem_nil, or_false] at h
  rcases h with h | rfl | rfl | rfl | rfl
  · omega
  all_goals decide

def asciiLowering : Lowering Char isPlain :=
  .ofLetters Char.toLower (fun c h => toLower_eq_self (toNat_of_isPlain h).1)
    (fun c h => by
      by_cases hupper : 65 ≤ c.toNat ∧ c.toNat ≤ 90
      · have := (toNat_of_isPlain h).2
        rw [toNat_toLower, if_pos hupper] at this
        omega
      · rwa [toLower_eq_self hupper] at h)
    fun c => by
      apply toLower_eq_self
      rw [toNat_toLower]
      split_ifs <;> omega

/-- A text with an at sign and without white space and angle brackets. -/
def isPlainAddress (text : Text) : Bool :=
  '@' ∈ text && text.all fun c => !isSpace c && c ≠ '<' && c ≠ '>'

variable {text : Text}

theorem isPlainAddress_iff : isPlainAddress text = true ↔
    '@' ∈ text ∧ ∀ c ∈ text, isSpace c = false ∧ c ≠ '<' ∧ c ≠ '>' := by
  simp [isPlainAddress, all_eq_true, and_assoc]

theorem strip_of_forall_mem (h : ∀ c ∈ text, isSpace c = false) :
    strip text = text :=
  Trimmed.trimEnds_eq ⟨fun c hc => h c (mem_of_head? hc),
    fun c hc => h c (mem_of_getLast? hc)⟩

theorem bareAddress_of_isPlainAddress (h : isPlainAddress text = true) :
    strip text = text ∧ bareAddress text = text := by
  have hchars := (isPlainAddress_iff.mp h).2
  have hstrip := strip_of_forall_mem fun c hc => (hchars c hc).1
  refine ⟨hstrip, ?_⟩
  rw [bareAddress, hstrip]
  exact Trimmed.trimEnds_eq ⟨fun c hc => by simpa using (hchars c (mem_of_head? hc)).2.1,
    fun c hc => by simpa using (hchars c (mem_of_getLast? hc)).2.2⟩

theorem isPlainAddress_lower (h : isPlainAddress text = true) :
    isPlainAddress (asciiLowering.lower text) = true := by
  obtain ⟨hat, hchars⟩ := isPlainAddress_iff.mp h
  refine isPlainAddress_iff.mpr ⟨(asciiLowering.mem_lower_iff (by decide)).mpr hat,
    fun c hc => ⟨Bool.eq_false_iff.mpr fun hspace => ?_, ?_, ?_⟩⟩
  · have := (hchars c ((asciiLowering.mem_lower_iff (isPlain_of_isSpace c hspace)).mp hc)).1
    simp [hspace] at this
  · rintro rfl
    exact (hchars _ ((asciiLowering.mem_lower_iff (by decide)).mp hc)).2.1 rfl
  · rintro rfl
    exact (hchars _ ((asciiLowering.mem_lower_iff (by decide)).mp hc)).2.2 rfl

/-- `parseaddr` as far as a plain address goes. -/
def parsePlainAddress (text : Text) : Text × Text :=
  if isPlainAddress text then ([], text) else ([], [])

theorem isPlainAddress_of_findAddress (h : findAddress parsePlainAddress text ≠ []) :
    isPlainAddress (findAddress parsePlainAddress text) = true := by
  have hparsed : ∀ text, (parsePlainAddress text).2 ≠ [] →
      isPlainAddress (parsePlainAddress text).2 = true := by
    intro text hne
    by_cases hplain : isPlainAddress text = true
    · simpa only [parsePlainAddress, if_pos hplain] using hplain
    · simp [parsePlainAddress, hplain] at hne
  simp only [findAddress] at h ⊢
  split_ifs at h ⊢ with hnil
  · exact hparsed _ h
  · exact hparsed _ h

def plainLibraries : Libraries where
  isDigit := Char.isDigit
  isInt text := text ≠ [] && text.all Char.isDigit
  ipAddress := isIPv4Address
  ipAddress_empty := by decide
  domain text := text ≠ [] && text.all (!isSpace ·)
  domain_empty := by decide
  domain_strip text h := by
    have hchars : ∀ c ∈ text, isSpace c = false := by
      intro c hc
      simp only [Bool.and_eq_true, all_eq_true] at h
      simpa using h.2 c hc
    rwa [strip_of_forall_mem hchars]
  lowering := asciiLowering
  parseaddr := parsePlainAddress
  parseaddr_again text address h again hagain := by
    simp only [normalizeEmailAddress] at h
    split_ifs at h with hnil hbare
    have hplain := isPlainAddress_of_findAddress hnil
    have haddress : address = asciiLowering.lower (findAddress parsePlainAddress text) := by
      rw [← Option.some.inj h]
      exact congrArg asciiLowering.lower (bareAddress_of_isPlainAddress hplain).2
    have hlower : isPlainAddress address = true := haddress ▸ isPlainAddress_lower hplain
    obtain rfl : again = address := by
      rcases hagain with rfl | rfl
      · rfl
      · exact (bareAddress_of_isPlainAddress hlower).1
    rw [parsePlainAddress, if_pos hlower]
  parseaddr_blank text h := by
    have hplain : ¬ isPlainAddress text = true := by
      intro hplain
      obtain ⟨hat, -⟩ := isPlainAddress_iff.mp hplain
      exact absurd (h '@' hat) (by decide)
    rw [parsePlainAddress, if_neg hplain]
    rfl
  parseaddr_bar text h := by
    rw [parsePlainAddress] at h
    split_ifs at h
    · exact h
    · exact absurd h not_mem_nil

/-- The address of a sender in capitals is created in lower case, and then stays as it is. -/
theorem sender_canonical :
    Canonical plainLibraries .emailAddress "Bob@Example.com".toList :=
  (RegisteredType.canonical_iff plainLibraries .emailAddress (by decide) _).mpr
    fun _ => .inr ⟨by decide, by decide⟩

/-- A user behind a domain, a backslash and a blank is created with the blank, and from that
without it; and a delivery to nobody raises. -/
theorem user_behind_blank_not_canonical :
    (createObservable plainLibraries "user" "DOMAIN\\ bob".toList =
        .ok (some ⟨"user", " bob".toList⟩) ∧
      createObservable plainLibraries "user" " bob".toList = .ok (some ⟨"user", "bob".toList⟩) ∧
      ¬ Canonical plainLibraries .user "DOMAIN\\ bob".toList) ∧
    createObservable plainLibraries "email_delivery" "<1@example>|<>".toList =
        .error .attributeError ∧
      ¬ Canonical plainLibraries .emailDelivery "<1@example>|<>".toList := by
  have hfirst : createObservable plainLibraries "user" "DOMAIN\\ bob".toList =
      .ok (some ⟨"user", " bob".toList⟩) := by decide
  have hsecond : createObservable plainLibraries "user" " bob".toList =
      .ok (some ⟨"user", "bob".toList⟩) := by decide
  have hraises : createObservable plainLibraries "email_delivery" "<1@example>|<>".toList =
      .error .attributeError := by decide
  refine ⟨⟨hfirst, hsecond, fun h => ?_⟩, hraises, fun h => ?_⟩
  · have hname : RegisteredType.name .user = "user" := rfl
    simp only [Canonical, hname, hfirst] at h
    rw [hsecond] at h
    exact absurd h.2 (by decide)
  · have hname : RegisteredType.name .emailDelivery = "email_delivery" := rfl
    simp only [Canonical, hname, hraises] at h

end Ace3.Observables
