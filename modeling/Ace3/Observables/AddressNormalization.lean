import Ace3.Lib.Separators
import Ace3.Observables.ObservableValues

/-!
# Normalizing Addresses a Second Time

What `normalize_message_id` and `normalize_email_address` do to what they have returned.
-/

namespace Ace3.Observables

open List
open Analysis (isSpace)
open Lib.Trim Lib.CaseMapping

variable {text : Text} {c sep : Char}

/-! ## §1 Splitting -/

theorem strip_strip (text : Text) : strip (strip text) = strip text :=
  trimEnds_trimEnds

theorem mem_strip (hc : c ∈ text) (hspace : isSpace c = false) : c ∈ strip text :=
  mem_trimEnds_of_not hc hspace hspace

theorem strip_eq_self {first last : Char} (hfirst : text.head? = some first)
    (hlast : text.getLast? = some last) (hfirst' : isSpace first = false)
    (hlast' : isSpace last = false) : strip text = text := by
  refine Trimmed.trimEnds_eq ⟨fun x hx => ?_, fun x hx => ?_⟩
  · rw [hfirst] at hx
    exact Option.some.inj hx ▸ hfirst'
  · rw [hlast] at hx
    exact Option.some.inj hx ▸ hlast'

theorem split_one_of_notMem (h : sep ∉ text) : split sep 1 text = [text] := by
  have hdrop : text.dropWhile (· ≠ sep) = [] := by
    rw [dropWhile_eq_nil_iff]
    intro x hx
    simpa using fun heq : x = sep => h (heq ▸ hx)
  simp only [split, hdrop]

variable {before after : Text}

theorem split_one_append (h : sep ∉ before) :
    split sep 1 (before ++ sep :: after) = [before, after] := by
  have hbefore : ∀ x ∈ before, decide (x ≠ sep) = true := by
    intro x hx
    simpa using fun heq : x = sep => h (heq ▸ hx)
  have hdrop : (before ++ sep :: after).dropWhile (· ≠ sep) = sep :: after := by
    rw [dropWhile_append_of_pos hbefore, dropWhile_cons_of_neg (by simp)]
  have htake : (before ++ sep :: after).takeWhile (· ≠ sep) = before := by
    rw [takeWhile_append_of_pos hbefore, takeWhile_cons_of_neg (by simp),
      append_nil]
  simp only [split, hdrop, htake]

theorem rsplit_one_append (h : sep ∉ after) :
    rsplit sep 1 (before ++ sep :: after) = [before, after] := by
  have hreverse : (before ++ sep :: after).reverse = after.reverse ++ sep :: before.reverse := by
    simp
  rw [rsplit, hreverse, split_one_append (by simpa using h)]
  simp

theorem eq_append_cons_last (h : sep ∈ text) :
    ∃ front back, text = front ++ sep :: back ∧ sep ∉ back := by
  obtain ⟨back, front, htext, hback⟩ := eq_append_cons_of_mem (mem_reverse.mpr h)
  refine ⟨front.reverse, back.reverse, ?_, by simpa using hback⟩
  rw [← reverse_reverse text, htext]
  simp

theorem rsplit_one_eq (h : rsplit sep 1 text = [before, after]) :
    text = before ++ sep :: after ∧ sep ∉ after := by
  by_cases hmem : sep ∈ text
  · obtain ⟨front, back, rfl, hback⟩ := eq_append_cons_last hmem
    rw [rsplit_one_append hback] at h
    obtain ⟨rfl, rfl⟩ : front = before ∧ back = after := by simpa using h
    exact ⟨rfl, hback⟩
  · rw [rsplit, split_one_of_notMem (by simpa using hmem)] at h
    simp at h

theorem notMem_lastSegment (sep : Char) (text : Text) :
    sep ∉ lastSegment sep text ∧ (sep ∉ text → lastSegment sep text = text) := by
  by_cases hmem : sep ∈ text
  · refine ⟨?_, fun h => absurd hmem h⟩
    obtain ⟨front, back, rfl, hback⟩ := eq_append_cons_last hmem
    have hsplit : (front ++ sep :: back).splitOn sep = front.splitOn sep ++ [back] := by
      rw [splitOn_append_cons_self, splitOn_eq_singleton hback]
    simpa [lastSegment, hsplit] using hback
  · have hsplit : text.splitOn sep = [text] := splitOn_eq_singleton hmem
    have hlast : lastSegment sep text = text := by simp [lastSegment, hsplit]
    refine ⟨?_, fun _ => hlast⟩
    rw [hlast]
    exact hmem

theorem eq_or_mem_splitOn (sep : Char) (hc : c ∈ text) :
    c = sep ∨ ∃ segment ∈ text.splitOn sep, c ∈ segment := by
  have htext : [sep].intercalate (text.splitOn sep) = text := intercalate_splitOn sep
  exact Lib.mem_intercalate (htext.symm ▸ hc)

/-! ## §2 Message ids -/

theorem strip_toList (s : String) : (EmailArchive.strip s).toList = strip s.toList := by
  simp [EmailArchive.strip, strip, trimEnds, List.rdropWhile]

theorem normalizeMessageId_eq (messageId : Text) :
    normalizeMessageId messageId =
      let messageId := strip messageId
      let messageId := if messageId.head? = some '<' then messageId else '<' :: messageId
      if messageId.getLast? = some '>' then messageId else messageId ++ ['>'] := by
  have hstarts : ∀ s : String, s.startsWith "<" = true ↔ s.toList.head? = some '<' := by
    intro s
    rw [String.startsWith_string_iff]
    cases s.toList <;> simp [cons_prefix_cons, eq_comm]
  have hends : ∀ s : String, s.endsWith ">" = true ↔ s.toList.getLast? = some '>' := by
    intro s
    rw [← String.endsWith_toSlice, String.Slice.endsWith_string_iff, String.copy_toSlice,
      List.getLast?_eq_some_iff]
    exact ⟨fun ⟨t, ht⟩ => ⟨t, ht.symm⟩, fun ⟨t, ht⟩ => ⟨t, ht.symm⟩⟩
  simp only [normalizeMessageId, EmailArchive.normalizeMessageId, hstarts, hends, strip_toList,
    String.toList_ofList]
  split_ifs <;> simp_all [strip_toList]

theorem head?_normalizeMessageId (messageId : Text) :
    (normalizeMessageId messageId).head? = some '<' := by
  have hhead : ∀ messageId : Text,
      (if messageId.head? = some '<' then messageId else '<' :: messageId).head? = some '<' := by
    intro messageId
    split_ifs with h
    · exact h
    · rfl
  simp only [normalizeMessageId_eq]
  split_ifs <;> simp_all

theorem getLast?_normalizeMessageId (messageId : Text) :
    (normalizeMessageId messageId).getLast? = some '>' := by
  have hlast : ∀ messageId : Text,
      (if messageId.getLast? = some '>' then messageId else messageId ++ ['>']).getLast? =
        some '>' := by
    intro messageId
    split_ifs with h
    · exact h
    · exact List.getLast?_concat
  rw [normalizeMessageId_eq]
  exact hlast _

theorem strip_normalizeMessageId (messageId : Text) :
    strip (normalizeMessageId messageId) = normalizeMessageId messageId :=
  strip_eq_self (head?_normalizeMessageId messageId) (getLast?_normalizeMessageId messageId)
    (by decide) (by decide)

theorem normalizeMessageId_normalizeMessageId (messageId : Text) :
    normalizeMessageId (normalizeMessageId messageId) = normalizeMessageId messageId := by
  rw [normalizeMessageId_eq (normalizeMessageId messageId)]
  simp only [strip_normalizeMessageId, head?_normalizeMessageId, getLast?_normalizeMessageId,
    if_true]

theorem mem_normalizeMessageId (hc : c ∈ text) (hspace : isSpace c = false) :
    c ∈ normalizeMessageId text := by
  have := mem_strip hc hspace
  simp only [normalizeMessageId_eq]
  split_ifs <;> simp [this]

/-! ## §3 Angle brackets -/

theorem mem_of_mem_replaceDouble {d : Char} : c ∈ replaceDouble d text → c ∈ text := by
  fun_induction replaceDouble d text with
  | case1 first second rest heq ih =>
    intro h
    rcases mem_cons.mp h with rfl | h
    · simp [heq.1]
    · simp [ih h]
  | case2 first second rest hne ih =>
    intro h
    rcases mem_cons.mp h with rfl | h
    · simp
    · exact mem_cons_of_mem _ (ih h)
  | case3 => exact id

theorem mem_of_mem_fixDoubledAngles {fuel : ℕ} : c ∈ fixDoubledAngles fuel text → c ∈ text := by
  induction fuel generalizing text with
  | zero => exact id
  | succ fuel ih =>
    intro h
    rw [fixDoubledAngles] at h
    split_ifs at h
    · exact mem_of_mem_replaceDouble (mem_of_mem_replaceDouble (ih h))
    · exact h

theorem length_replaceDouble_le (d : Char) (text : Text) :
    (replaceDouble d text).length ≤ text.length := by
  fun_induction replaceDouble d text with
  | case1 first second rest heq ih => simp only [length_cons]; omega
  | case2 first second rest hne ih => simp only [length_cons] at ih ⊢; omega
  | case3 => exact Nat.le_refl _

theorem length_replaceDouble_lt {d : Char} (h : hasDouble d text = true) :
    (replaceDouble d text).length < text.length := by
  fun_induction replaceDouble d text with
  | case1 first second rest heq ih =>
    have := length_replaceDouble_le d rest
    simp only [length_cons]
    omega
  | case2 first second rest hne ih =>
    have hrest : hasDouble d (second :: rest) = true := by
      simp only [hasDouble, Bool.or_eq_true, Bool.and_eq_true, decide_eq_true_eq] at h
      exact h.resolve_left hne
    have := ih hrest
    simp only [length_cons] at this ⊢
    omega
  | case3 text hshort =>
    match text, hshort, h with
    | [], _, h => simp [hasDouble] at h
    | [_], _, h => simp [hasDouble] at h
    | first :: second :: rest, hshort, _ => exact absurd rfl (hshort first second rest)

theorem fixDoubledAngles_done {fuel : ℕ} (h : text.length ≤ fuel) :
    hasDouble '<' (fixDoubledAngles fuel text) = false ∨
      hasDouble '>' (fixDoubledAngles fuel text) = false := by
  induction fuel generalizing text with
  | zero =>
    obtain rfl := length_eq_zero_iff.mp (Nat.le_zero.mp h)
    exact .inl rfl
  | succ fuel ih =>
    rw [fixDoubledAngles]
    split_ifs with hdouble
    · rw [Bool.and_eq_true] at hdouble
      have hlt := length_replaceDouble_lt hdouble.1
      have hle := length_replaceDouble_le '>' (replaceDouble '<' text)
      exact ih (by omega)
    · simpa [Bool.and_eq_true, or_iff_not_imp_left] using hdouble

/-- An address without the white space, then without the angle brackets around it. -/
def bareAddress (address : Text) : Text := dropAngles (strip address)

theorem bareAddress_inside (address : Text) : bareAddress address <:+: address :=
  trimEnds_inside.trans trimEnds_inside

theorem mem_bareAddress (hc : c ∈ text) (hspace : isSpace c = false) (hopen : c ≠ '<')
    (hclose : c ≠ '>') : c ∈ bareAddress text :=
  mem_trimEnds_of_not (mem_strip hc hspace) (by simpa using hopen) (by simpa using hclose)

theorem dropAngles_bareAddress (address : Text) :
    dropAngles (bareAddress address) = bareAddress address :=
  trimEnds_trimEnds

/-! ## §4 Email addresses -/

namespace Libraries

variable (libs : Libraries) {address again : Text}

theorem normalizeEmailAddress_eq (text : Text) :
    libs.normalizeEmailAddress text =
      if bareAddress (libs.findAddress text) = [] then none
      else some (libs.lowering.lower (bareAddress (libs.findAddress text))) := by
  have hempty : libs.findAddress text = [] → bareAddress (libs.findAddress text) = [] :=
    fun h => by rw [h]; rfl
  rw [Libraries.normalizeEmailAddress, Observables.normalizeEmailAddress]
  change (if libs.findAddress text = [] then none
    else if bareAddress (libs.findAddress text) = [] then none
    else some (libs.lowering.lower (bareAddress (libs.findAddress text)))) = _
  split_ifs with h h'
  · rfl
  · exact absurd (hempty h) h'
  · rfl
  · rfl

variable {libs}

theorem bar_mem_of_mem_findAddress (h : '|' ∈ libs.findAddress text) : '|' ∈ text := by
  simp only [Libraries.findAddress, Observables.findAddress] at h
  split_ifs at h
  · exact mem_of_mem_fixDoubledAngles (libs.parseaddr_bar _ h)
  · exact libs.parseaddr_bar _ h

theorem normalizeEmailAddress_eq_some (h : libs.normalizeEmailAddress text = some address) :
    bareAddress (libs.findAddress text) ≠ [] ∧
      address = libs.lowering.lower (bareAddress (libs.findAddress text)) := by
  rw [libs.normalizeEmailAddress_eq] at h
  split_ifs at h with hempty
  exact ⟨hempty, (Option.some.inj h).symm⟩

theorem normalizeEmailAddress_again (h : libs.normalizeEmailAddress text = some address)
    (hagain : again = address ∨ again = strip address) (hbare : bareAddress again ≠ []) :
    libs.normalizeEmailAddress again = some (bareAddress again) := by
  have hfound : bareAddress (libs.parseaddr again).2 = bareAddress again :=
    libs.parseaddr_again text address h again hagain
  have hparsed : (libs.parseaddr again).2 ≠ [] := by
    intro hnil
    rw [hnil] at hfound
    exact hbare (hfound.symm.trans rfl)
  have hfind : libs.findAddress again = (libs.parseaddr again).2 := by
    simp [Libraries.findAddress, Observables.findAddress, hparsed]
  -- it is a piece of a text in lower case
  have hpiece : again <:+: address := by
    rcases hagain with rfl | rfl
    · exact infix_rfl
    · exact trimEnds_inside
  have hlower : libs.lowering.lower (bareAddress again) = bareAddress again := by
    obtain ⟨-, haddress⟩ := normalizeEmailAddress_eq_some h
    rw [haddress] at hpiece
    exact libs.lowering.lower_of_infix _ _ ((bareAddress_inside again).trans hpiece)
  rw [libs.normalizeEmailAddress_eq, hfind, hfound, if_neg hbare, hlower]

theorem normalizeEmailAddress_blank (h : libs.normalizeEmailAddress text = some address)
    (hbare : bareAddress (strip address) = []) :
    libs.normalizeEmailAddress (strip address) = none := by
  have hfound : bareAddress (libs.parseaddr (strip address)).2 = [] :=
    (libs.parseaddr_again text address h (strip address) (.inr rfl)).trans hbare
  have hblank : ∀ c ∈ fixDoubledAngles (strip address).length (strip address),
      isSpace c = true ∨ c = '<' ∨ c = '>' := by
    intro c hc
    by_contra hnot
    simp only [not_or, Bool.not_eq_true] at hnot
    have := mem_bareAddress (mem_of_mem_fixDoubledAngles hc) hnot.1 hnot.2.1 hnot.2.2
    rw [hbare] at this
    exact not_mem_nil this
  have hfind : bareAddress (libs.findAddress (strip address)) = [] := by
    simp only [Libraries.findAddress, Observables.findAddress]
    split_ifs
    · exact libs.parseaddr_blank _ hblank
    · exact hfound
  rw [libs.normalizeEmailAddress_eq, if_pos hfind]

end Libraries

end Ace3.Observables
