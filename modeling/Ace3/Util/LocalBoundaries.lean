import Ace3.Util.RelativeTime

/-!
# Snaps and Local Boundaries

A snap sets the wall clock back to the start of a unit, and keeps the offset that was in effect at
the moment that is snapped. The result is the last start of the unit in the time zone only if that
offset was in effect at the start, too.
-/

namespace Ace3.Util

open Lib Lib.Calendar

/-! ## §1 ℕ clocks -/

/-- The wall clock is a start of the unit. Weeks start on Sundays. -/
def IsStart : SnapUnit → ℕ → Prop
  | .s, w => w % second = 0
  | .m, w => w % minute = 0
  | .h, w => w % hour = 0
  | .d, w => w % day = 0
  | .w, w => w % day = 0 ∧ weekday (w / day) = 6
  | .mon, w => w % day = 0 ∧ dayOf (w / day) = 1
  | .y, w => w % day = 0 ∧ dayOf (w / day) = 1 ∧ monthOf (w / day) = 1

instance (unit : SnapUnit) (w : ℕ) : Decidable (IsStart unit w) := by
  unfold IsStart
  cases unit <;> infer_instance

variable {unit : SnapUnit} {w b : ℕ}

theorem isGreatest_multiple (c w : ℕ) :
    IsGreatest {s | s ≤ w ∧ s % c = 0} (w / c * c) := by
  refine ⟨⟨Nat.div_mul_le_self w c, Nat.mul_mod_left _ _⟩, fun s hs => ?_⟩
  obtain ⟨hle, hmod⟩ := hs
  rw [← Nat.div_mul_cancel (Nat.dvd_of_mod_eq_zero hmod)]
  exact Nat.mul_le_mul_right c (Nat.div_le_div_right hle)

theorem isGreatest_midnight {P : ℕ → Prop} {j : ℕ} (hj : IsGreatest {j | j ≤ w / day ∧ P j} j) :
    IsGreatest {s | s ≤ w ∧ s % day = 0 ∧ P (s / day)} (j * day) := by
  have hday : 0 < day := by decide
  refine ⟨⟨?_, Nat.mul_mod_left _ _, ?_⟩, fun s hs => ?_⟩
  · exact (Nat.le_div_iff_mul_le hday).mp hj.1.1
  · rw [Nat.mul_div_cancel j hday]
    exact hj.1.2
  · obtain ⟨hle, hmod, hP⟩ := hs
    rw [← Nat.div_mul_cancel (Nat.dvd_of_mod_eq_zero hmod)]
    exact Nat.mul_le_mul_right day (hj.2 ⟨Nat.div_le_div_right hle, hP⟩)

theorem replace_s (w : ℕ) : replace w (snapFields .s) = w / second * second := by
  simp only [replace, snapFields, Option.getD_none, Option.getD_some, ordinal_date]
  simp only [day, hour, minute, second]
  omega

theorem replace_m (w : ℕ) : replace w (snapFields .m) = w / minute * minute := by
  simp only [replace, snapFields, Option.getD_none, Option.getD_some, ordinal_date]
  simp only [day, hour, minute, second]
  omega

theorem replace_h (w : ℕ) : replace w (snapFields .h) = w / hour * hour := by
  simp only [replace, snapFields, Option.getD_none, Option.getD_some, ordinal_date]
  simp only [day, hour, minute, second]
  omega

theorem replace_d (w : ℕ) : replace w (snapFields .d) = w / day * day := by
  simp only [replace, snapFields, Option.getD_none, Option.getD_some, ordinal_date, Nat.zero_mul,
    Nat.add_zero]

theorem replace_mon (w : ℕ) : replace w (snapFields .mon) =
    ordinal (yearOf (w / day)) (monthOf (w / day)) 1 * day := by
  simp only [replace, snapFields, Option.getD_none, Option.getD_some, Nat.zero_mul, Nat.add_zero]

theorem replace_y (w : ℕ) :
    replace w (snapFields .y) = ordinal (yearOf (w / day)) 1 1 * day := by
  simp only [replace, snapFields, Option.getD_some, Nat.zero_mul, Nat.add_zero]

theorem checked_eq_some_iff {x : ℤ} : checked x = some w ↔ x = w ∧ w < maxWall := by
  unfold checked
  split
  next h =>
    rw [Option.some.injEq]
    constructor
    · rintro rfl
      have hlt := h.2
      exact ⟨(Int.toNat_of_nonneg h.1).symm, by omega⟩
    · rintro ⟨rfl, -⟩
      exact Int.toNat_natCast w
  next h =>
    refine ⟨nofun, ?_⟩
    rintro ⟨rfl, hlt⟩
    exact absurd ⟨Int.natCast_nonneg w, Int.ofNat_lt.mpr hlt⟩ h

theorem snapWall_spec (h : snapWall unit w = some b) :
    IsGreatest {s | s ≤ w ∧ IsStart unit s} b := by
  cases unit with
  | s =>
    obtain rfl := Option.some.inj h
    rw [replace_s]
    exact isGreatest_multiple _ w
  | m =>
    obtain rfl := Option.some.inj h
    rw [replace_m]
    exact isGreatest_multiple _ w
  | h =>
    obtain rfl := Option.some.inj h
    rw [replace_h]
    exact isGreatest_multiple _ w
  | d =>
    obtain rfl := Option.some.inj h
    rw [replace_d]
    exact isGreatest_multiple _ w
  | mon =>
    obtain rfl := Option.some.inj h
    rw [replace_mon]
    exact isGreatest_midnight (isGreatest_firstOfMonth _)
  | y =>
    obtain rfl := Option.some.inj h
    rw [replace_y]
    exact isGreatest_midnight (isGreatest_firstOfYear _)
  | w =>
    have hday : 0 < day := by decide
    rw [snapWall, if_pos rfl, show snapFields .w = snapFields .d from rfl, replace_d,
      Nat.mul_div_cancel _ hday] at h
    obtain ⟨hb, -⟩ := checked_eq_some_iff.mp h
    have hback : (weekday (w / day) + 1) % 7 ≤ w / day := by
      have hle : (weekday (w / day) + 1) % 7 * day ≤ w / day * day := by
        omega
      exact Nat.le_of_mul_le_mul_right hle hday
    have hsub : b = (w / day - (weekday (w / day) + 1) % 7) * day := by
      rw [Nat.sub_mul]
      omega
    rw [hsub]
    exact isGreatest_midnight (isGreatest_sunday hback)

theorem snapWall_of_isStart (h : IsStart unit w) (hw : w < maxWall) : snapWall unit w = some w := by
  have hself : ∀ b, snapWall unit w = some b → b = w := fun b hb =>
    Nat.le_antisymm (snapWall_spec hb).1.1 ((snapWall_spec hb).2 ⟨Nat.le_refl w, h⟩)
  cases hsnap : snapWall unit w with
  | some b => rw [hself b hsnap]
  | none =>
    cases unit with
    | s | m | h | d | mon | y => cases hsnap
    | w =>
      obtain ⟨hmidnight, hsunday⟩ := h
      have hday : 0 < day := by decide
      rw [snapWall, if_pos rfl, show snapFields .w = snapFields .d from rfl, replace_d,
        Nat.mul_div_cancel _ hday, hsunday,
        Nat.div_mul_cancel (Nat.dvd_of_mod_eq_zero hmidnight)] at hsnap
      rw [checked_eq_some_iff.mpr ⟨by simp, hw⟩] at hsnap
      cases hsnap

/-! ## §2 Instants -/

namespace Zone

variable {zone : Zone} {t r m : ℕ}

/-- `r` is the latest instant not after `t` whose wall clock in the zone is a start of the unit. -/
def LastStart (zone : Zone) (unit : SnapUnit) (t r : ℕ) : Prop :=
  IsGreatest {i | i ≤ t ∧ ∃ w ∈ zone.wallAt i, IsStart unit w} r

theorem LastStart.le (h : zone.LastStart unit t r) {i : ℕ} (hi : i ≤ t)
    (hw : zone.wallAt i = some w) (hstart : IsStart unit w) : i ≤ r :=
  h.2 ⟨hi, w, hw, hstart⟩

def snapAt (zone : Zone) (unit : SnapUnit) (t : ℕ) : Option ℕ :=
  ((zone.fromUtc t).bind (snap unit)).bind fun v => (zone.normalize v).bind Aware.toUtc

theorem wallAt_eq_some_iff : zone.wallAt t = some w ↔ t + zone.offsetAt t = w ∧ w < maxWall :=
  checked_eq_some_iff

theorem toUtc_fromUtc {v : Aware} (h : zone.fromUtc t = some v) (ht : t < maxWall) :
    v.toUtc = some t := by
  obtain ⟨w, hw, rfl⟩ := Option.map_eq_some_iff.mp h
  obtain ⟨hwall, -⟩ := wallAt_eq_some_iff.mp hw
  exact checked_eq_some_iff.mpr ⟨by show (w : ℤ) - zone.offsetAt t = t; omega, ht⟩

theorem snapAt_eq_some_iff (hw : zone.wallAt t = some w) (hb : snapWall unit w = some b) :
    zone.snapAt unit t = some r ↔
      (b : ℤ) - zone.offsetAt t = r ∧ r < maxWall ∧ (zone.wallAt r).isSome := by
  have hsnap : zone.snapAt unit t = (checked (b - zone.offsetAt t)).bind fun i =>
      (zone.fromUtc i).bind Aware.toUtc := by
    simp only [snapAt, fromUtc, hw, Option.map_some, Option.bind_some, snap, hb, normalize,
      Aware.toUtc, Option.bind_assoc]
  rw [hsnap, Option.bind_eq_some_iff]
  constructor
  · rintro ⟨i, hi, hr⟩
    obtain ⟨hoffset, hlt⟩ := checked_eq_some_iff.mp hi
    obtain ⟨v, hv, hutc⟩ := Option.bind_eq_some_iff.mp hr
    obtain rfl := Option.some.inj ((toUtc_fromUtc hv hlt).symm.trans hutc)
    obtain ⟨w', hw', -⟩ := Option.map_eq_some_iff.mp hv
    exact ⟨hoffset, hlt, by rw [hw']; rfl⟩
  · rintro ⟨hoffset, hlt, hwall⟩
    obtain ⟨w', hw'⟩ := Option.isSome_iff_exists.mp hwall
    have hv : zone.fromUtc r = some ⟨w', zone.offsetAt r⟩ := by rw [fromUtc, hw', Option.map_some]
    exact ⟨r, checked_eq_some_iff.mpr ⟨hoffset, hlt⟩, by
      rw [hv, Option.bind_some, toUtc_fromUtc hv hlt]⟩

theorem exists_lastStart {i : ℕ} (hi : i ≤ t) (hw : zone.wallAt i = some w)
    (hstart : IsStart unit w) : ∃ m, zone.LastStart unit t m := by
  classical
  let P : ℕ → Prop := fun i => ∃ w ∈ zone.wallAt i, IsStart unit w
  have hP : P i := ⟨w, hw, hstart⟩
  exact ⟨Nat.findGreatest P t, ⟨Nat.findGreatest_le t, Nat.findGreatest_spec hi hP⟩,
    fun j hj => Nat.le_findGreatest hj.1 hj.2⟩

/-- The condition: since the wall clock has last shown a start of the unit, the offset has changed
by as much as the start before the present wall clock differs from that one. Where the last start is
the one before the present wall clock, the offset is the same as it was there. -/
def OffsetKept (zone : Zone) (unit : SnapUnit) (t b : ℕ) : Prop :=
  ∀ m w, zone.LastStart unit t m → zone.wallAt m = some w →
    zone.offsetAt t - zone.offsetAt m = (b : ℤ) - w

theorem snapAt_lastStart_iff (ht : t < maxWall) (hw : zone.wallAt t = some w)
    (hb : snapWall unit w = some b) (hexists : ∃ i ≤ t, zone.wallAt i = some b) :
    (∃ r, zone.snapAt unit t = some r ∧ zone.LastStart unit t r ∧ zone.snapAt unit r = some r) ↔
      zone.OffsetKept unit t b := by
  have hstart : IsStart unit b := (snapWall_spec hb).1.2
  constructor
  · rintro ⟨r, hr, hlast, -⟩ m w' hm hw'
    obtain ⟨hoffset, -, -⟩ := (snapAt_eq_some_iff hw hb).mp hr
    obtain rfl := hm.unique hlast
    obtain ⟨hwall, -⟩ := wallAt_eq_some_iff.mp hw'
    omega
  · intro hkept
    obtain ⟨i, hi, hwi⟩ := hexists
    obtain ⟨m, hm⟩ := exists_lastStart hi hwi hstart
    obtain ⟨hle, w', hw', hstart'⟩ := hm.1
    obtain ⟨hwall, hlt⟩ := wallAt_eq_some_iff.mp hw'
    have hmax : m < maxWall := hle.trans_lt ht
    have hsome : (zone.wallAt m).isSome := by rw [show zone.wallAt m = some w' from hw']; rfl
    have hoffset := hkept m w' hm hw'
    refine ⟨m, ?_, hm, ?_⟩
    · exact (snapAt_eq_some_iff hw hb).mpr ⟨by omega, hmax, hsome⟩
    · exact (snapAt_eq_some_iff hw' (snapWall_of_isStart hstart' hlt)).mpr
        ⟨by omega, hmax, hsome⟩

theorem offsetKept_of_constant (hw : zone.wallAt t = some w) (hb : snapWall unit w = some b)
    (hr : (b : ℤ) - zone.offsetAt t = r)
    (hconstant : ∀ i, r ≤ i → i ≤ t → zone.offsetAt i = zone.offsetAt t) :
    zone.OffsetKept unit t b := by
  intro m w' hm hw'
  obtain ⟨⟨hle, hstart⟩, hgreatest⟩ := snapWall_spec hb
  obtain ⟨hwall, hlt⟩ := wallAt_eq_some_iff.mp hw
  obtain ⟨hwall', -⟩ := wallAt_eq_some_iff.mp hw'
  have hrt : r ≤ t := by omega
  have hwr : zone.wallAt r = some b :=
    wallAt_eq_some_iff.mpr ⟨by rw [hconstant r (Nat.le_refl r) hrt]; omega, hle.trans_lt hlt⟩
  have hrm : r ≤ m := hm.2 ⟨hrt, b, hwr, hstart⟩
  have hsame := hconstant m hrm hm.1.1
  -- the wall clock goes on evenly, so the last start is the one before `w`
  obtain ⟨hmt, w'', hw'', hstart'⟩ := hm.1
  obtain rfl := Option.some.inj (hw'.symm.trans hw'')
  have hbw : w' ≤ b := hgreatest ⟨by omega, hstart'⟩
  omega

end Zone

/-! ## §3 Tokens -/

def offsetInstant (now : Aware) (token : RelativeToken) : ℤ :=
  let delta : ℤ := match token.offset with
    | none => 0
    | some (forward, magnitude) =>
      let length : ℤ := (Correlation.timespecSeconds magnitude).getD 0 * second
      if forward then length else -length
  now.wall - now.offset + delta

variable {token : RelativeToken} {zone : Zone}

theorem offsetMoment_eq_ok {now v : Aware} (h : zone.offsetMoment now token = .ok v) :
    ∃ t : ℕ, (t : ℤ) = offsetInstant now token ∧ t < maxWall ∧ zone.fromUtc t = some v := by
  have hnormal : ∀ {x y : Aware}, zone.normalize x = some y →
      ∃ t : ℕ, (t : ℤ) = x.wall - x.offset ∧ t < maxWall ∧ zone.fromUtc t = some y := by
    intro x y hxy
    obtain ⟨t, ht, hy⟩ := Option.bind_eq_some_iff.mp hxy
    obtain ⟨hinstant, hlt⟩ := checked_eq_some_iff.mp ht
    exact ⟨t, hinstant.symm, hlt, hy⟩
  cases hnow : zone.normalize now with
  | none => simp only [Zone.offsetMoment, hnow, orOverflow, bind, Except.bind, reduceCtorEq] at h
  | some result =>
    obtain ⟨t, ht, hlt, hresult⟩ := hnormal hnow
    cases hoffset : token.offset with
    | none =>
      simp only [Zone.offsetMoment, hnow, hoffset, orOverflow, bind, Except.bind, pure, Except.pure,
        Except.ok.injEq] at h
      exact ⟨t, by rw [offsetInstant, hoffset, ht]; simp, hlt, h ▸ hresult⟩
    | some offset =>
      obtain ⟨forward, magnitude⟩ := offset
      cases hseconds : Correlation.timespecSeconds magnitude with
      | none =>
        simp only [Zone.offsetMoment, hnow, hoffset, hseconds, orOverflow, bind, Except.bind,
          reduceCtorEq] at h
      | some seconds =>
        simp only [Zone.offsetMoment, hnow, hoffset, hseconds, orOverflow, bind, Except.bind] at h
        cases hshift : zone.shift result forward seconds with
        | none => simp only [hshift, reduceCtorEq] at h
        | some shifted =>
          simp only [hshift, Except.ok.injEq] at h
          subst h
          obtain ⟨w, hw, hnormalize⟩ := Option.bind_eq_some_iff.mp hshift
          obtain ⟨hwall, -⟩ := checked_eq_some_iff.mp hw
          obtain ⟨t', ht', hlt', hv⟩ := hnormal hnormalize
          obtain ⟨w', hw', rfl⟩ := Option.map_eq_some_iff.mp hresult
          obtain ⟨hlocal, -⟩ := Zone.wallAt_eq_some_iff.mp hw'
          refine ⟨t', ?_, hlt', hv⟩
          -- the shift keeps the offset that it started with
          simp only at ht' hwall
          simp only [offsetInstant, hoffset, hseconds, Option.getD_some]
          cases forward <;> simp at hwall ⊢ <;> omega

theorem parseRelativeTime_eq {now v : Aware} {value : String} {unit : SnapUnit} {t : ℕ}
    (htoken : relativeToken value = some token) (hunit : token.snap = some unit)
    (hmoment : zone.offsetMoment now token = .ok v) (hv : zone.fromUtc t = some v) :
    parseRelativeTime zone now value = orOverflow (zone.snapAt unit t) := by
  rw [Zone.snapAt, hv, Option.bind_some, parseRelativeTime, htoken]
  simp only [hmoment, hunit, bind, Except.bind]
  cases snap unit v with
  | none => rfl
  | some s =>
    rw [Option.bind_some, Option.bind_some]
    cases zone.normalize s <;> rfl

theorem relativeToken_snap (unit : SnapUnit) :
    relativeToken ("@" ++ unit.text) = some ⟨none, some unit⟩ := by
  cases unit <;> decide

theorem orOverflow_eq_ok_iff {α : Type} {x : Option α} {y : α} :
    orOverflow x = .ok y ↔ x = some y := by
  cases x <;> simp [orOverflow]

theorem parseRelativeTime_eq_error {now : Aware} {value : String} {e : TimeError}
    (htoken : relativeToken value = some token) (hmoment : zone.offsetMoment now token = .error e) :
    parseRelativeTime zone now value = .error e := by
  rw [parseRelativeTime, htoken]
  simp only [hmoment, bind, Except.bind]

theorem offsetMoment_of_none {now : Aware} (h : token.offset = none) :
    zone.offsetMoment now token = orOverflow (zone.normalize now) := by
  simp only [Zone.offsetMoment, h]
  cases zone.normalize now <;> rfl

theorem parseRelativeTime_snap {r : ℕ} (unit : SnapUnit) (hr : r < maxWall) :
    parseRelativeTime zone ⟨r, 0⟩ ("@" ++ unit.text) = orOverflow (zone.snapAt unit r) := by
  have hutc : (⟨r, 0⟩ : Aware).toUtc = some r :=
    checked_eq_some_iff.mpr ⟨Int.sub_zero _, hr⟩
  have hnormal : zone.normalize ⟨r, 0⟩ = zone.fromUtc r := by
    rw [Zone.normalize, hutc, Option.bind_some]
  cases hv : zone.fromUtc r with
  | none =>
    have hmoment : zone.offsetMoment ⟨r, 0⟩ ⟨none, some unit⟩ = .error .overflowError := by
      rw [offsetMoment_of_none rfl, hnormal, hv, orOverflow]
    rw [parseRelativeTime_eq_error (relativeToken_snap unit) hmoment, Zone.snapAt, hv]
    rfl
  | some v =>
    refine parseRelativeTime_eq (relativeToken_snap unit) rfl ?_ hv
    rw [offsetMoment_of_none rfl, hnormal, hv, orOverflow]

/-- A zone whose clocks are set forward at two o'clock of the eighth of March 2026. -/
def eastern : Zone := ⟨-5 * hour, [((ordinal 2026 3 8 * 24 + 7) * hour, -4 * hour)]⟩

end Ace3.Util
