import Mathlib.Data.List.Basic

/-!
# A Share by a Running Counter

Of a sequence of occasions a share is picked by a counter: each adds `share`, and where the counter
reaches `whole` the occasion is picked and `whole` is taken off. After `n` occasions
`n * share / whole` of them have been picked, and the counter holds the remainder.
-/

namespace Ace3.Lib.RunningShare

open List

variable {whole share : Nat}

theorem succ_mul_div (hwhole : 0 < whole) (hshare : share ≤ whole) (n : Nat) :
    (n + 1) * share / whole =
      n * share / whole + if whole ≤ n * share % whole + share then 1 else 0 := by
  have hdecomposed : (n + 1) * share = whole * (n * share / whole) + (n * share % whole + share) := by
    rw [Nat.add_one_mul, ← Nat.add_assoc, Nat.div_add_mod]
  have hremainder : n * share % whole < whole := Nat.mod_lt _ hwhole
  rw [hdecomposed, Nat.mul_add_div hwhole]
  congr 1
  split
  next hreached =>
    apply Nat.div_eq_of_lt_le
    · omega
    · omega
  next hreached => exact Nat.div_eq_of_lt (by omega)

theorem succ_mul_mod (hwhole : 0 < whole) (hshare : share ≤ whole) (n : Nat) :
    (n + 1) * share % whole =
      if whole ≤ n * share % whole + share then n * share % whole + share - whole
      else n * share % whole + share := by
  have hsum : (n + 1) * share % whole = (n * share % whole + share) % whole := by
    rw [Nat.add_one_mul, Nat.mod_add_mod]
  have hremainder : n * share % whole < whole := Nat.mod_lt _ hwhole
  rw [hsum]
  split
  next hreached => rw [Nat.mod_eq_sub_mod hreached, Nat.mod_eq_of_lt (by omega)]
  next hreached => exact Nat.mod_eq_of_lt (by omega)

/-- The picks among the first `n` occasions are its share, for each `n`. -/
def IsShare (whole share : Nat) (picked : List Bool) : Prop :=
  ∀ n ≤ picked.length, (picked.take n).count true = n * share / whole

theorem isShare_nil : IsShare whole share [] := by
  intro n hn
  obtain rfl := Nat.le_zero.mp hn
  simp

theorem IsShare.append (hwhole : 0 < whole) (hshare : share ≤ whole) {picked : List Bool}
    (h : IsShare whole share picked) {pick : Bool}
    (hpick : pick = true ↔ whole ≤ picked.length * share % whole + share) :
    IsShare whole share (picked ++ [pick]) := by
  intro n hn
  rw [length_append, length_singleton] at hn
  rcases Nat.lt_or_eq_of_le hn with hlt | rfl
  · rw [take_append_of_le_length (Nat.lt_succ_iff.mp hlt)]
    exact h n (Nat.lt_succ_iff.mp hlt)
  · have hall := h picked.length (Nat.le_refl _)
    rw [take_length] at hall
    rw [take_of_length_le (by simp), count_append, hall, succ_mul_div hwhole hshare]
    congr 1
    cases pick with
    | true => rw [if_pos (hpick.mp rfl)]; rfl
    | false => rw [if_neg fun hreached => nomatch hpick.mpr hreached]; rfl

theorem IsShare.all (hwhole : 0 < whole) {picked : List Bool} (h : IsShare whole whole picked) :
    ∀ pick ∈ picked, pick = true := by
  have hall := h picked.length (Nat.le_refl _)
  rw [take_length, Nat.mul_div_cancel _ hwhole] at hall
  exact fun pick hpick => (count_eq_length.mp hall pick hpick).symm

end Ace3.Lib.RunningShare
