import Mathlib.Data.List.Basic

/-!
# Slices of a List

A list cut into slices of at most a given size, as programs do to bound what one request carries.
A loop over the slices does what one request for the whole list would do, if a request for two
lists one after the other does what two requests do.
-/

namespace Ace3.Lib

open List

variable {α σ : Type*}

def slices (size : Nat) : (fuel : Nat) → List α → List (List α)
  | 0, _ => []
  | _, [] => []
  | fuel + 1, items => items.take size :: slices size fuel (items.drop size)

theorem flatten_slices {size : Nat} (hsize : 0 < size) (fuel : Nat) (items : List α)
    (hfuel : items.length ≤ fuel) : (slices size fuel items).flatten = items := by
  induction fuel generalizing items with
  | zero =>
    have hnil : items = [] := length_eq_zero_iff.mp (Nat.le_zero.mp hfuel)
    simp [hnil, slices]
  | succ fuel ih =>
    cases items with
    | nil => simp [slices]
    | cons item items =>
      have hrest : ((item :: items).drop size).length ≤ fuel := by
        simp only [length_drop, length_cons] at hfuel ⊢
        omega
      rw [slices, flatten_cons, ih _ hrest]
      · exact take_append_drop size (item :: items)
      · simp

theorem foldl_flatten {request : σ → List α → σ} (hnil : ∀ s, request s [] = s)
    (happend : ∀ s first second, request s (first ++ second) = request (request s first) second)
    (lists : List (List α)) (s : σ) : lists.foldl request s = request s lists.flatten := by
  induction lists generalizing s with
  | nil => exact (hnil s).symm
  | cons list lists ih => rw [foldl_cons, ih, flatten_cons, happend]

end Ace3.Lib
