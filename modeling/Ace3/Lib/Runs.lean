import Mathlib.Logic.Relation

/-!
# Runs of a Step Function

`step : σ → ι → σ` takes the state to the next one under an input. A run is the list of its
inputs. `Along` says that a property holds of every state and input met by a run, in this order;
the rules below are the inductions over runs.
-/

namespace Ace3.Lib.Runs

variable {σ ι : Type*} {step : σ → ι → σ}

/-- The property holds at each step of the run `inputs` from state `s`. -/
def Along (step : σ → ι → σ) (P : σ → ι → Prop) : σ → List ι → Prop
  | _, [] => True
  | s, input :: inputs => P s input ∧ Along step P (step s input) inputs

@[simp] theorem along_nil (P : σ → ι → Prop) (s : σ) : Along step P s [] := trivial

@[simp] theorem along_cons (P : σ → ι → Prop) (s : σ) (input : ι) (inputs : List ι) :
    Along step P s (input :: inputs) ↔ P s input ∧ Along step P (step s input) inputs := Iff.rfl

/-- A decidable property is decided along a run by executing the run. -/
instance decidableAlong (P : σ → ι → Prop) [∀ s input, Decidable (P s input)] (s : σ)
    (inputs : List ι) : Decidable (Along step P s inputs) :=
  match inputs with
  | [] => isTrue trivial
  | input :: inputs =>
    have := decidableAlong P (step s input) inputs
    inferInstanceAs (Decidable (P s input ∧ Along step P (step s input) inputs))

theorem along_append (P : σ → ι → Prop) (s : σ) (first second : List ι) :
    Along step P s (first ++ second) ↔
      Along step P s first ∧ Along step P (first.foldl step s) second := by
  induction first generalizing s with
  | nil => simp
  | cons input first ih => simp [ih, and_assoc]

variable {inputs : List ι} {s : σ}

theorem Along.invariant {P : σ → ι → Prop} (Inv : σ → Prop)
    (hstep : ∀ s input, Inv s → P s input → Inv (step s input)) (hs : Inv s)
    (h : Along step P s inputs) : Inv (inputs.foldl step s) := by
  induction inputs generalizing s with
  | nil => exact hs
  | cons input inputs ih => exact ih (hstep s input hs h.1) h.2

variable {P Q : σ → ι → Prop}

theorem Along.of_invariant (Inv : σ → Prop)
    (hstep : ∀ s input, Inv s → P s input → Inv (step s input))
    (hPQ : ∀ s input, Inv s → P s input → Q s input) (hs : Inv s) (h : Along step P s inputs) :
    Along step Q s inputs := by
  induction inputs generalizing s with
  | nil => trivial
  | cons input inputs ih => exact ⟨hPQ s input hs h.1, ih (hstep s input hs h.1) h.2⟩

theorem along_of_invariant {Q : σ → ι → Prop} (Inv : σ → Prop)
    (hstep : ∀ s input, Inv s → Inv (step s input)) (hQ : ∀ s input, Inv s → Q s input) (hs : Inv s)
    (inputs : List ι) : Along step Q s inputs := by
  induction inputs generalizing s with
  | nil => trivial
  | cons input inputs ih => exact ⟨hQ s input hs, ih (hstep s input hs)⟩

theorem along_iff_of_invariant (Inv : σ → Prop)
    (hstep : ∀ s input, Inv s → P s input → Inv (step s input))
    (hPQ : ∀ s input, Inv s → (P s input ↔ Q s input)) (hs : Inv s) (inputs : List ι) :
    Along step P s inputs ↔ Along step Q s inputs := by
  induction inputs generalizing s with
  | nil => simp
  | cons input inputs ih =>
    constructor
    · rintro ⟨hP, hrest⟩
      exact ⟨(hPQ s input hs).mp hP, (ih (hstep s input hs hP)).mp hrest⟩
    · rintro ⟨hQ, hrest⟩
      have hP := (hPQ s input hs).mpr hQ
      exact ⟨hP, (ih (hstep s input hs hP)).mpr hrest⟩

theorem along_and :
    Along step (fun s input => P s input ∧ Q s input) s inputs ↔
      Along step P s inputs ∧ Along step Q s inputs := by
  induction inputs generalizing s with
  | nil => simp
  | cons input inputs ih => simp only [along_cons, ih, and_and_and_comm]

theorem along_iff_of_assuming {P Q R : σ → ι → Prop} (Inv : σ → Prop)
    (hstep : ∀ s input, Inv s → R s input → P s input → Inv (step s input))
    (hPQ : ∀ s input, Inv s → R s input → (P s input ↔ Q s input)) (hs : Inv s)
    (hR : Along step R s inputs) :
    Along step P s inputs ↔ Along step Q s inputs := by
  have h := along_iff_of_invariant (P := fun s input => R s input ∧ P s input)
    (Q := fun s input => R s input ∧ Q s input) Inv
    (fun s input hinv hRP => hstep s input hinv hRP.1 hRP.2)
    (fun s input hinv => and_congr_right fun hR => hPQ s input hinv hR) hs inputs
  simpa only [along_and, hR, true_and] using h

theorem Along.at {P : σ → ι → Prop} (before : List ι) {input : ι} {after : List ι}
    (h : Along step P s (before ++ input :: after)) : P (before.foldl step s) input :=
  ((along_append P s before (input :: after)).mp h).2.1

end Ace3.Lib.Runs

/-!
## Loops without a condition

A loop `while True` whose body leaves it or goes on with another state. The body is told the number
of the turn, for what the surroundings do in it.
-/

namespace Ace3.Lib.EndlessLoop

inductive Turn (σ ω : Type*) where
  | leave (outcome : ω)
  | again (state : σ)
  deriving DecidableEq

variable {σ ω : Type*} {body : Nat → σ → Turn σ ω} {s : σ}

/-- The state before the turn with this number, unless the loop is left before. -/
def turn (body : Nat → σ → Turn σ ω) (s : σ) : Nat → Option σ
  | 0 => some s
  | n + 1 => (turn body s n).bind fun t =>
    match body n t with
    | .leave _ => none
    | .again t' => some t'

/-- The loop is left in the turn with this number, with this outcome. -/
def LeavesAt (body : Nat → σ → Turn σ ω) (s : σ) (n : Nat) (outcome : ω) : Prop :=
  ∃ t, turn body s n = some t ∧ body n t = .leave outcome

theorem turn_succ_eq_some {n : Nat} {t : σ} :
    turn body s (n + 1) = some t ↔ ∃ u, turn body s n = some u ∧ body n u = .again t := by
  rw [turn, Option.bind_eq_some_iff]
  apply exists_congr
  intro u
  apply and_congr_right
  intro _
  cases hbody : body n u <;> simp

theorem turn_invariant (Inv : Nat → σ → Prop) (hinit : Inv 0 s)
    (hstep : ∀ n t u, Inv n t → body n t = .again u → Inv (n + 1) u) {n : Nat} {t : σ}
    (ht : turn body s n = some t) : Inv n t := by
  induction n generalizing t with
  | zero => exact Option.some.inj ht ▸ hinit
  | succ n ih =>
    obtain ⟨u, hu, hagain⟩ := turn_succ_eq_some.mp ht
    exact hstep n u t (ih hu) hagain

theorem exists_leavesAt {n : Nat} (hn : turn body s n = none) :
    ∃ m < n, ∃ outcome, LeavesAt body s m outcome := by
  induction n with
  | zero => cases hn
  | succ n ih =>
    cases ht : turn body s n with
    | none =>
      obtain ⟨m, hm, hleaves⟩ := ih ht
      exact ⟨m, Nat.lt_succ_of_lt hm, hleaves⟩
    | some t =>
      cases hbody : body n t with
      | leave outcome => exact ⟨n, Nat.lt_succ_self n, outcome, t, ht, hbody⟩
      | again u =>
        rw [turn_succ_eq_some.mpr ⟨t, ht, hbody⟩] at hn
        cases hn

theorem not_leavesAt_of_forall_again (h : ∀ n t, ∃ u, body n t = .again u) (n : Nat) (outcome : ω) :
    ¬ LeavesAt body s n outcome := by
  rintro ⟨t, -, hleave⟩
  obtain ⟨u, hagain⟩ := h n t
  rw [hagain] at hleave
  cases hleave

end Ace3.Lib.EndlessLoop
