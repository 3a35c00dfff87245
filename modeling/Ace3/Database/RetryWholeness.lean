import Ace3.Database.Retry
import Mathlib.Tactic.SplitIfs

/-!
# What a Sequence of Retried Calls Commits

A retry rolls back everything since the last commit, the statements of earlier calls included,
but executes again only those of its own call. An error that a function meets when no attempt is
left is swallowed: the function is called again on top of what it has executed already.
-/

namespace Ace3.Database

open List

variable {σ : Type} {run : Execution → σ → σ}

/-! ## §1 The errors of a call -/

namespace Operation

/-- An error of the call undoes the transaction, in the server or by the rollback of a retry. -/
def rollsBack (op : Operation) (attempts : Nat) : (attempt count : Nat) → List Failure → Bool
  | _, _, [] => false
  | attempt, count, failure :: failures =>
    if failure.hits op false attempt then
      match verdict op attempts count failure with
      | .retry => true
      | .raise => false
      | .goOn =>
        failure.error = .deadlock ∨ op.rollsBack attempts (attempt + 1) count failures
    else false

/-- What failed attempts leave in the transaction, on top of what earlier ones have left. -/
def left (op : Operation) (attempts : Nat) :
    (attempt count : Nat) → List Failure → List Statement → List Statement
  | _, _, [], before => before
  | attempt, count, failure :: failures, before =>
    if failure.hits op false attempt then
      match verdict op attempts count failure with
      | .retry => op.left attempts (attempt + 1) (count + 1) failures []
      | .raise => before
      | .goOn =>
        op.left attempts (attempt + 1) count failures <|
          if failure.error = .deadlock then []
          else before ++ (op.statements attempt).take failure.after
    else before

def lastAttempt (op : Operation) : (attempt : Nat) → List Failure → Nat
  | attempt, [] => attempt
  | attempt, failure :: failures =>
    if failure.hits op false attempt then op.lastAttempt (attempt + 1) failures else attempt

end Operation

namespace Call

/-- What a property of operations says of a call; a call with wrong arguments has no errors. -/
def onOperation {α : Type} (call : Call) (default : α) (f : Operation → α) : α :=
  match Operation.ofArguments call.sqlOrFunc call.params with
  | none => default
  | some op => f op

def rollsBack (call : Call) : Bool :=
  call.onOperation false fun op => op.rollsBack call.attempts 0 1 call.failures

/-- What the failed attempts of the call leave in the transaction. -/
def left (call : Call) : List Statement :=
  call.onOperation [] fun op => op.left call.attempts 0 1 call.failures []

def statements (call : Call) : List Statement :=
  call.onOperation [] fun op => op.statements (op.lastAttempt 0 call.failures)

end Call

/-! ## §2 What a call does to the connection -/

namespace Connection

variable {connection : Connection σ}

theorem execute_nil (call : Nat) : connection.execute run (Execution.ofCall call []) = connection := rfl

theorem execute_execute (first second : List Execution) :
    (connection.execute run first).execute run second =
      connection.execute run (first ++ second) := by
  simp [execute]

theorem execute_ofCall (call : Nat) (first second : List Statement) :
    (connection.execute run (Execution.ofCall call first)).execute run (Execution.ofCall call second) =
      connection.execute run (Execution.ofCall call (first ++ second)) := by
  rw [execute_execute, Execution.ofCall, Execution.ofCall, ← map_append, Execution.ofCall]

@[simp] theorem rollback_execute (executions : List Execution) :
    (connection.execute run executions).rollback = connection.rollback := rfl

@[simp] theorem rollback_rollback : connection.rollback.rollback = connection.rollback := rfl

end Connection

/-- A call that returns rolls back what its errors roll back, and then adds what its failed
attempts leave and the statements of its last attempt. -/
theorem retryLoop_returned (op : Operation) (attempts call : Nat) (failures : List Failure)
    (attempt count : Nat) (connection : Connection σ) (before : List Statement)
    (hreturned : (retryLoop run op attempts false call attempt count failures
      (connection.execute run (Execution.ofCall call before))).2 = .returned) :
    (retryLoop run op attempts false call attempt count failures
        (connection.execute run (Execution.ofCall call before))).1 =
      (if op.rollsBack attempts attempt count failures then connection.rollback
        else connection).execute run
        (Execution.ofCall call (op.left attempts attempt count failures before ++
          op.statements (op.lastAttempt attempt failures))) := by
  induction failures generalizing attempt count connection before with
  | nil =>
    simp [retryLoop, retryLoop.goesThrough, Operation.rollsBack, Operation.left,
      Operation.lastAttempt, Connection.execute_ofCall]
  | cons failure failures ih =>
    simp only [retryLoop, Operation.rollsBack, Operation.left, Operation.lastAttempt]
      at hreturned ⊢
    by_cases hhits : failure.hits op false attempt
    · simp only [hhits, if_true, Connection.execute_ofCall] at hreturned ⊢
      cases hverdict : verdict op attempts count failure with
      | raise => simp [hverdict] at hreturned
      | retry =>
        simp only [hverdict] at hreturned ⊢
        -- the attempt starts again from what is committed
        have hrollback (e : DbError) (executions : List Execution) :
            (e.onServer (connection.execute run executions)).rollback =
              connection.rollback.execute run (Execution.ofCall call []) := by
          unfold DbError.onServer
          split_ifs <;> simp [Connection.execute_nil]
        rw [hrollback] at hreturned ⊢
        simpa using ih _ _ _ _ hreturned
      | goOn =>
        simp only [hverdict] at hreturned ⊢
        by_cases hdeadlock : failure.error = .deadlock
        · have hserver (executions : List Execution) :
              failure.error.onServer (connection.execute run executions) =
                connection.rollback.execute run (Execution.ofCall call []) := by
            simp [DbError.onServer, hdeadlock, Connection.execute_nil]
          rw [hserver] at hreturned ⊢
          simpa [hdeadlock] using ih _ _ _ _ hreturned
        · have hserver (executions : List Execution) :
              failure.error.onServer (connection.execute run executions) =
                connection.execute run executions := by
            simp [DbError.onServer, hdeadlock]
          rw [hserver] at hreturned ⊢
          simpa [hdeadlock] using ih _ _ _ _ hreturned
    · simp [hhits, retryLoop.goesThrough, Connection.execute_ofCall]

theorem executeWithRetry_returned (run : Execution → σ → σ) (call : Call) (number : Nat)
    (connection : Connection σ)
    (hreturned : (executeWithRetry run call false number connection).2 = .returned) :
    (executeWithRetry run call false number connection).1 =
      (if call.rollsBack then connection.rollback else connection).execute run
        (Execution.ofCall number (call.left ++ call.statements)) := by
  unfold executeWithRetry Call.rollsBack Call.left Call.statements Call.onOperation at *
  cases hop : Operation.ofArguments call.sqlOrFunc call.params with
  | none => simp [hop] at hreturned
  | some op =>
    simp only [hop] at hreturned ⊢
    exact retryLoop_returned op call.attempts number call.failures 0 1 connection []
      (by simpa only [Connection.execute_nil] using hreturned)

/-! ## §3 What a sequence commits -/

/-- What is in the transaction after the calls from this number on. -/
def surviving : (number : Nat) → List Call → List Execution → List Execution
  | _, [], before => before
  | number, call :: calls, before =>
    surviving (number + 1) calls
      ((if call.rollsBack then [] else before) ++ Execution.ofCall number (call.left ++ call.statements))

def wholeSequence : (number : Nat) → List Call → List Execution
  | _, [] => []
  | number, call :: calls => Execution.ofCall number call.statements ++ wholeSequence (number + 1) calls

def effect (run : Execution → σ → σ) (executions : List Execution) (s : σ) : σ :=
  executions.foldl (fun s e => run e s) s

/-- A sequence without an exception commits the statements that are left in the transaction. -/
theorem executeSequence_returned (calls : List Call) (number : Nat) (s : σ)
    (before : List Execution)
    (hreturned : (executeSequence run number calls
      (Connection.execute run ⟨s, s⟩ before)).2 = .returned) :
    (executeSequence run number calls (Connection.execute run ⟨s, s⟩ before)).1.committed =
      effect run (surviving number calls before) s := by
  induction calls generalizing number before with
  | nil => rfl
  | cons call calls ih =>
    unfold executeSequence at hreturned ⊢
    have hcall := executeWithRetry_returned run call number
      (Connection.execute run ⟨s, s⟩ before)
    cases houtcome : executeWithRetry run call false number
        (Connection.execute run ⟨s, s⟩ before) with
    | mk connection outcome =>
      cases outcome with
      | raised => simp [houtcome] at hreturned
      | returned =>
        simp only [houtcome, forall_const] at hreturned hcall ⊢
        have hconnection : connection = Connection.execute run ⟨s, s⟩
            ((if call.rollsBack then [] else before) ++
              Execution.ofCall number (call.left ++ call.statements)) := by
          rw [hcall, ← Connection.execute_execute]
          by_cases hrolls : call.rollsBack <;> simp only [hrolls, if_true] <;> rfl
        rw [hconnection] at hreturned ⊢
        exact ih _ _ hreturned

theorem surviving_eq (calls : List Call) (number : Nat) (before : List Execution) :
    surviving number calls before =
      (if calls.any (·.rollsBack) then [] else before) ++ surviving number calls [] := by
  induction calls generalizing number before with
  | nil => simp [surviving]
  | cons call calls ih =>
    simp only [surviving, ite_self, nil_append, any_cons]
    rw [ih (number + 1) (_ ++ _),
      ih (number + 1) (Execution.ofCall number (call.left ++ call.statements))]
    by_cases hlater : calls.any (·.rollsBack)
    · simp [hlater]
    · simp [hlater]

/-! ### Whose executions they are -/

theorem ofCall_call (number : Nat) (statements : List Statement) :
    ∀ e ∈ Execution.ofCall number statements, e.call = number := by
  intro e he
  obtain ⟨statement, -, rfl⟩ := mem_map.mp he
  rfl

theorem ofCall_eq_nil_iff {number : Nat} {statements : List Statement} :
    Execution.ofCall number statements = [] ↔ statements = [] :=
  map_eq_nil_iff

theorem surviving_call (calls : List Call) (number : Nat) :
    ∀ e ∈ surviving number calls [], number ≤ e.call := by
  induction calls generalizing number with
  | nil => exact nofun
  | cons call calls ih =>
    intro e he
    simp only [surviving, ite_self, nil_append] at he
    rw [surviving_eq] at he
    rcases mem_append.mp he with he | he
    · split_ifs at he
      · exact nomatch he
      · exact Nat.le_of_eq (ofCall_call number _ e he).symm
    · exact Nat.le_of_succ_le (ih (number + 1) e he)

theorem wholeSequence_call (calls : List Call) (number : Nat) :
    ∀ e ∈ wholeSequence number calls, number ≤ e.call := by
  induction calls generalizing number with
  | nil => exact nofun
  | cons call calls ih =>
    intro e he
    rcases mem_append.mp he with he | he
    · exact Nat.le_of_eq (ofCall_call number _ e he).symm
    · exact Nat.le_of_succ_le (ih (number + 1) e he)

theorem append_inj_of_call {number : Nat} {xs ys later later' : List Execution}
    (hxs : ∀ e ∈ xs, e.call = number) (hys : ∀ e ∈ ys, e.call = number)
    (hlater : ∀ e ∈ later, number + 1 ≤ e.call) (hlater' : ∀ e ∈ later', number + 1 ≤ e.call) :
    xs ++ later = ys ++ later' ↔ xs = ys ∧ later = later' := by
  constructor
  · intro h
    have hfilter (xs later : List Execution) (hxs : ∀ e ∈ xs, e.call = number)
        (hlater : ∀ e ∈ later, number + 1 ≤ e.call) :
        (xs ++ later).filter (·.call = number) = xs := by
      rw [filter_append, filter_eq_self.mpr (by simpa using hxs),
        filter_eq_nil_iff.mpr, append_nil]
      intro e he
      have := hlater e he
      simp only [decide_eq_true_eq]
      omega
    have hheads : xs = ys := by
      rw [← hfilter xs later hxs hlater, h, hfilter ys later' hys hlater']
    exact ⟨hheads, append_cancel_left (hheads ▸ h)⟩
  · rintro ⟨rfl, rfl⟩
    rfl

/-! ### The condition -/

/-- No call rolls the transaction back after an earlier call has executed a statement in it, and
what the failed attempts of a call leave in it is undone by a later call. -/
def Undisturbed : List Call → Prop
  | [] => True
  | call :: calls =>
    (call.statements ≠ [] → ∀ later ∈ calls, later.rollsBack = false) ∧
      (call.left ≠ [] → ∃ later ∈ calls, later.rollsBack) ∧ Undisturbed calls

instance decidableUndisturbed : (calls : List Call) → Decidable (Undisturbed calls)
  | [] => isTrue trivial
  | _ :: calls =>
    have := decidableUndisturbed calls
    inferInstanceAs (Decidable (_ ∧ _ ∧ Undisturbed calls))

/-- The statements of the sequence are what is left in the transaction exactly when the errors
do not disturb it. -/
theorem surviving_eq_wholeSequence_iff (calls : List Call) (number : Nat) :
    surviving number calls [] = wholeSequence number calls ↔ Undisturbed calls := by
  induction calls generalizing number with
  | nil => simp [surviving, wholeSequence, Undisturbed]
  | cons call calls ih =>
    simp only [surviving, ite_self, nil_append, wholeSequence, Undisturbed]
    rw [surviving_eq]
    have hmine : ∀ e ∈ (if calls.any (·.rollsBack) then [] else
        Execution.ofCall number (call.left ++ call.statements)), e.call = number := by
      split_ifs
      · exact nofun
      · exact ofCall_call number _
    rw [append_inj_of_call hmine (ofCall_call number _) (surviving_call calls (number + 1))
      (wholeSequence_call calls (number + 1)), ih]
    rw [← and_assoc]
    refine and_congr_left fun _ => ?_
    by_cases hlater : calls.any (·.rollsBack)
    · -- a later call undoes whatever this one executes
      have hexists : ∃ later ∈ calls, later.rollsBack := by simpa using hlater
      have hforall : ¬ ∀ later ∈ calls, later.rollsBack = false := by
        intro h
        obtain ⟨later, hmem, hrolls⟩ := hexists
        simp [h later hmem] at hrolls
      rw [if_pos hlater, eq_comm, ofCall_eq_nil_iff]
      simp only [hexists, hforall, implies_true, and_true, ne_eq, imp_false, not_not]
    · -- nothing undoes what the failed attempts leave
      have hforall : ∀ later ∈ calls, later.rollsBack = false := by simpa using hlater
      have hexists : ¬ ∃ later ∈ calls, later.rollsBack := by simpa using hlater
      rw [if_neg hlater, Execution.ofCall, map_append, Execution.ofCall,
        append_left_eq_self, map_eq_nil_iff]
      simp only [eq_true hforall, hexists, implies_true, true_and, ne_eq, imp_false, not_not]

theorem effect_eq_iff {executions executions' : List Execution} :
    (∀ (σ : Type) (run : Execution → σ → σ) (s : σ),
      effect run executions s = effect run executions' s) ↔ executions = executions' := by
  constructor
  · intro h
    have hlog (executions before : List Execution) :
        effect (fun e log => log ++ [e]) executions before = before ++ executions := by
      induction executions generalizing before with
      | nil => simp [effect]
      | cons e executions ih =>
        have := ih (before ++ [e])
        simpa [effect] using this
    simpa [hlog] using h (List Execution) (fun e log => log ++ [e]) []
  · rintro rfl _ _ _
    rfl

theorem executeSequence_outcome {σ' : Type} {run' : Execution → σ' → σ'} (calls : List Call)
    (number : Nat) (connection : Connection σ) (connection' : Connection σ') :
    (executeSequence run number calls connection).2 =
      (executeSequence run' number calls connection').2 := by
  have hloop (op : Operation) (attempts call : Nat) (failures : List Failure)
      (attempt count : Nat) (connection : Connection σ) (connection' : Connection σ') :
      (retryLoop run op attempts false call attempt count failures connection).2 =
        (retryLoop run' op attempts false call attempt count failures connection').2 := by
    induction failures generalizing attempt count connection connection' with
    | nil => rfl
    | cons failure failures ih =>
      simp only [retryLoop]
      split
      · cases verdict op attempts count failure with
        | retry => exact ih ..
        | raise => rfl
        | goOn => exact ih ..
      · rfl
  induction calls generalizing number connection connection' with
  | nil => rfl
  | cons call calls ih =>
    have hcall : (executeWithRetry run call false number connection).2 =
        (executeWithRetry run' call false number connection').2 := by
      unfold executeWithRetry
      cases Operation.ofArguments call.sqlOrFunc call.params with
      | none => rfl
      | some op => exact hloop ..
    unfold executeSequence
    cases h : executeWithRetry run call false number connection with
    | mk next outcome =>
      cases h' : executeWithRetry run' call false number connection' with
      | mk next' outcome' =>
        rw [h, h'] at hcall
        obtain rfl : outcome = outcome' := hcall
        cases outcome with
        | returned => exact ih ..
        | raised => rfl

/-! ### Sequences of calls -/

def NoCallRaises (calls : List Call) : Prop :=
  (executeSequence (fun _ s => s) 0 calls ⟨(), ()⟩).2 = .returned

instance (calls : List Call) : Decidable (NoCallRaises calls) :=
  inferInstanceAs (Decidable (_ = _))

/-- A sequence of calls that ends with its commit commits the effect of the statements of all
its calls, each executed once and in order, whatever the statements do and whatever was in the
database, exactly when no error disturbs the transaction of earlier calls. -/
theorem executeSequence_whole_iff (calls : List Call) (hreturned : NoCallRaises calls) :
    (∀ (σ : Type) (run : Execution → σ → σ) (s : σ),
      (executeSequence run 0 calls ⟨s, s⟩).1.committed = effect run (wholeSequence 0 calls) s) ↔
      Undisturbed calls := by
  have hcommitted (σ : Type) (run : Execution → σ → σ) (s : σ) :
      (executeSequence run 0 calls ⟨s, s⟩).1.committed = effect run (surviving 0 calls []) s :=
    executeSequence_returned calls 0 s []
      ((executeSequence_outcome calls 0 _ ⟨(), ()⟩).trans hreturned)
  simp only [hcommitted]
  rw [effect_eq_iff, surviving_eq_wholeSequence_iff]

/-- Without an error nothing is disturbed: a log of the executions is committed as a whole. -/
theorem assignNodeAnalysisModes_whole :
    NoCallRaises (assignNodeAnalysisModes "1" ["analysis"] [] fun _ => []) ∧
      (executeSequence (fun e log => log ++ [e]) 0
        (assignNodeAnalysisModes "1" ["analysis"] [] fun _ => []) ⟨[], []⟩).1.committed =
      effect (fun e log => log ++ [e])
        (wholeSequence 0 (assignNodeAnalysisModes "1" ["analysis"] [] fun _ => [])) [] :=
  ⟨by decide, (executeSequence_whole_iff _ (by decide)).mpr (by decide) _ _ _⟩

/-- The deadlock of a node that assigns itself the default modes: the second statement meets it,
and the first one is lost. -/
theorem assignNodeAnalysisModes_loses :
    ¬ ∀ calls : List Call, NoCallRaises calls → ∀ (σ : Type) (run : Execution → σ → σ) (s : σ),
      (executeSequence run 0 calls ⟨s, s⟩).1.committed = effect run (wholeSequence 0 calls) s := by
  intro h
  have := h (assignNodeAnalysisModes "1" [] []
      fun number => if number = 1 then [⟨0, .deadlock, false⟩] else []) (by decide)
    (List Execution) (fun e log => log ++ [e]) []
  revert this
  decide

end Ace3.Database
