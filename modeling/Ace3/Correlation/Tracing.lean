import Ace3.Correlation.Expressions
import Mathlib.Data.List.Forall2

/-!
# Evaluation with and without a Trace

Expressions are evaluated by two functions that are written separately, one of which also says
what it did (`saq/collectors/hunter/correlation/expressions.py`).
-/

namespace Ace3.Correlation

open Lib.Json

/-! ## §1 Evaluation without a trace -/

def ExpressionConfig.type : ExpressionConfig → String
  | jinja _ => "jinja"
  | compare type _ _ _ => type.name
  | and _ => "and"
  | or _ => "or"
  | not _ => "not"
  | invalid _ => ""

def ExpressionConfig.property : ExpressionConfig → Option String
  | compare _ property _ _ => some property
  | _ => none

namespace Library

variable (lib : Library)

mutual

/-- `evaluate_expression`. What cannot be rendered is false, all else that raises is not caught. -/
def evaluateExpression (event : Value) (events : List Value) : ExpressionConfig → Except String Bool
  | .jinja value =>
    match lib.render value event events with
    | .ok result => .ok (lib.truthy result)
    | .error _ => .ok false
  | .compare type property value caseSensitive => do
    let propertyValue ← lib.propertyValue event property caseSensitive
    lib.evaluateComparison type propertyValue value caseSensitive
  | .and value => evaluateExpressionAnd event events value
  | .or value => evaluateExpressionOr event events value
  | .not value => do return !(← evaluateExpression event events value)
  | .invalid message => .error message

def evaluateExpressionAnd (event : Value) (events : List Value) :
    List ExpressionConfig → Except String Bool
  | [] => .ok true
  | sub :: subs => do
    if !(← evaluateExpression event events sub) then return false
    evaluateExpressionAnd event events subs

def evaluateExpressionOr (event : Value) (events : List Value) :
    List ExpressionConfig → Except String Bool
  | [] => .ok false
  | sub :: subs => do
    if ← evaluateExpression event events sub then return true
    evaluateExpressionOr event events subs

end

end Library

/-! ## §2 What is visited -/

/-- The elements up to the first that stops, and that one. -/
def upTo {α : Type*} (stops : α → Bool) : List α → List α
  | [] => []
  | a :: l => if stops a then [a] else a :: upTo stops l

namespace Library

variable (lib : Library) (event : Value) (events : List Value)

def yields (truth : Bool) (expr : ExpressionConfig) : Bool :=
  match lib.evaluateExpression event events expr with
  | .ok result => result = truth
  | .error _ => false

/-- The sub-expressions that are visited, from the left to the right. The one that decides, or
raises, is the last. -/
def visited : ExpressionConfig → List ExpressionConfig
  | .and value => upTo (fun sub => !lib.yields event events true sub) value
  | .or value => upTo (fun sub => !lib.yields event events false sub) value
  | .not value => [value]
  | _ => []

/-- A trace follows the evaluation: it has the truth value of the expression, and the traces below
it are those of the sub-expressions that are visited, in their order. -/
inductive Follows : ExpressionConfig → ExpressionTrace → Prop where
  | intro {expr : ExpressionConfig} {trace : ExpressionTrace} :
    trace.expressionType = expr.type → trace.propertyName = expr.property →
    lib.evaluateExpression event events expr = .ok trace.result →
    List.Forall₂ Follows (lib.visited event events expr) trace.subExpressions →
    Follows expr trace

/-! ## §3 Agreement -/

variable {lib event events}

theorem Follows.leaf {expr : ExpressionConfig} {trace : ExpressionTrace}
    (htype : trace.expressionType = expr.type) (hproperty : trace.propertyName = expr.property)
    (hresult : lib.evaluateExpression event events expr = .ok trace.result)
    (hvisited : lib.visited event events expr = []) (hsubs : trace.subExpressions = []) :
    lib.Follows event events expr trace := by
  refine .intro htype hproperty hresult ?_
  rw [hvisited, hsubs]
  exact .nil

mutual

theorem evaluate_spec : ∀ expr : ExpressionConfig,
    match lib.evaluate event events expr with
    | .ok (result, trace) => lib.evaluateExpression event events expr = .ok result ∧
        trace.result = result ∧ lib.Follows event events expr trace
    | .error error => lib.evaluateExpression event events expr = .error error
  | .jinja value => by
    rw [evaluate]
    cases hrender : lib.render value event events with
    | ok rendered =>
      have hresult : lib.evaluateExpression event events (.jinja value) =
          .ok (lib.truthy rendered) := by
        rw [evaluateExpression, hrender]
      exact ⟨hresult, rfl, .leaf rfl rfl hresult rfl rfl⟩
    | error error =>
      -- both functions catch the error
      have hresult : lib.evaluateExpression event events (.jinja value) = .ok false := by
        rw [evaluateExpression, hrender]
      exact ⟨hresult, rfl, .leaf rfl rfl hresult rfl rfl⟩
  | .compare type property value caseSensitive => by
    have hexpr : lib.evaluateExpression event events (.compare type property value caseSensitive) =
        (lib.propertyValue event property caseSensitive).bind fun propertyValue =>
          lib.evaluateComparison type propertyValue value caseSensitive := by
      rw [evaluateExpression]
      rfl
    rw [evaluate]
    cases hproperty : lib.propertyValue event property caseSensitive with
    | error error =>
      rw [hexpr, hproperty]
      rfl
    | ok propertyValue =>
      rw [hproperty, Except.bind] at hexpr
      cases hcompare : lib.evaluateComparison type propertyValue value caseSensitive with
      | error error =>
        simp only [bind, Except.bind, hcompare]
        exact hexpr.trans hcompare
      | ok result =>
        simp only [bind, Except.bind, hcompare]
        have hresult := hexpr.trans hcompare
        exact ⟨hresult, rfl, .leaf rfl rfl hresult rfl rfl⟩
  | .and value => by
    have hspec := evaluateAnd_spec value
    rw [evaluate]
    cases hsubs : lib.evaluateAnd event events value with
    | error error =>
      rw [hsubs] at hspec
      rw [evaluateExpression]
      exact hspec
    | ok pair =>
      rw [hsubs] at hspec
      have hresult : lib.evaluateExpression event events (.and value) = .ok pair.1 := by
        rw [evaluateExpression]
        exact hspec.1
      exact ⟨hresult, rfl, .intro rfl rfl hresult hspec.2⟩
  | .or value => by
    have hspec := evaluateOr_spec value
    rw [evaluate]
    cases hsubs : lib.evaluateOr event events value with
    | error error =>
      rw [hsubs] at hspec
      rw [evaluateExpression]
      exact hspec
    | ok pair =>
      rw [hsubs] at hspec
      have hresult : lib.evaluateExpression event events (.or value) = .ok pair.1 := by
        rw [evaluateExpression]
        exact hspec.1
      exact ⟨hresult, rfl, .intro rfl rfl hresult hspec.2⟩
  | .not value => by
    have hspec := evaluate_spec value
    rw [evaluate]
    cases hsub : lib.evaluate event events value with
    | error error =>
      rw [hsub] at hspec
      rw [evaluateExpression, hspec]
      rfl
    | ok pair =>
      rw [hsub] at hspec
      obtain ⟨heval, -, hfollows⟩ := hspec
      have hresult : lib.evaluateExpression event events (.not value) = .ok (!pair.1) := by
        rw [evaluateExpression, heval]
        rfl
      exact ⟨hresult, rfl, .intro rfl rfl hresult (.cons hfollows .nil)⟩
  | .invalid message => by rw [evaluate, evaluateExpression]

theorem evaluateAnd_spec : ∀ value : List ExpressionConfig,
    match lib.evaluateAnd event events value with
    | .ok (result, traces) => lib.evaluateExpressionAnd event events value = .ok result ∧
        List.Forall₂ (lib.Follows event events)
          (upTo (fun sub => !lib.yields event events true sub) value) traces
    | .error error => lib.evaluateExpressionAnd event events value = .error error
  | [] => by
    rw [evaluateAnd, evaluateExpressionAnd]
    exact ⟨rfl, .nil⟩
  | sub :: subs => by
    have hsub := evaluate_spec sub
    have hsubs := evaluateAnd_spec subs
    rw [evaluateAnd, evaluateExpressionAnd, upTo]
    cases hevaluate : lib.evaluate event events sub with
    | error error =>
      rw [hevaluate] at hsub
      rw [hsub]
      rfl
    | ok pair =>
      obtain ⟨result, trace⟩ := pair
      rw [hevaluate] at hsub
      obtain ⟨heval, -, hfollows⟩ := hsub
      simp only [yields, heval]
      cases result with
      | false => exact ⟨rfl, .cons hfollows .nil⟩
      | true =>
        cases hrest : lib.evaluateAnd event events subs with
        | error error =>
          rw [hrest] at hsubs
          exact hsubs
        | ok rest =>
          rw [hrest] at hsubs
          exact ⟨hsubs.1, .cons hfollows hsubs.2⟩

theorem evaluateOr_spec : ∀ value : List ExpressionConfig,
    match lib.evaluateOr event events value with
    | .ok (result, traces) => lib.evaluateExpressionOr event events value = .ok result ∧
        List.Forall₂ (lib.Follows event events)
          (upTo (fun sub => !lib.yields event events false sub) value) traces
    | .error error => lib.evaluateExpressionOr event events value = .error error
  | [] => by
    rw [evaluateOr, evaluateExpressionOr]
    exact ⟨rfl, .nil⟩
  | sub :: subs => by
    have hsub := evaluate_spec sub
    have hsubs := evaluateOr_spec subs
    rw [evaluateOr, evaluateExpressionOr, upTo]
    cases hevaluate : lib.evaluate event events sub with
    | error error =>
      rw [hevaluate] at hsub
      rw [hsub]
      rfl
    | ok pair =>
      obtain ⟨result, trace⟩ := pair
      rw [hevaluate] at hsub
      obtain ⟨heval, -, hfollows⟩ := hsub
      simp only [yields, heval]
      cases result with
      | true => exact ⟨rfl, .cons hfollows .nil⟩
      | false =>
        cases hrest : lib.evaluateOr event events subs with
        | error error =>
          rw [hrest] at hsubs
          exact hsubs
        | ok rest =>
          rw [hrest] at hsubs
          exact ⟨hsubs.1, .cons hfollows hsubs.2⟩

end

/-- The traced evaluation has the truth value of the other one, and raises what it raises. The tree
of traces consists of the sub-expressions that short-circuit evaluation visits, each with its own
truth value. -/
theorem traced_evaluation_agrees (lib : Library) (event : Value) (events : List Value)
    (expr : ExpressionConfig) :
    (lib.evaluate event events expr).map Prod.fst = lib.evaluateExpression event events expr ∧
      match lib.evaluate event events expr with
      | .ok (result, trace) => trace.result = result ∧ lib.Follows event events expr trace
      | .error _ => True := by
  have hspec := @evaluate_spec lib event events expr
  cases hevaluate : lib.evaluate event events expr with
  | error error =>
    rw [hevaluate] at hspec
    exact ⟨hspec.symm, trivial⟩
  | ok pair =>
    rw [hevaluate] at hspec
    exact ⟨hspec.1.symm, hspec.2⟩

end Library

end Ace3.Correlation
