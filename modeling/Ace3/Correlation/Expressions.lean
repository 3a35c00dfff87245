import Ace3.Lib.Json
import Ace3.Lib.Masking

/-!
# Expressions of a Correlation

The conditions of correlation steps, and what is traced of their evaluation
(`saq/collectors/hunter/correlation/expressions.py`, `schema.py`, `trace.py`).
-/

namespace Ace3.Correlation

open Lib.Json Lib.Masking

/-! ## §1 Events -/

/-- An event of the stream. The id is that of the Python object, which stays the same when its
contents are changed. -/
structure Event where
  id : Nat
  value : Value

/-- What comes with Python and jinja. A template that cannot be rendered and a pattern that cannot
be compiled raise. -/
structure Library where
  render : String → Value → List Value → Except String String
  strip : String → String
  lower : String → String
  /-- `str` and `repr` of a value. -/
  str : Value → String
  repr : Value → String
  fnmatch : String → String → Bool
  /-- `re.search`, with or without `re.IGNORECASE`. -/
  search : String → String → Bool → Except String Bool
  /-- The lines of an output, stripped, that are not empty. -/
  lines : String → List String
  loads : String → Except String Value

def getProperty (event : Value) (name : String) : Except String (Option Value) :=
  match event with
  | .dict items =>
    match Dict.get name items with
    | some .null => .ok none
    | value => .ok value
  | _ => .error "object has no attribute 'get'"

/-! ## §2 Secrets -/

mutual

/-- `_collect_leaf_strings`. -/
def leafStrings : Value → List String
  | .str s => [s]
  | .list items => leafStringsOfList items
  | .dict items => leafStringsOfDict items
  | _ => []

def leafStringsOfList : List Value → List String
  | [] => []
  | item :: items => leafStrings item ++ leafStringsOfList items

def leafStringsOfDict : Dict → List String
  | [] => []
  | (_, item) :: items => leafStrings item ++ leafStringsOfDict items

end

def sanitizeValue (secrets : Value) (value : String) : String :=
  .ofList (maskWords ['*', '*', '*'] ((leafStrings secrets).map String.toList) value.toList)

/-! ## §3 Expressions -/

/-- The expressions that compare a property of the event. -/
inductive Comparison where
  | equals | glob | regex
  deriving DecidableEq

def Comparison.name : Comparison → String
  | equals => "equals"
  | glob => "glob"
  | regex => "regex"

/-- An `ExpressionConfig`. The sub-expressions are parsed when they are evaluated: one that is not
an expression, or is of an unknown type, raises then. -/
inductive ExpressionConfig where
  | jinja (value : String)
  | compare (type : Comparison) (property value : String) (caseSensitive : Bool)
  | and (value : List ExpressionConfig)
  | or (value : List ExpressionConfig)
  | not (value : ExpressionConfig)
  | invalid (message : String)

structure ExpressionTrace where
  expressionType : String
  result : Bool
  renderedValue : Option String
  propertyName : Option String
  propertyValue : Option String
  compareValue : Option String
  subExpressions : List ExpressionTrace
  error : Option String

def ExpressionTrace.ofJinja (result : Bool) (renderedValue error : Option String) :
    ExpressionTrace where
  expressionType := "jinja"
  result := result
  renderedValue := renderedValue
  propertyName := none
  propertyValue := none
  compareValue := none
  subExpressions := []
  error := error

def ExpressionTrace.ofSubs (expressionType : String) (result : Bool)
    (subExpressions : List ExpressionTrace) : ExpressionTrace where
  expressionType := expressionType
  result := result
  renderedValue := none
  propertyName := none
  propertyValue := none
  compareValue := none
  subExpressions := subExpressions
  error := none

/-! ## §4 Evaluation -/

namespace Library

variable (lib : Library)

def truthy (rendered : String) : Bool :=
  rendered ≠ "" ∧ lib.strip rendered ≠ "" ∧
    lib.lower (lib.strip rendered) ∉ ["false", "0", "none", ""]

def cased (caseSensitive : Bool) (text : String) : String :=
  if caseSensitive then text else lib.lower text

def propertyValue (event : Value) (property : String) (caseSensitive : Bool) :
    Except String (Option String) :=
  (getProperty event property).map (Option.map fun value => lib.cased caseSensitive (lib.str value))

def evaluateComparison (type : Comparison) (propertyValue : Option String) (value : String)
    (caseSensitive : Bool) : Except String Bool :=
  match propertyValue with
  | none => .ok false
  | some property =>
    match type with
    | .equals => .ok (property = lib.cased caseSensitive value)
    | .glob => .ok (lib.fnmatch property (lib.cased caseSensitive value))
    | .regex => lib.search value property (!caseSensitive)

mutual

/-- `evaluate_expression_traced`. What cannot be rendered is false and traced as an error; all
else that raises is not caught. -/
def evaluate (event : Value) (events : List Value) :
    ExpressionConfig → Except String (Bool × ExpressionTrace)
  | .jinja value =>
    match lib.render value event events with
    | .ok rendered =>
      .ok (lib.truthy rendered, .ofJinja (lib.truthy rendered) (some rendered) none)
    | .error error => .ok (false, .ofJinja false none (some error))
  | .compare type property value caseSensitive => do
    let propertyValue ← lib.propertyValue event property caseSensitive
    let result ← lib.evaluateComparison type propertyValue value caseSensitive
    return (result, {
      expressionType := type.name
      result := result
      renderedValue := none
      propertyName := some property
      propertyValue := propertyValue
      compareValue := some (lib.cased caseSensitive value)
      subExpressions := []
      error := none })
  | .and value => do
    let (result, traces) ← evaluateAnd event events value
    return (result, .ofSubs "and" result traces)
  | .or value => do
    let (result, traces) ← evaluateOr event events value
    return (result, .ofSubs "or" result traces)
  | .not value => do
    let (result, trace) ← evaluate event events value
    return (!result, .ofSubs "not" (!result) [trace])
  | .invalid message => .error message

def evaluateAnd (event : Value) (events : List Value) :
    List ExpressionConfig → Except String (Bool × List ExpressionTrace)
  | [] => .ok (true, [])
  | sub :: subs => do
    let (result, trace) ← evaluate event events sub
    if result then
      let (result, traces) ← evaluateAnd event events subs
      return (result, trace :: traces)
    return (false, [trace])

def evaluateOr (event : Value) (events : List Value) :
    List ExpressionConfig → Except String (Bool × List ExpressionTrace)
  | [] => .ok (false, [])
  | sub :: subs => do
    let (result, trace) ← evaluate event events sub
    if result then return (true, [trace])
    let (result, traces) ← evaluateOr event events subs
    return (result, trace :: traces)

end

end Library

end Ace3.Correlation
