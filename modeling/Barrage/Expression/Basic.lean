import Barrage.Expression.Grammar
import Barrage.Journal.Code

/-!
Expressions: a source text and its term. Blank text is the empty expression, whose value is zero.
-/

set_option autoImplicit false

namespace Barrage

structure Expression where
  source : String := ""
  term? : Option Term := none
  deriving DecidableEq, Repr, Inhabited

inductive ExpressionError where
  | malformed (source : String) (problem : Expr.Problem) (offset : Nat)
  | tooLong (length : Nat)
  | tooDeep (source : String)
  /-- A parameter without a value, found by strict evaluation. -/
  | unbound (index : Nat)
  deriving DecidableEq, Repr

namespace ExpressionError

def code : ExpressionError → Code
  | malformed .. | tooDeep _ => .malformedExpression
  | tooLong _ => .expressionTooLong
  | unbound _ => .unboundParameter

def isRecoverable : ExpressionError → Bool
  | unbound _ => true
  | _ => false

end ExpressionError

namespace Expression

def maxLength : Nat := 4096

end Expression

def ExpressionError.message : ExpressionError → String
  | malformed source problem offset =>
    s!"Invalid expression '{source}': {problem.message} at offset {offset}"
  | tooLong length =>
    s!"Expression too long: {length} characters (max {Expression.maxLength})"
  | tooDeep source => s!"Expression '{source}' nests deeper than {Expr.maxDepth} levels"
  | unbound index => s!"Parameter ${index} is not bound"

namespace Expression

def parse (text : String) : Except ExpressionError Expression :=
  if text.utf8ByteSize > maxLength then .error (.tooLong text.utf8ByteSize)
  else
    let cs := Text.trim text.toList
    if cs.isEmpty then .ok {}
    else
      let source := String.ofList cs
      match Expr.tokenize cs with
      | .error (problem, offset) => .error (.malformed source problem offset)
      | .ok words =>
        match Expr.readTerm (Text.byteLength cs) words with
        | .ok t => .ok { source, term? := some t }
        | .error (.problem p, offset) => .error (.malformed source p offset)
        | .error (.tooDeep, _) => .error (.tooDeep source)

def isEmpty (e : Expression) : Bool := e.term?.isNone

def isConstant (e : Expression) : Bool :=
  match e.term? with
  | some t => t.isConstant
  | none => true

variable {F σ : Type} [Scalar F]

def evaluate (e : Expression) (r : Reading F σ) (s : σ) : F × σ :=
  match e.term? with
  | some t => t.evaluate r s
  | none => (Scalar.zero, s)

def evaluateStrict (e : Expression) (r : Reading F σ) (s : σ) : Except ExpressionError F × σ :=
  match e.term? with
  | some t => match t.evaluateStrict r s with
    | (.ok x, s) => (.ok x, s)
    | (.error n, s) => (.error (.unbound n), s)
  | none => (.ok Scalar.zero, s)

end Expression

end Barrage
