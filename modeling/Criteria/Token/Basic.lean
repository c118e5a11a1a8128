import Criteria.Token.Kind
import Criteria.Text.Case
/-!
The tokens of a rule expression. A parameter carries its id once it is resolved; an unknown token holds text that
no other kind accounts for.
-/

namespace Criteria

abbrev ParameterId := Int64

inductive Token where
  | parameter (name : String) (id : Option ParameterId)
  | factor (value : String)
  | operator (symbol : String)
  | logicalOperator (symbol : String)
  | openParen
  | closeParen
  | unknown (text : String)
  deriving DecidableEq, Repr

namespace Token

/-- A logical operator is written in capitals. -/
def logical (symbol : String) : Token := .logicalOperator (Text.uppercase symbol)

def kind : Token → TokenKind
  | .parameter _ _ => .parameter
  | .factor _ => .factor
  | .operator _ => .operator
  | .logicalOperator _ => .logicalOperator
  | .openParen => .openParen
  | .closeParen => .closeParen
  | .unknown _ => .unknown

def text : Token → String
  | .parameter name _ => name
  | .factor value => value
  | .operator symbol => symbol
  | .logicalOperator symbol => symbol
  | .openParen => "("
  | .closeParen => ")"
  | .unknown text => text

def isParameter : Token → Bool
  | .parameter _ _ => true
  | _ => false

theorem isParameter_eq_true_iff {token : Token} : token.isParameter = true ↔ token.kind = .parameter := by
  cases token <;> simp [isParameter, kind]

end Token

end Criteria
