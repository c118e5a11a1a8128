import Criteria.Reading.Scan
/-!
Reading a displayed expression back into tokens. The first reading is repaired: what stands before an operator is a
parameter, what follows one is a factor, and factors side by side are one factor. Tokens that are still illegal
become unknown, so reading never fails.
-/

namespace Criteria

structure Ambiguity where
  index : Nat
  text : String
  deriving DecidableEq, Repr

namespace Reading

variable (catalog : Catalog)

/-- A text in the place of a parameter keeps its spelling when the catalog does not know it. -/
def asParameter (text : String) : Token :=
  match catalog.findParameter? text with
  | some parameter => .parameter parameter.name (some parameter.id)
  | none => .parameter text none

def asOperand : Token → Token
  | .parameter name _ => .factor name
  | token => token

def asSubject : Token → Token
  | .factor value => asParameter catalog value
  | token => token

def startsWithOperator : List Token → Bool
  | .operator _ :: _ => true
  | _ => false

/-- Between two operators a token is first an operand of the one and then the subject of the other. -/
def reclassify (afterOperator : Bool) : List Token → List Token
  | [] => []
  | token :: rest =>
    let operand := if afterOperator then asOperand token else token
    let token := if startsWithOperator rest then asSubject catalog operand else operand
    token :: reclassify (token.kind == .operator) rest

def mergeFactors : List Token → List Token
  | [] => []
  | .factor value :: rest =>
    match mergeFactors rest with
    | .factor next :: later => .factor (value ++ " " ++ next) :: later
    | merged => .factor value :: merged
  | token :: rest => token :: mergeFactors rest

/-- Replaces every token that is illegal where it stands. -/
def markFrom (position : GrammarPosition) : List Token → List Token
  | [] => []
  | token :: rest =>
    (if position.legalNext.contains token.kind then token else .unknown token.text) ::
      markFrom (Grammar.advance catalog position token) rest

def parse (text : String) : List Token :=
  markFrom catalog .start (mergeFactors (reclassify catalog false (scan catalog (expressionWords text))))

def ambiguitiesFrom (index : Nat) : List Token → List Ambiguity
  | [] => []
  | .unknown text :: rest => ⟨index, text⟩ :: ambiguitiesFrom (index + 1) rest
  | _ :: rest => ambiguitiesFrom (index + 1) rest

/-- The unknown tokens and their places. -/
def ambiguities (tokens : List Token) : List Ambiguity := ambiguitiesFrom 0 tokens

end Reading

end Criteria
