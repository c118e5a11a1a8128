import Criteria.Catalog.Basic
/-!
Which kinds of token may follow a sequence. The last token gives the state; together with the number of open
parentheses and the question whether the last token is a parameter without factors it decides what is legal.
Nothing is remembered between two questions.
-/

namespace Criteria

inductive GrammarState where
  | start
  | afterOpenParen
  | afterParameter
  | afterOperator
  | afterFactor
  | afterLogicalOperator
  | afterCloseParen
  /-- After text that could not be placed nearly everything is legal, so that the user can repair it. -/
  | afterUnknown
  deriving DecidableEq, Repr

namespace GrammarState

def name : GrammarState → String
  | .start => "start"
  | .afterOpenParen => "after_open_paren"
  | .afterParameter => "after_parameter"
  | .afterOperator => "after_operator"
  | .afterFactor => "after_factor"
  | .afterLogicalOperator => "after_logical_operator"
  | .afterCloseParen => "after_close_paren"
  | .afterUnknown => "after_unknown"

def afterKind : TokenKind → GrammarState
  | .parameter => .afterParameter
  | .factor => .afterFactor
  | .operator => .afterOperator
  | .logicalOperator => .afterLogicalOperator
  | .openParen => .afterOpenParen
  | .closeParen => .afterCloseParen
  | .unknown => .afterUnknown

def ofTail (tokens : List Token) : GrammarState :=
  match tokens.getLast? with
  | none => .start
  | some token => afterKind token.kind

/-- Whether a group may end here, provided that one is open. -/
def isClosable : GrammarState → Bool
  | .afterFactor => true
  | .afterCloseParen => true
  | .afterUnknown => true
  | _ => false

end GrammarState

/-- All that the legality of the next token depends on. -/
structure GrammarPosition where
  state : GrammarState
  depth : Nat
  /-- The last token is a parameter that offers no factors. -/
  freeText : Bool
  deriving DecidableEq, Repr

namespace GrammarPosition

def start : GrammarPosition := ⟨.start, 0, false⟩

/-- What the state alone allows. -/
def followers (state : GrammarState) (freeText : Bool) : List TokenKind :=
  match state with
  | .start => [.parameter, .openParen]
  | .afterLogicalOperator => [.parameter, .openParen]
  | .afterOpenParen => [.parameter]
  | .afterParameter => if freeText then [.operator, .openParen] else [.operator]
  | .afterOperator => [.factor]
  | .afterFactor => [.logicalOperator]
  | .afterCloseParen => [.logicalOperator]
  | .afterUnknown => [.parameter, .factor, .operator, .logicalOperator, .openParen]

def legalNext (position : GrammarPosition) : KindSet :=
  let followers := KindSet.ofList (followers position.state position.freeText)
  if position.state.isClosable && 0 < position.depth then followers.insert .closeParen else followers

end GrammarPosition

structure GrammarSnapshot where
  state : GrammarState
  /-- How many parentheses are open. -/
  depth : Nat
  legalNext : KindSet
  deriving DecidableEq, Repr

namespace Grammar

variable (catalog : Catalog)

/-- A closing parenthesis without a partner counts for nothing. -/
def parenDepth (tokens : List Token) : Nat :=
  tokens.foldl (fun depth token =>
    match token with
    | .openParen => depth + 1
    | .closeParen => depth - 1
    | _ => depth) 0

/-- A parameter without an id is looked up by its name. -/
def parameterId? : Token → Option ParameterId
  | .parameter _ (some id) => some id
  | .parameter name none => (catalog.findParameter? name).map (·.id)
  | _ => none

def factorsOf (token : Token) : List FactorDef :=
  match parameterId? catalog token with
  | some id => catalog.factorsFor id
  | none => []

def isFreeText (token : Token) : Bool := token.isParameter && (factorsOf catalog token).isEmpty

def position (tokens : List Token) : GrammarPosition where
  state := .ofTail tokens
  depth := parenDepth tokens
  freeText := tokens.getLast?.any (isFreeText catalog)

def analyze (tokens : List Token) : GrammarSnapshot :=
  let position := position catalog tokens
  ⟨position.state, position.depth, position.legalNext⟩

def checkAppend (tokens : List Token) (kind : TokenKind) : Except ExpressionError GrammarSnapshot :=
  let snapshot := analyze catalog tokens
  if snapshot.legalNext.contains kind then .ok snapshot
  else .error (.illegalKind snapshot.legalNext kind)

/-- An illegal token is passed over as if it were unknown. -/
def advance (position : GrammarPosition) (token : Token) : GrammarPosition :=
  if position.legalNext.contains token.kind then
    { state := .afterKind token.kind
      depth :=
        match token with
        | .openParen => position.depth + 1
        | .closeParen => position.depth - 1
        | _ => position.depth
      freeText := isFreeText catalog token }
  else { position with state := .afterUnknown, freeText := false }

def violationsFrom (position : GrammarPosition) (index : Nat) : List Token → List Nat
  | [] => []
  | token :: rest =>
    let later := violationsFrom (advance catalog position token) (index + 1) rest
    if position.legalNext.contains token.kind || token.kind == .unknown then later else index :: later

/-- The places of the tokens that are illegal where they stand, unknown ones excepted. -/
def violations (tokens : List Token) : List Nat := violationsFrom catalog .start 0 tokens

/-- The parameter that the end of the sequence is about. -/
def governing? (tokens : List Token) : Option Token := tokens.reverse.find? (·.isParameter)

/-- The factors to choose from; there are none except after a parameter and after an operator. -/
def activeFactors (tokens : List Token) : List FactorDef :=
  match GrammarState.ofTail tokens with
  | .afterParameter => ((governing? tokens).map (factorsOf catalog)).getD []
  | .afterOperator => ((governing? tokens).map (factorsOf catalog)).getD []
  | _ => []

end Grammar

end Criteria
