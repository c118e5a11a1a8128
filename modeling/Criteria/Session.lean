import Criteria.Reading.Basic
import Criteria.Rendering
/-!
Editing an expression step by step. A session is a catalog, the way ranges are displayed, and the tokens so far;
everything else is derived from these. An edit answers with a result and with the session as it is then.
-/

namespace Criteria

structure Session where
  catalog : Catalog
  /-- Ranges are displayed with spaces around their hyphen. -/
  spaced : Bool
  tokens : List Token

/-- What the user sees after an edit. -/
structure EditOutcome where
  snapshot : GrammarSnapshot
  factors : List FactorDef
  display : String
  /-- Missing while some token has no part in the payload. -/
  payload : Option String
  deriving DecidableEq, Repr

/-- The result of a call, and the session that the call leaves. -/
structure Reply where
  result : Except ExpressionError EditOutcome
  session : Session

inductive Edit where
  | append (kind : TokenKind) (value : String)
  | appendToken (token : Token)
  | appendFactor (factor : FactorDef)
  | removeLast
  | reset
  deriving DecidableEq, Repr

namespace Session

def new (catalog : Catalog) (spaced : Bool) : Session := ⟨catalog, spaced, []⟩

/-- Opens an expression that was displayed before. -/
def load (catalog : Catalog) (spaced : Bool) (text : String) : Session :=
  ⟨catalog, spaced, Reading.parse catalog text⟩

def snapshot (session : Session) : GrammarSnapshot := Grammar.analyze session.catalog session.tokens

def display (session : Session) : String := Rendering.display session.catalog session.spaced session.tokens

def ambiguities (session : Session) : List Ambiguity := Reading.ambiguities session.tokens

def outcome (session : Session) : EditOutcome where
  snapshot := session.snapshot
  factors := Grammar.activeFactors session.catalog session.tokens
  display := session.display
  payload := (Rendering.payload session.catalog session.tokens).toOption

def push (session : Session) (token : Token) : Session := { session with tokens := session.tokens ++ [token] }

/-- The token that the catalog gives for a typed value. Parentheses take no value. -/
def resolve (catalog : Catalog) (kind : TokenKind) (value : String) : Except ExpressionError Token :=
  let value := Text.trim value
  let whenGiven (found : Except ExpressionError Token) : Except ExpressionError Token :=
    if value.isEmpty then .error (.emptyValue kind) else found
  match kind with
  | .parameter =>
    whenGiven <| match catalog.findParameter? value with
      | some parameter => .ok (.parameter parameter.name (some parameter.id))
      | none => .error (.unknownParameter value)
  | .factor => whenGiven (.ok (.factor (Reading.normalizeFactor value)))
  | .operator =>
    whenGiven <| match catalog.findOperator? value with
      | some symbol => .ok (.operator symbol)
      | none => .error (.unknownOperator value)
  | .logicalOperator =>
    whenGiven <| match Catalog.findLogical? value with
      | some symbol => .ok (.logical symbol)
      | none => .error (.unknownLogicalOperator value)
  | .openParen => .ok .openParen
  | .closeParen => .ok .closeParen
  | .unknown => .error .unknownNotAppendable

/-- A finished token is taken as it is, but a parameter must be one of the catalog's, with its id and name. -/
def accept (catalog : Catalog) : Token → Except ExpressionError Token
  | .parameter name id => (Rendering.resolve catalog name id).map fun _ => .parameter name id
  | token => .ok token

/-- A call that succeeds answers with what the user sees of the session that it leaves. -/
def accepted (session : Session) : Reply := ⟨.ok session.outcome, session⟩

/-- A call that fails leaves the session as it was. -/
def refused (session : Session) (error : ExpressionError) : Reply := ⟨.error error, session⟩

/-- Legality is checked before the token is looked for. -/
def add (session : Session) (kind : TokenKind) (found : Except ExpressionError Token) : Reply :=
  if kind = .unknown then session.refused .unknownNotAppendable
  else match Grammar.checkAppend session.catalog session.tokens kind with
    | .error error => session.refused error
    | .ok _ =>
      match found with
      | .error error => session.refused error
      | .ok token => (session.push token).accepted

def append (session : Session) (kind : TokenKind) (value : String) : Reply :=
  session.add kind (resolve session.catalog kind value)

def appendToken (session : Session) (token : Token) : Reply := session.add token.kind (accept session.catalog token)

def appendFactor (session : Session) (factor : FactorDef) : Reply := session.appendToken (.factor factor.canonical)

def removeLast (session : Session) : Session := { session with tokens := session.tokens.dropLast }

def reset (session : Session) : Session := { session with tokens := [] }

def apply (session : Session) : Edit → Reply
  | .append kind value => session.append kind value
  | .appendToken token => session.appendToken token
  | .appendFactor factor => session.appendFactor factor
  | .removeLast => session.removeLast.accepted
  | .reset => session.reset.accepted

def next (session : Session) (edit : Edit) : Session := (session.apply edit).session

def run (session : Session) (edits : List Edit) : Session := edits.foldl next session

/-- The two texts of a finished expression. Open parentheses are reported before anything else. -/
def finalize (session : Session) : Except ExpressionError RenderedExpression :=
  if 0 < session.snapshot.depth then .error (.unclosedParens session.snapshot.depth)
  else Rendering.render session.catalog session.spaced session.tokens

end Session

end Criteria
