import Criteria.Token.Basic
import Criteria.Json.Basic
import Criteria.Json.Reader
import Criteria.Json.Writer
import Criteria.Decimal.Binary64
/-!
Tokens as JSON documents: an object whose member `type` tells the kind, or an array that starts with it. The whole
document is examined before its parts are used, so it must stand for a value throughout and may not nest deeply.
-/

namespace Criteria

namespace Json

mutual

/-- Every spelling stands for a value, every number is finite, and at most `depth` brackets enclose a value. -/
def isSound (depth : Nat) : Json → Bool
  | .null => true
  | .boolean _ => true
  | .number spelling =>
    match Decimal.read spelling with
    | some value => !(Binary64.ofDecimal value).isInfinite
    | none => false
  | .string spelling => (unescape spelling).isSome
  | .array items =>
    match depth with
    | 0 => false
    | depth + 1 => areSound depth items
  | .object members =>
    match depth with
    | 0 => false
    | depth + 1 => haveSound depth members

def areSound (depth : Nat) : List Json → Bool
  | [] => true
  | item :: rest => isSound depth item && areSound depth rest

def haveSound (depth : Nat) : List (List Char × Json) → Bool
  | [] => true
  | (name, value) :: rest => (unescape name).isSome && isSound depth value && haveSound depth rest

end

end Json

namespace Token

/-- How deep a document for a token may nest. -/
def nestingLimit : Nat := 127

def typeName : TokenKind → String
  | .parameter => "parameter"
  | .factor => "factor"
  | .operator => "operator"
  | .logicalOperator => "logical_operator"
  | .openParen => "open_paren"
  | .closeParen => "close_paren"
  | .unknown => "unknown"

def kindOfTypeName? (name : String) : Option TokenKind := TokenKind.all.find? (typeName · == name)

/-- The members of a token of some kind besides its type. -/
def fieldNames : TokenKind → List String
  | .parameter => ["name", "id"]
  | .factor => ["value"]
  | .operator => ["symbol"]
  | .logicalOperator => ["symbol"]
  | .openParen => []
  | .closeParen => []
  | .unknown => ["text"]

def ofFields? : TokenKind → List (Option Json) → Option Token
  | .parameter, [some name, id] => do
    let name ← name.text?
    let id ← (id.getD .null).optional? Json.integer?
    pure (.parameter name id)
  | .factor, [some value] => value.text?.map .factor
  | .operator, [some symbol] => symbol.text?.map .operator
  | .logicalOperator, [some symbol] => symbol.text?.map .logicalOperator
  | .openParen, [] => some .openParen
  | .closeParen, [] => some .closeParen
  | .unknown, [some text] => text.text?.map .unknown
  | _, _ => none

def ofJson? (document : Json) : Option Token :=
  if document.isSound nestingLimit then
    match document with
    | .object members => do
      let members ← Json.decodeNames members
      let type ← (← Json.member? members "type")
      let kind ← kindOfTypeName? (← type.text?)
      let fields ← (fieldNames kind).mapM (Json.member? members)
      ofFields? kind fields
    | .array (type :: items) => do
      let kind ← kindOfTypeName? (← type.text?)
      if items.length = (fieldNames kind).length then ofFields? kind (items.map some) else none
    | _ => none
  else none

def read? (text : String) : Option Token := (Json.read text).bind ofJson?

def fields : Token → List (String × Json)
  | .parameter name id => [("name", .ofText name), ("id", .ofOption .ofInteger id)]
  | .factor value => [("value", .ofText value)]
  | .operator symbol => [("symbol", .ofText symbol)]
  | .logicalOperator symbol => [("symbol", .ofText symbol)]
  | .openParen => []
  | .closeParen => []
  | .unknown text => [("text", .ofText text)]

def toJson (token : Token) : Json :=
  .ofMembers (("type", .ofText (typeName token.kind)) :: token.fields)

end Token

end Criteria
