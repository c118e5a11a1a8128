import Criteria.Json.Quoted
import Criteria.Text.Integer
/-!
JSON documents. Numbers and strings are kept as they are spelled: whether a spelling stands for a value is asked
only where the value is needed, so a document may hold an unpaired surrogate in a field that nobody reads. A spelling
that stands for no value of the wanted type is refused.
-/

namespace Criteria

inductive Json where
  | null
  | boolean (value : Bool)
  | number (spelling : List Char)
  /-- The characters between the quotes, escapes included. -/
  | string (spelling : List Char)
  | array (items : List Json)
  | object (members : List (List Char × Json))
  deriving Inhabited

namespace Json

def text? : Json → Option String
  | .string spelling => (unescape spelling).map String.ofList
  | _ => none

def integer? : Json → Option Int64
  | .number spelling => Text.readInteger spelling
  | _ => none

def listOf? (decode : Json → Option α) : Json → Option (List α)
  | .array items => items.mapM decode
  | _ => none

/-- Null stands for an absent value. -/
def optional? (decode : Json → Option α) : Json → Option (Option α)
  | .null => some none
  | value => (decode value).map some

def decodeNames (members : List (List Char × Json)) : Option (List (String × Json)) :=
  members.mapM fun (name, value) => (unescape name).map fun name => (String.ofList name, value)

/-- The value of a member, if there is one. A name that occurs twice is refused. -/
def member? (members : List (String × Json)) (name : String) : Option (Option Json) :=
  match members.filter (·.1 == name) with
  | [] => some none
  | [(_, value)] => some (some value)
  | _ => none

/-- The fields of a record, in the order of `names`. An object gives them by name and may hold other members;
an array gives them by position and may end early. -/
def record? (names : List String) : Json → Option (List (Option Json))
  | .object members => do
    let members ← decodeNames members
    names.mapM (member? members)
  | .array items =>
    if items.length ≤ names.length then
      some (items.map some ++ List.replicate (names.length - items.length) none)
    else none
  | _ => none

end Json

end Criteria
