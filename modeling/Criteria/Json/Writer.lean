import Criteria.Json.Basic
import Criteria.Json.Quoted
import Criteria.Text.Integer
/-!
Writing a JSON document without any white space, and the values that documents are built from.
-/

namespace Criteria.Json

def quoted (spelling : List Char) : List Char := '"' :: spelling ++ ['"']

mutual

def render : Json → List Char
  | .null => "null".toList
  | .boolean true => "true".toList
  | .boolean false => "false".toList
  | .number spelling => spelling
  | .string spelling => quoted spelling
  | .array items => '[' :: renderItems items ++ [']']
  | .object members => '\x7b' :: renderMembers members ++ ['\x7d']

def renderItems : List Json → List Char
  | [] => []
  | [item] => render item
  | item :: rest => render item ++ ',' :: renderItems rest

def renderMembers : List (List Char × Json) → List Char
  | [] => []
  | [(name, value)] => quoted name ++ ':' :: render value
  | (name, value) :: rest => quoted name ++ ':' :: render value ++ ',' :: renderMembers rest

end

def write (document : Json) : String := String.ofList (render document)

def ofText (text : String) : Json := .string (escape text.toList)

def ofInteger (value : Int64) : Json := .number (Text.writeInteger value)

def ofNat (value : Nat) : Json := .number (Nat.toDigits 10 value)

def ofOption (encode : α → Json) : Option α → Json
  | none => .null
  | some value => encode value

def ofMembers (members : List (String × Json)) : Json :=
  .object (members.map fun (name, value) => (escape name.toList, value))

end Criteria.Json
