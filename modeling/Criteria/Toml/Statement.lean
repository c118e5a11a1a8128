import Criteria.Toml.Scalar
import Criteria.Toml.Text
/-!
The statements of a TOML document: headers of tables and of arrays of tables, and assignments to dotted keys.
-/

namespace Criteria.Toml

/-- A table in braces keeps its assignments as they are written. -/
inductive Expression where
  | scalar (value : SettingValue)
  | array (items : List Expression)
  | inlineTable (members : List (List String × Expression))
  deriving Inhabited

inductive Statement where
  | header (path : List String)
  | arrayHeader (path : List String)
  | assignment (path : List String) (value : Expression)

def skipSpace (text : List Char) : List Char := text.dropWhile isSpace

/-- What follows the comment that the text starts with, if it does. -/
def skipComment : List Char → Option (List Char)
  | '#' :: rest =>
    let after := rest.dropWhile fun c => !isControl c
    if after.isEmpty || startsLine after then some after else none
  | text => some text

/-- Spaces, comments and line ends, as they may stand within brackets and braces. -/
def skipLines : Nat → List Char → Option (List Char)
  | 0, text => some text
  | fuel + 1, text =>
    match skipSpace text with
    | '\n' :: rest => skipLines fuel rest
    | '\r' :: '\n' :: rest => skipLines fuel rest
    | '#' :: rest => (skipComment ('#' :: rest)).bind (skipLines fuel)
    | rest => some rest

def isBareCharacter (c : Char) : Bool := c.isAlphanum || c == '_' || c == '-'

def scanSimpleKey : List Char → Option (String × List Char)
  | '"' :: rest => (scanBasic rest).map fun (name, after) => (String.ofList name, after)
  | '\'' :: rest => (scanLiteral rest).map fun (name, after) => (String.ofList name, after)
  | text =>
    match text.takeWhile isBareCharacter with
    | [] => none
    | name => some (String.ofList name, text.dropWhile isBareCharacter)

/-- How deep brackets and braces may nest, and how many parts a key may have. -/
def nestingLimit : Nat := 80

/-- One or more simple keys with points between them, up to so many. -/
def scanKey : Nat → List Char → Option (List String × List Char)
  | 0, _ => none
  | fuel + 1, text => do
    let (name, after) ← scanSimpleKey (skipSpace text)
    match skipSpace after with
    | '.' :: rest => (scanKey fuel rest).map fun (path, after) => (name :: path, after)
    | rest => pure ([name], rest)

def endsWord (c : Char) : Bool :=
  isSpace c || c == '\n' || c == '\r' || c == ',' || c == ']' || c == '\x7d' || c == '#'

/-- The value that the text starts with, if it is no string and has no brackets. A space may part a date from the
time of day that belongs to it. -/
def scanWord (text : List Char) : Option (SettingValue × List Char) :=
  let word := text.takeWhile (!endsWord ·)
  let after := text.dropWhile (!endsWord ·)
  let joined :=
    match after with
    | ' ' :: rest =>
      (momentText? (word ++ ' ' :: rest.takeWhile (!endsWord ·))).map (·, rest.dropWhile (!endsWord ·))
    | _ => none
  joined.or ((scalar? word).map (·, after))

mutual

/-- The value that the text starts with; `room` is how many levels of brackets and braces it may have. -/
def scanValue (room : Nat) : Nat → List Char → Option (Expression × List Char)
  | 0, _ => none
  | fuel + 1, text =>
    match text with
    | '[' :: rest =>
      if room = 0 then none
      else
        match skipLines rest.length rest with
        | none => none
        | some (']' :: after) => some (.array [], after)
        | some rest => (scanItems (room - 1) fuel rest).map fun (items, after) => (.array items, after)
    | '\x7b' :: rest =>
      if room = 0 then none
      else
        match skipLines rest.length rest with
        | none => none
        | some ('\x7d' :: after) => some (.inlineTable [], after)
        | some rest => (scanMembers (room - 1) fuel rest).map fun (members, after) => (.inlineTable members, after)
    | c :: rest =>
      if c == '"' || c == '\'' then
        (scanString (c :: rest)).map fun (value, after) => (.scalar (.text (String.ofList value)), after)
      else (scanWord text).map fun (value, after) => (.scalar value, after)
    | [] => none

/-- The items of an array up to its closing bracket; a comma may stand behind the last. -/
def scanItems (room : Nat) : Nat → List Char → Option (List Expression × List Char)
  | 0, _ => none
  | fuel + 1, text => do
    let (item, after) ← scanValue room fuel text
    match ← skipLines after.length after with
    | ']' :: after => pure ([item], after)
    | ',' :: rest =>
      match ← skipLines rest.length rest with
      | ']' :: after => pure ([item], after)
      | rest => (scanItems room fuel rest).map fun (items, after) => (item :: items, after)
    | _ => none

/-- The members of a table up to its closing brace; a comma may stand behind the last. -/
def scanMembers (room : Nat) : Nat → List Char → Option (List (List String × Expression) × List Char)
  | 0, _ => none
  | fuel + 1, text => do
    let (path, after) ← scanKey nestingLimit text
    match ← skipLines after.length after with
    | '=' :: rest =>
      let (value, after) ← scanValue room fuel (← skipLines rest.length rest)
      match ← skipLines after.length after with
      | '\x7d' :: after => pure ([(path, value)], after)
      | ',' :: rest =>
        match ← skipLines rest.length rest with
        | '\x7d' :: after => pure ([(path, value)], after)
        | rest => (scanMembers room fuel rest).map fun (members, after) => ((path, value) :: members, after)
      | _ => none
    | _ => none

end

def scanStatement (text : List Char) : Option (Statement × List Char) :=
  match text with
  | '[' :: '[' :: rest =>
    match scanKey nestingLimit rest with
    | some (path, ']' :: ']' :: after) => some (.arrayHeader path, after)
    | _ => none
  | '[' :: rest =>
    match scanKey nestingLimit rest with
    | some (path, ']' :: after) => some (.header path, after)
    | _ => none
  | _ =>
    match scanKey nestingLimit text with
    | some (path, '=' :: rest) =>
      (scanValue nestingLimit (rest.length + 1) (skipSpace rest)).map fun (value, after) => (.assignment path value, after)
    | _ => none

/-- A line holds at most one statement, which may run over several lines. -/
def scanStatements : Nat → List Char → Option (List Statement)
  | 0, _ => none
  | fuel + 1, text =>
    match skipLines text.length text with
    | none => none
    | some [] => some []
    | some text => do
      let (statement, after) ← scanStatement text
      let after ← skipComment (skipSpace after)
      if after.isEmpty || startsLine after then (scanStatements fuel after).map (statement :: ·) else none

def statements (text : List Char) : Option (List Statement) := scanStatements (text.length + 1) text

end Criteria.Toml
