import Criteria.Json.Basic
import Criteria.Json.Quoted
/-!
Reading a JSON document. The reader keeps to the grammar and nothing else: no limit on nesting, no opinion on
repeated names, every spelling kept.
-/

namespace Criteria.Json

def isSpace (c : Char) : Bool := c == ' ' || c == '\t' || c == '\n' || c == '\r'

def skipSpace (text : List Char) : List Char := text.dropWhile isSpace

/-- At least one digit. -/
def scanDigits (text : List Char) : Option (List Char × List Char) :=
  match text.takeWhile Char.isDigit with
  | [] => none
  | digits => some (digits, text.dropWhile Char.isDigit)

/-- Digits that begin with a zero are that zero alone. -/
def scanWhole (text : List Char) : Option (List Char × List Char) :=
  match scanDigits text with
  | some ('0' :: _ :: _, _) => none
  | scanned => scanned

def scanFraction : List Char → Option (List Char × List Char)
  | '.' :: rest => (scanDigits rest).map fun (digits, after) => ('.' :: digits, after)
  | rest => some ([], rest)

def scanSign : List Char → List Char × List Char
  | '-' :: rest => (['-'], rest)
  | '+' :: rest => (['+'], rest)
  | rest => ([], rest)

def scanExponent : List Char → Option (List Char × List Char)
  | [] => some ([], [])
  | c :: rest =>
    if c == 'e' || c == 'E' then
      let (sign, magnitude) := scanSign rest
      (scanDigits magnitude).map fun (digits, after) => (c :: sign ++ digits, after)
    else some ([], c :: rest)

def scanNumber (text : List Char) : Option (List Char × List Char) := do
  let (sign, magnitude) := match text with
    | '-' :: rest => (['-'], rest)
    | rest => ([], rest)
  let (whole, afterWhole) ← scanWhole magnitude
  let (fraction, afterFraction) ← scanFraction afterWhole
  let (exponent, after) ← scanExponent afterFraction
  pure (sign ++ whole ++ fraction ++ exponent, after)

mutual

/-- Reads one value and leaves what follows it. The fuel bounds the steps; the length of the text is enough. -/
def readValue : Nat → List Char → Option (Json × List Char)
  | 0, _ => none
  | fuel + 1, text =>
    match skipSpace text with
    | 'n' :: 'u' :: 'l' :: 'l' :: rest => some (.null, rest)
    | 't' :: 'r' :: 'u' :: 'e' :: rest => some (.boolean true, rest)
    | 'f' :: 'a' :: 'l' :: 's' :: 'e' :: rest => some (.boolean false, rest)
    | '"' :: rest => (scanQuoted rest).map fun (spelling, after) => (.string spelling, after)
    | '[' :: rest =>
      match skipSpace rest with
      | ']' :: after => some (.array [], after)
      | _ => (readItems fuel rest).map fun (items, after) => (.array items, after)
    | '{' :: rest =>
      match skipSpace rest with
      | '}' :: after => some (.object [], after)
      | _ => (readMembers fuel rest).map fun (members, after) => (.object members, after)
    | other => (scanNumber other).map fun (spelling, after) => (.number spelling, after)

/-- The items of an array up to its closing bracket; there is at least one. -/
def readItems : Nat → List Char → Option (List Json × List Char)
  | 0, _ => none
  | fuel + 1, text =>
    match readValue fuel text with
    | none => none
    | some (item, rest) =>
      match skipSpace rest with
      | ']' :: after => some ([item], after)
      | ',' :: more => (readItems fuel more).map fun (items, after) => (item :: items, after)
      | _ => none

/-- The members of an object up to its closing brace; there is at least one. -/
def readMembers : Nat → List Char → Option (List (List Char × Json) × List Char)
  | 0, _ => none
  | fuel + 1, text =>
    match skipSpace text with
    | '"' :: opened =>
      match scanQuoted opened with
      | none => none
      | some (name, named) =>
        match skipSpace named with
        | ':' :: rest =>
          match readValue fuel rest with
          | none => none
          | some (value, rest) =>
            match skipSpace rest with
            | '}' :: after => some ([(name, value)], after)
            | ',' :: more =>
              (readMembers fuel more).map fun (members, after) => ((name, value) :: members, after)
            | _ => none
        | _ => none
    | _ => none

end

/-- A document is one value with nothing but white space around it. -/
def read (text : String) : Option Json :=
  match readValue (text.toList.length + 1) text.toList with
  | some (value, rest) => if (skipSpace rest).isEmpty then some value else none
  | none => none

end Criteria.Json
