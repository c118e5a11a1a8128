import Criteria.Text.Integer
/-!
The four forms of strings in TOML: on one line or over several, with escapes or without. Each scanner starts after
the opening quotes and leaves what follows the closing ones.
-/

namespace Criteria.Toml

/-- Control characters do not stand in a document, the tab and line ends excepted. -/
def isControl (c : Char) : Bool := (c < ' ' && c != '\t') || c == '\x7f'

def isSpace (c : Char) : Bool := c == ' ' || c == '\t'

def shortEscape? : Char → Option Char
  | '"' => some '"'
  | '\\' => some '\\'
  | 'b' => some '\x08'
  | 'e' => some '\x1b'
  | 'f' => some '\x0c'
  | 'n' => some '\n'
  | 'r' => some '\r'
  | 't' => some '\t'
  | _ => none

/-- Surrogates and numbers beyond the last code point are no characters. -/
def character? (code : Nat) : Option Char :=
  if code.isValidChar then some (Char.ofNat code) else none

def byteCharacter? (a b : Char) : Option Char := (Text.hexUnit? '0' '0' a b).bind character?

def shortCharacter? (a b c d : Char) : Option Char := (Text.hexUnit? a b c d).bind character?

def longCharacter? (a b c d e f g h : Char) : Option Char := do
  let high ← Text.hexUnit? a b c d
  let low ← Text.hexUnit? e f g h
  character? (high * 0x10000 + low)

def prepend (c : Option Char) (scanned : Option (List Char × List Char)) : Option (List Char × List Char) :=
  match c, scanned with
  | some c, some (text, after) => some (c :: text, after)
  | _, _ => none

def scanBasic : List Char → Option (List Char × List Char)
  | [] => none
  | '"' :: rest => some ([], rest)
  | '\\' :: 'x' :: a :: b :: rest => prepend (byteCharacter? a b) (scanBasic rest)
  | '\\' :: 'u' :: a :: b :: c :: d :: rest => prepend (shortCharacter? a b c d) (scanBasic rest)
  | '\\' :: 'U' :: a :: b :: c :: d :: e :: f :: g :: h :: rest =>
    prepend (longCharacter? a b c d e f g h) (scanBasic rest)
  | '\\' :: escape :: rest => prepend (shortEscape? escape) (scanBasic rest)
  | c :: rest => if isControl c || c == '\\' then none else prepend (some c) (scanBasic rest)

def scanLiteral : List Char → Option (List Char × List Char)
  | [] => none
  | '\'' :: rest => some ([], rest)
  | c :: rest => if isControl c then none else prepend (some c) (scanLiteral rest)

def startsLine : List Char → Bool
  | '\n' :: _ => true
  | '\r' :: '\n' :: _ => true
  | _ => false

/-- Line ends are kept as they are written. A backslash at the end of a line joins the next text to it; `joining` says
that this is under way. Up to two quotes may stand before the closing ones. -/
def scanBasicLines (joining : Bool) : List Char → Option (List Char × List Char)
  | [] => none
  | '"' :: '"' :: '"' :: '"' :: '"' :: rest => some (['"', '"'], rest)
  | '"' :: '"' :: '"' :: '"' :: rest => some (['"'], rest)
  | '"' :: '"' :: '"' :: rest => some ([], rest)
  | '\r' :: '\n' :: rest =>
    if joining then scanBasicLines true rest
    else prepend (some '\r') (prepend (some '\n') (scanBasicLines false rest))
  | '\\' :: 'x' :: a :: b :: rest => prepend (byteCharacter? a b) (scanBasicLines false rest)
  | '\\' :: 'u' :: a :: b :: c :: d :: rest => prepend (shortCharacter? a b c d) (scanBasicLines false rest)
  | '\\' :: 'U' :: a :: b :: c :: d :: e :: f :: g :: h :: rest =>
    prepend (longCharacter? a b c d e f g h) (scanBasicLines false rest)
  | '\\' :: escape :: rest =>
    if startsLine ((escape :: rest).dropWhile isSpace) then scanBasicLines true (escape :: rest)
    else prepend (shortEscape? escape) (scanBasicLines false rest)
  | c :: rest =>
    if joining && (isSpace c || c == '\n') then scanBasicLines true rest
    else if (isControl c && c != '\n') || c == '\\' then none
    else prepend (some c) (scanBasicLines false rest)

def scanLiteralLines : List Char → Option (List Char × List Char)
  | [] => none
  | '\'' :: '\'' :: '\'' :: '\'' :: '\'' :: rest => some (['\'', '\''], rest)
  | '\'' :: '\'' :: '\'' :: '\'' :: rest => some (['\''], rest)
  | '\'' :: '\'' :: '\'' :: rest => some ([], rest)
  | '\r' :: '\n' :: rest => prepend (some '\r') (prepend (some '\n') (scanLiteralLines rest))
  | c :: rest => if isControl c && c != '\n' then none else prepend (some c) (scanLiteralLines rest)

/-- A line end right after the opening quotes is not part of the text. -/
def dropFirstLineEnd : List Char → List Char
  | '\n' :: rest => rest
  | '\r' :: '\n' :: rest => rest
  | text => text

/-- Reads the string that the text starts with, if it starts with a quote. -/
def scanString : List Char → Option (List Char × List Char)
  | '"' :: '"' :: '"' :: rest => scanBasicLines false (dropFirstLineEnd rest)
  | '"' :: rest => scanBasic rest
  | '\'' :: '\'' :: '\'' :: rest => scanLiteralLines (dropFirstLineEnd rest)
  | '\'' :: rest => scanLiteral rest
  | _ => none

end Criteria.Toml
