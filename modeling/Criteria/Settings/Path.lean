import Criteria.Settings.Value
import Criteria.Toml.Scalar
import Criteria.Toml.Text
/-!
The way to a setting: through tables by name and through lists by position. A path is written as names with points
between them and positions in brackets behind them.
-/

namespace Criteria

inductive Step where
  | member (name : String)
  /-- Positions below zero count from the end. -/
  | item (position : Int)
  deriving DecidableEq, Repr

namespace SettingValue

/-- A list with an item at the position, and where that is. Empty tables fill the places that were not there. -/
def reach (position : Int) (items : List SettingValue) : List SettingValue × Nat :=
  if 0 ≤ position then
    (items ++ List.replicate (position.natAbs + 1 - items.length) (.table []), position.natAbs)
  else (List.replicate (position.natAbs - items.length) (.table []) ++ items, items.length - position.natAbs)

/-- Lays a value over what stands at the end of a path, and makes the way there where it is missing. -/
def overlayAt (base value : SettingValue) : List Step → SettingValue
  | [] => base.overlay value
  | .member name :: rest => base.putMember name ((base.member name).overlayAt value rest)
  | .item position :: rest =>
    let (items, index) := reach position base.items
    .list (items.modify index (·.overlayAt value rest))

end SettingValue

namespace Step

def isNameCharacter (c : Char) : Bool := c.isAlphanum || c == '_' || c == '-'

def scanName (text : List Char) : Option (String × List Char) :=
  match text.takeWhile isNameCharacter with
  | [] => none
  | name => some (String.ofList name, text.dropWhile isNameCharacter)

def scanNumber (text : List Char) : Option (Nat × List Char) :=
  match text.takeWhile Char.isDigit with
  | [] => none
  | digits => some (Nat.ofDigitChars 10 digits 0, text.dropWhile Char.isDigit)

def scanInteger : List Char → Option (Int × List Char)
  | '-' :: text => (scanNumber text).map fun (size, rest) => (-(size : Int), rest)
  | text => (scanNumber text).map fun (size, rest) => ((size : Int), rest)

/-- A position up to its closing bracket, with spaces around it. -/
def scanPosition (text : List Char) : Option (Int × List Char) := do
  let (position, rest) ← scanInteger (text.dropWhile Toml.isSpace)
  match rest.dropWhile Toml.isSpace with
  | ']' :: rest => (Toml.int64? position).map fun _ => (position, rest)
  | _ => none

/-- Each step starts with a point or an opening bracket. -/
def scanSteps : Nat → List Char → Option (List Step)
  | _, [] => some []
  | fuel + 1, '.' :: text => do
    let (name, rest) ← scanName text
    (scanSteps fuel rest).map (.member name :: ·)
  | fuel + 1, '[' :: text => do
    let (position, rest) ← scanPosition text
    (scanSteps fuel rest).map (.item position :: ·)
  | _, _ => none

/-- The steps of a written path. Any other text is the name of a single member. -/
def ofText (text : List Char) : List Step :=
  (scanSteps (text.length + 1) ('.' :: text)).getD [.member (String.ofList text)]

end Step

end Criteria
