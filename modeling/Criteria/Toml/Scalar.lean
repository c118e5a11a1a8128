import Criteria.Settings.Value
import Criteria.Text.Integer
import Criteria.Toml.Moment
/-!
The values of TOML that are single words: booleans, integers, floating point numbers, dates and times. A single
underscore may stand between two digits of a number. Dates and times become text.
-/

namespace Criteria.Toml

/-- Takes underscores out; there is a digit on either side of each. -/
def ungroup (isDigit : Char → Bool) : List Char → Option (List Char)
  | [] => none
  | [c] => if isDigit c then some [c] else none
  | c :: '_' :: rest => if isDigit c then (ungroup isDigit rest).map (c :: ·) else none
  | c :: rest => if isDigit c then (ungroup isDigit rest).map (c :: ·) else none

def digitValue? (base : Nat) (c : Char) : Option Nat := (Text.hexDigit? c).filter (· < base)

def int64? (value : Int) : Option Int64 :=
  if -Int.pow 2 63 ≤ value && value < Int.pow 2 63 then some (Int64.ofInt value) else none

def basedInteger? (base : Nat) (digits : List Char) : Option Int64 := do
  let digits ← ungroup (fun c => (digitValue? base c).isSome) digits
  let values ← digits.mapM (digitValue? base)
  int64? (values.foldl (fun total value => total * base + value) 0 : Nat)

def hasNoLeadingZero : List Char → Bool
  | '0' :: _ :: _ => false
  | _ => true

def decimalInteger? (word : List Char) : Option Int64 := do
  let (negative, digits) := Decimal.splitSign word
  let digits ← ungroup Char.isDigit digits
  if hasNoLeadingZero digits then
    let size : Int := Nat.ofDigitChars 10 digits 0
    int64? (if negative then -size else size)
  else none

def integer? : List Char → Option Int64
  | '0' :: 'x' :: digits => basedInteger? 16 digits
  | '0' :: 'o' :: digits => basedInteger? 8 digits
  | '0' :: 'b' :: digits => basedInteger? 2 digits
  | word => decimalInteger? word

/-- A whole number, then a fraction or a power of ten or both. A number too large to be finite is refused. -/
def float? (word : List Char) : Option Binary64 := do
  let (negative, magnitude) := Decimal.splitSign word
  if magnitude = "inf".toList then pure (.infinite negative)
  else if magnitude = "nan".toList then pure .notANumber
  else
    let isPart (c : Char) : Bool := c != '.' && c != 'e' && c != 'E'
    let whole ← ungroup Char.isDigit (magnitude.takeWhile isPart)
    let tail := magnitude.dropWhile isPart
    let (fraction, power) ← match tail with
      | '.' :: rest =>
        (ungroup Char.isDigit (rest.takeWhile isPart)).map fun digits => ('.' :: digits, rest.dropWhile isPart)
      | rest => some ([], rest)
    let power ← match power with
      | [] => some []
      | mark :: rest =>
        if mark == '.' then none
        else
          let (negative, digits) := Decimal.splitSign rest
          (ungroup Char.isDigit digits).map fun digits => ['e', if negative then '-' else '+'] ++ digits
    if !hasNoLeadingZero whole || tail.isEmpty then none
    else
      let number ← Decimal.read (whole ++ fraction ++ power)
      let value := Binary64.ofDecimal { number with negative := negative }
      if value.isInfinite then none else some value

def momentText? (word : List Char) : Option SettingValue :=
  (moment? word).map fun moment => .text (String.ofList moment.text)

def scalar? (word : List Char) : Option SettingValue :=
  if word = "true".toList then some (.boolean true)
  else if word = "false".toList then some (.boolean false)
  else match integer? word with
    | some value => some (.integer value)
    | none =>
      match float? word with
      | some value => some (.float value)
      | none => momentText? word

end Criteria.Toml
