/-!
Decimal numbers as texts spell them: a sign, a coefficient and a power of ten.
-/

namespace Criteria

structure Decimal where
  negative : Bool
  coefficient : Nat
  exponent : Int
  deriving DecidableEq, Repr

namespace Decimal

/-- Splits a leading sign off; true means minus. -/
def splitSign : List Char → Bool × List Char
  | '-' :: rest => (true, rest)
  | '+' :: rest => (false, rest)
  | rest => (false, rest)

def readExponent : List Char → Option Int
  | [] => some 0
  | c :: rest =>
    if c == 'e' || c == 'E' then
      let (negative, digits) := splitSign rest
      if digits.isEmpty || !digits.all Char.isDigit then none
      else
        let size : Int := Nat.ofDigitChars 10 digits 0
        some (if negative then -size else size)
    else none

/-- Digits with an optional point among, before or after them, and an optional power of ten. -/
def read (text : List Char) : Option Decimal :=
  let (negative, magnitude) := splitSign text
  let whole := magnitude.takeWhile Char.isDigit
  let afterWhole := magnitude.dropWhile Char.isDigit
  let (fraction, tail) := match afterWhole with
    | '.' :: rest => (rest.takeWhile Char.isDigit, rest.dropWhile Char.isDigit)
    | rest => ([], rest)
  if whole.isEmpty && fraction.isEmpty then none
  else (readExponent tail).map fun exponent =>
    ⟨negative, Nat.ofDigitChars 10 (whole ++ fraction) 0, exponent - fraction.length⟩

/-- Without a power of ten: zeros fill up to the point, on whichever side it lies. -/
def positional (number : Decimal) : List Char :=
  let digits := Nat.toDigits 10 number.coefficient
  let sign := if number.negative then ['-'] else []
  if 0 ≤ number.exponent then
    sign ++ digits ++ (if number.coefficient = 0 then [] else List.replicate number.exponent.toNat '0')
  else
    let places := number.exponent.natAbs
    let padded := List.replicate (places + 1 - digits.length) '0' ++ digits
    sign ++ padded.take (padded.length - places) ++ '.' :: padded.drop (padded.length - places)

end Decimal

end Criteria
