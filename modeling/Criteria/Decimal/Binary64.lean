import Criteria.Decimal.Basic
/-!
Binary floating point numbers of 64 bits: the one nearest to a decimal, and the shortest decimal that reads back
as a given one. All arithmetic is exact, on rationals.
-/

namespace Criteria

/-- A finite value is `significand` times two to the `exponent`. -/
inductive Binary64 where
  | finite (negative : Bool) (significand : Nat) (exponent : Int)
  | infinite (negative : Bool)
  | notANumber
  deriving DecidableEq, Repr

namespace Binary64

def leastExponent : Int := -1074

def greatestExponent : Int := 971

def isZero : Binary64 → Bool
  | .finite _ significand _ => significand == 0
  | _ => false

def isInfinite : Binary64 → Bool
  | .infinite _ => true
  | _ => false

/-- Halfway between two integers the even one is taken. -/
def roundHalfEven (value : Rat) : Int :=
  let below := value.floor
  let beyond := value - below
  if beyond < 1 / 2 then below
  else if 1 / 2 < beyond then below + 1
  else if below % 2 = 0 then below else below + 1

/-- The binary exponent at which a positive value has 53 significant bits, or fewer at the lower end. -/
def unitExponent (value : Rat) : Int :=
  let coarse : Int := value.num.natAbs.log2 - value.den.log2
  let exponent := max leastExponent (coarse - 53)
  if value / (2 : Rat) ^ exponent < (2 : Rat) ^ (53 : Int) then exponent else exponent + 1

def nearestPositive (negative : Bool) (value : Rat) : Binary64 :=
  let exponent := unitExponent value
  let significand := (roundHalfEven (value / (2 : Rat) ^ exponent)).toNat
  let (significand, exponent) :=
    if significand = Nat.pow 2 53 then (Nat.pow 2 52, exponent + 1) else (significand, exponent)
  if greatestExponent < exponent then .infinite negative else .finite negative significand exponent

/-- A decimal whose leading digit stands above the 310th place is beyond every finite value, and one whose leading
digit stands below the 330th decimal place is nearest to zero, so no larger power of ten is ever computed. -/
def ofDecimal (number : Decimal) : Binary64 :=
  if number.coefficient = 0 then .finite number.negative 0 0
  else
    let places : Int := (Nat.toDigits 10 number.coefficient).length + number.exponent
    if 310 < places then .infinite number.negative
    else if places < -330 then .finite number.negative 0 0
    else nearestPositive number.negative (number.coefficient * (10 : Rat) ^ number.exponent)

/-- The place of the leading digit of a positive value. -/
def leadingPlace (value : Rat) : Int :=
  let numerator := value.num.natAbs
  if value.den ≤ numerator then (Nat.toDigits 10 (numerator / value.den)).length - 1
  else -((Nat.toDigits 10 ((value.den + numerator - 1) / numerator - 1)).length : Int)

/-- The end of the interval of values that read back lies halfway to the neighbour; below a power of two the
neighbour is half as far. An end itself reads back when the significand is even. -/
def readsBack (significand : Nat) (exponent : Int) (candidate : Rat) : Bool :=
  let unit : Rat := (2 : Rat) ^ exponent
  let narrow := significand = Nat.pow 2 52 ∧ leastExponent < exponent
  let low := (significand - (if narrow then 1 / 4 else 1 / 2)) * unit
  let high := (significand + 1 / 2) * unit
  if significand % 2 = 0 then low ≤ candidate && candidate ≤ high
  else low < candidate && candidate < high

/-- The better of the two neighbours of the value among the decimals with so many digits, if either reads back.
Of two that are equally near the upper one is taken; it may be a power of ten and so have a single digit. -/
def neighbour? (significand : Nat) (exponent : Int) (digits : Nat) : Option (Nat × Int) :=
  let value : Rat := significand * (2 : Rat) ^ exponent
  let place := leadingPlace value + 1 - digits
  let unit : Rat := (10 : Rat) ^ place
  let below := (value / unit).floor.toNat
  let lowFits := readsBack significand exponent (below * unit)
  let highFits := readsBack significand exponent ((below + 1) * unit)
  let lowNearer := value - below * unit < (below + 1) * unit - value
  if lowFits && (lowNearer || !highFits) then some (below, place)
  else if highFits then
    if below + 1 = Nat.pow 10 digits then some (1, place + digits) else some (below + 1, place)
  else none

/-- Seventeen digits always tell two values apart. -/
def shortest (negative : Bool) (significand : Nat) (exponent : Int) : Decimal :=
  let digits := ((List.range 17).findSome? fun n => neighbour? significand exponent (n + 1)).getD (0, 0)
  ⟨negative, digits.1, digits.2⟩

/-- The shortest decimal, written without a power of ten. -/
def text : Binary64 → List Char
  | .finite negative 0 _ => if negative then ['-', '0'] else ['0']
  | .finite negative significand exponent => (shortest negative significand exponent).positional
  | .infinite negative => if negative then "-inf".toList else "inf".toList
  | .notANumber => "NaN".toList

end Binary64

end Criteria
