/-!
Dates and times of day in TOML, alone or together, with or without the distance from universal time. Each has one
written form, whatever the document wrote: a capital `T` between date and time, a capital `Z`, and fractions of a
second without zeros at their end.
-/

namespace Criteria.Toml

structure Date where
  year : Nat
  month : Nat
  day : Nat
  deriving DecidableEq, Repr

structure Time where
  hour : Nat
  minute : Nat
  /-- The seconds, which may be left out, and the nanoseconds if a fraction is given. -/
  second : Option (Nat × Option Nat)
  deriving DecidableEq, Repr

inductive Offset where
  | universal
  /-- The minutes that local time is ahead of universal time. -/
  | ahead (minutes : Int)
  deriving DecidableEq, Repr

inductive Moment where
  | date (date : Date)
  | time (time : Time)
  | dateTime (date : Date) (time : Time) (offset : Option Offset)
  deriving DecidableEq, Repr

def isLeapYear (year : Nat) : Bool := year % 4 == 0 && (year % 100 != 0 || year % 400 == 0)

def monthLength (year month : Nat) : Nat :=
  if month = 2 then if isLeapYear year then 29 else 28
  else if month ∈ [4, 6, 9, 11] then 30
  else 31

def Date.isValid (date : Date) : Bool :=
  1 ≤ date.month && date.month ≤ 12 && 1 ≤ date.day && date.day ≤ monthLength date.year date.month

/-- A leap second counts as the second 60 of any minute. -/
def Time.isValid (time : Time) : Bool :=
  time.hour ≤ 23 && time.minute ≤ 59 && time.second.all fun (second, _) => second ≤ 60

/-- The number that the digits at the front spell. There are exactly as many as the width says. -/
def scanDigits (width : Nat) (text : List Char) : Option (Nat × List Char) :=
  if (text.takeWhile Char.isDigit).length = width then
    some (Nat.ofDigitChars 10 (text.takeWhile Char.isDigit) 0, text.dropWhile Char.isDigit)
  else none

def scanDate (text : List Char) : Option (Date × List Char) :=
  match scanDigits 4 text with
  | some (year, '-' :: text) =>
    match scanDigits 2 text with
    | some (month, '-' :: text) => (scanDigits 2 text).map fun (day, rest) => (⟨year, month, day⟩, rest)
    | _ => none
  | _ => none

/-- Two numbers of two digits each with a colon between them. -/
def scanClock (text : List Char) : Option (Nat × Nat × List Char) :=
  match scanDigits 2 text with
  | some (hour, ':' :: text) => (scanDigits 2 text).map fun (minute, rest) => (hour, minute, rest)
  | _ => none

/-- Digits beyond the ninth are cut off. -/
def nanoseconds (digits : List Char) : Nat := Nat.ofDigitChars 10 ((digits.take 9).rightpad 9 '0') 0

def scanTime (text : List Char) : Option (Time × List Char) :=
  match scanClock text with
  | none => none
  | some (hour, minute, ':' :: text) =>
    match scanDigits 2 text with
    | none => none
    | some (second, '.' :: rest) =>
      match rest.takeWhile Char.isDigit with
      | [] => none
      | digits => some (⟨hour, minute, some (second, some (nanoseconds digits))⟩, rest.dropWhile Char.isDigit)
    | some (second, rest) => some (⟨hour, minute, some (second, none)⟩, rest)
  | some (hour, minute, rest) => some (⟨hour, minute, none⟩, rest)

/-- What may follow a date and a time: nothing, the mark of universal time, or the distance from it. -/
def offset? : List Char → Option (Option Offset)
  | [] => some none
  | ['Z'] => some (some .universal)
  | ['z'] => some (some .universal)
  | sign :: rest =>
    match scanClock rest with
    | some (hours, minutes, []) =>
      if 23 < hours || 59 < minutes then none
      else if sign == '+' then some (some (.ahead (hours * 60 + minutes : Nat)))
      else if sign == '-' then some (some (.ahead (-(hours * 60 + minutes : Nat))))
      else none
    | _ => none

def separatesTime (c : Char) : Bool := c == 'T' || c == 't' || c == ' '

def dateTime? (date : Date) (text : List Char) : Option Moment :=
  match scanTime text with
  | some (time, rest) => if time.isValid then (offset? rest).map (.dateTime date time) else none
  | none => none

def moment? (word : List Char) : Option Moment :=
  match scanDate word with
  | some (date, []) => if date.isValid then some (.date date) else none
  | some (date, c :: rest) => if date.isValid && separatesTime c then dateTime? date rest else none
  | none =>
    match scanTime word with
    | some (time, []) => if time.isValid then some (.time time) else none
    | _ => none

/-- The digits of the number, with zeros before them up to the width. -/
def padded (width number : Nat) : List Char := (Nat.toDigits 10 number).leftpad width '0'

/-- The digits of a fraction of a second. One zero is left of nothing but zeros. -/
def fractionDigits (nanosecond : Nat) : List Char :=
  match ((padded 9 nanosecond).reverse.dropWhile (· == '0')).reverse with
  | [] => ['0']
  | digits => digits

def clockText (hour minute : Nat) : List Char := padded 2 hour ++ ':' :: padded 2 minute

def Date.text (date : Date) : List Char :=
  padded 4 date.year ++ '-' :: padded 2 date.month ++ '-' :: padded 2 date.day

def Time.text (time : Time) : List Char :=
  clockText time.hour time.minute ++
    match time.second with
    | none => []
    | some (second, none) => ':' :: padded 2 second
    | some (second, some nanosecond) => ':' :: padded 2 second ++ '.' :: fractionDigits nanosecond

def Offset.text : Offset → List Char
  | .universal => ['Z']
  | .ahead minutes =>
    (if minutes < 0 then '-' else '+') :: clockText (minutes.natAbs / 60) (minutes.natAbs % 60)

def Moment.text : Moment → List Char
  | .date day => day.text
  | .time clock => clock.text
  | .dateTime day clock none => day.text ++ 'T' :: clock.text
  | .dateTime day clock (some offset) => day.text ++ 'T' :: clock.text ++ offset.text

end Criteria.Toml
