/-!
The decimal text of a 64-bit integer. Every integer has one spelling: no plus sign, no leading zero, no minus
before zero. Reading accepts exactly what writing produces. Hexadecimal digits may have either letter case.
-/

namespace Criteria.Text

def writeInteger (value : Int64) : List Char := (toString value.toInt).toList

/-- The integer that the digits would stand for, whatever they are. -/
def integerValue : List Char → Int
  | '-' :: digits => -(Nat.ofDigitChars 10 digits 0 : Nat)
  | digits => (Nat.ofDigitChars 10 digits 0 : Nat)

def readInteger (text : List Char) : Option Int64 :=
  let value := Int64.ofInt (integerValue text)
  if writeInteger value = text then some value else none

theorem writeInteger_eq (value : Int64) :
    writeInteger value = (if value.toInt < 0 then ['-'] else []) ++ Nat.toDigits 10 value.toInt.natAbs := by
  unfold writeInteger
  cases value.toInt with
  | ofNat number => exact Nat.toList_repr
  | negSucc number =>
    change ("-" ++ Nat.repr (number + 1)).toList = _
    rw [String.toList_append, Nat.toList_repr, if_pos (Int.negSucc_lt_zero number)]
    rfl

theorem ne_minus_of_mem_toDigits {number : Nat} {c : Char} (member : c ∈ Nat.toDigits 10 number) : c ≠ '-' := by
  rintro rfl
  exact absurd (Nat.isDigit_of_mem_toDigits (by decide) (by decide) member) (by decide)

/-- No character but the minus and the digits occurs. -/
theorem bounds_of_mem_writeInteger {value : Int64} {c : Char} (inside : c ∈ writeInteger value) :
    45 ≤ c.toNat ∧ c.toNat ≤ 57 := by
  rw [writeInteger_eq] at inside
  rcases List.mem_append.mp inside with sign | digit
  · split at sign
    · obtain rfl := List.mem_singleton.mp sign
      decide
    · exact absurd sign List.not_mem_nil
  · have digit := Nat.isDigit_of_mem_toDigits (by decide) (by decide) digit
    simp only [Char.isDigit, Bool.and_eq_true, decide_eq_true_eq] at digit
    exact ⟨Nat.le_trans (by decide) digit.1, digit.2⟩

private theorem integerValue_writeInteger (value : Int64) : integerValue (writeInteger value) = value.toInt := by
  rw [writeInteger_eq]
  split
  · simp only [List.singleton_append, integerValue, Nat.ofDigitChars_ten_toDigits]
    omega
  · rw [List.nil_append]
    unfold integerValue
    split
    next digits same => exact absurd rfl (ne_minus_of_mem_toDigits (same ▸ List.mem_cons_self))
    next =>
      rw [Nat.ofDigitChars_ten_toDigits]
      omega

theorem readInteger_writeInteger (value : Int64) : readInteger (writeInteger value) = some value := by
  unfold readInteger
  have back : Int64.ofInt (integerValue (writeInteger value)) = value := by
    rw [integerValue_writeInteger, Int64.ofInt_toInt]
  simp [back]

def hexDigit? (c : Char) : Option Nat :=
  if '0' ≤ c && c ≤ '9' then some (c.toNat - '0'.toNat)
  else if 'a' ≤ c && c ≤ 'f' then some (c.toNat - 'a'.toNat + 10)
  else if 'A' ≤ c && c ≤ 'F' then some (c.toNat - 'A'.toNat + 10)
  else none

/-- The number that four digits spell. -/
def hexUnit? (a b c d : Char) : Option Nat := do
  let a ← hexDigit? a
  let b ← hexDigit? b
  let c ← hexDigit? c
  let d ← hexDigit? d
  pure (((a * 16 + b) * 16 + c) * 16 + d)

end Criteria.Text
