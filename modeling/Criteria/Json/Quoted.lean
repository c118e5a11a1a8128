import Criteria.Text.Integer
/-!
The text of a JSON string: what may stand between quotes, the characters it stands for, and the spelling that is
written. A unit above the basic plane is spelled as a pair of surrogates; half a pair stands for nothing.
-/

namespace Criteria.Json

open Text (hexUnit?)

def shortEscape? : Char → Option Char
  | '"' => some '"'
  | '\\' => some '\\'
  | '/' => some '/'
  | 'b' => some '\x08'
  | 'f' => some '\x0c'
  | 'n' => some '\n'
  | 'r' => some '\r'
  | 't' => some '\t'
  | _ => none

/-- Splits after the closing quote. Escapes are checked for their form only. -/
def scanQuoted : List Char → Option (List Char × List Char)
  | [] => none
  | '"' :: rest => some ([], rest)
  | '\\' :: 'u' :: a :: b :: c :: d :: rest =>
    match hexUnit? a b c d, scanQuoted rest with
    | some _, some (body, after) => some ('\\' :: 'u' :: a :: b :: c :: d :: body, after)
    | _, _ => none
  | '\\' :: escape :: rest =>
    match shortEscape? escape, scanQuoted rest with
    | some _, some (body, after) => some ('\\' :: escape :: body, after)
    | _, _ => none
  | c :: rest =>
    if c < ' ' || c == '\\' then none
    else match scanQuoted rest with
      | some (body, after) => some (c :: body, after)
      | none => none

def isHighSurrogate (unit : Nat) : Bool := 0xD800 ≤ unit && unit ≤ 0xDBFF

def isLowSurrogate (unit : Nat) : Bool := 0xDC00 ≤ unit && unit ≤ 0xDFFF

def pairedCharacter (high low : Nat) : Char :=
  Char.ofNat (0x10000 + (high - 0xD800) * 0x400 + (low - 0xDC00))

/-- The characters that the text between the quotes stands for. -/
def unescape : List Char → Option (List Char)
  | [] => some []
  | '\\' :: 'u' :: a :: b :: c :: d :: rest =>
    match hexUnit? a b c d with
    | none => none
    | some unit =>
      if isHighSurrogate unit then
        match rest with
        | '\\' :: 'u' :: e :: f :: g :: h :: after =>
          match hexUnit? e f g h with
          | none => none
          | some low =>
            if isLowSurrogate low then (unescape after).map (pairedCharacter unit low :: ·) else none
        | _ => none
      else if isLowSurrogate unit then none
      else (unescape rest).map (Char.ofNat unit :: ·)
  | '\\' :: escape :: rest =>
    match shortEscape? escape with
    | none => none
    | some c => (unescape rest).map (c :: ·)
  | c :: rest => if c == '\\' then none else (unescape rest).map (c :: ·)

/-- The letter that spells the character behind a backslash. -/
def shortSpelling? : Char → Option Char
  | '"' => some '"'
  | '\\' => some '\\'
  | '\x08' => some 'b'
  | '\x0c' => some 'f'
  | '\n' => some 'n'
  | '\r' => some 'r'
  | '\t' => some 't'
  | _ => none

def escapeCharacter (c : Char) : List Char :=
  match shortSpelling? c with
  | some letter => ['\\', letter]
  | none =>
    if c < ' ' then ['\\', 'u', '0', '0', Nat.digitChar (c.toNat / 16), Nat.digitChar (c.toNat % 16)]
    else [c]

/-- A quote, a backslash and the control characters are escaped; everything else stands for itself. -/
def escape (text : List Char) : List Char := text.flatMap escapeCharacter

private theorem shortEscape?_of_shortSpelling? {c letter : Char} (short : shortSpelling? c = some letter) :
    shortEscape? letter = some c ∧ letter ≠ 'u' := by
  unfold shortSpelling? at short
  split at short <;> cases short <;> decide

private theorem ne_of_shortSpelling?_eq_none {c : Char} (long : shortSpelling? c = none) : c ≠ '"' ∧ c ≠ '\\' := by
  constructor <;> rintro rfl <;> cases long

private theorem control_lt {c : Char} (control : c < ' ') : c.toNat < 32 := control

private theorem scan_control {code : Nat} (bound : code < 32) (rest : List Char) :
    scanQuoted (['\\', 'u', '0', '0', Nat.digitChar (code / 16), Nat.digitChar (code % 16)] ++ rest) =
      (scanQuoted rest).map fun (body, after) =>
        (['\\', 'u', '0', '0', Nat.digitChar (code / 16), Nat.digitChar (code % 16)] ++ body, after) := by
  have unit : ∀ code < 32, hexUnit? '0' '0' (Nat.digitChar (code / 16)) (Nat.digitChar (code % 16)) = some code := by
    decide
  simp only [List.cons_append, List.nil_append, scanQuoted, unit code bound]
  cases scanQuoted rest <;> rfl

private theorem unescape_control {code : Nat} (bound : code < 32) (rest : List Char) :
    unescape (['\\', 'u', '0', '0', Nat.digitChar (code / 16), Nat.digitChar (code % 16)] ++ rest) =
      (unescape rest).map (Char.ofNat code :: ·) := by
  have unit : ∀ code < 32, hexUnit? '0' '0' (Nat.digitChar (code / 16)) (Nat.digitChar (code % 16)) = some code := by
    decide
  have plain : ∀ code < 32, isHighSurrogate code = false ∧ isLowSurrogate code = false := by decide
  simp [unescape, unit code bound, plain code bound]

private theorem scan_short {c letter : Char} (short : shortSpelling? c = some letter) (rest : List Char) :
    scanQuoted ('\\' :: letter :: rest) = (scanQuoted rest).map fun (body, after) => ('\\' :: letter :: body, after) := by
  obtain ⟨known, other⟩ := shortEscape?_of_shortSpelling? short
  rw [scanQuoted]
  · rw [known]
    cases scanQuoted rest <;> rfl
  · intro _ _ _ _ _ same
    exact absurd same other

private theorem unescape_short {c letter : Char} (short : shortSpelling? c = some letter) (rest : List Char) :
    unescape ('\\' :: letter :: rest) = (unescape rest).map (c :: ·) := by
  obtain ⟨known, other⟩ := shortEscape?_of_shortSpelling? short
  rw [unescape]
  · rw [known]
  · intro _ _ _ _ _ same
    exact absurd same other

private theorem scan_plain {c : Char} (quote : c ≠ '"') (backslash : c ≠ '\\') (visible : ¬ c < ' ')
    (rest : List Char) :
    scanQuoted (c :: rest) = (scanQuoted rest).map fun (body, after) => (c :: body, after) := by
  rw [scanQuoted.eq_def]
  split <;> simp_all
  next later _ _ =>
    rw [if_neg (Char.not_lt.mpr visible)]
    cases scanQuoted later <;> rfl

private theorem unescape_plain {c : Char} (backslash : c ≠ '\\') (rest : List Char) :
    unescape (c :: rest) = (unescape rest).map (c :: ·) := by
  rw [unescape.eq_def]
  split <;> simp_all

theorem scanQuoted_escape (text rest : List Char) :
    scanQuoted (escape text ++ '"' :: rest) = some (escape text, rest) := by
  induction text with
  | nil => simp [escape, scanQuoted]
  | cons c later ih =>
    rw [show escape (c :: later) = escapeCharacter c ++ escape later from rfl, List.append_assoc]
    unfold escapeCharacter
    split
    next letter short =>
      rw [List.cons_append, List.singleton_append, scan_short short, ih]
      rfl
    next long =>
      obtain ⟨quote, backslash⟩ := ne_of_shortSpelling?_eq_none long
      split
      next control => rw [scan_control (control_lt control), ih, Option.map_some]
      next visible =>
        rw [List.singleton_append, scan_plain quote backslash visible, ih]
        rfl

/-- What is written stands for the text it was written for. -/
theorem unescape_escape (text : List Char) : unescape (escape text) = some text := by
  induction text with
  | nil => rfl
  | cons c later ih =>
    rw [show escape (c :: later) = escapeCharacter c ++ escape later from rfl]
    unfold escapeCharacter
    split
    next letter short =>
      rw [List.cons_append, List.singleton_append, unescape_short short, ih]
      rfl
    next long =>
      split
      next control => rw [unescape_control (control_lt control), ih, Option.map_some, Char.ofNat_toNat]
      next visible =>
        rw [List.singleton_append, unescape_plain (ne_of_shortSpelling?_eq_none long).2, ih]
        rfl

end Criteria.Json
