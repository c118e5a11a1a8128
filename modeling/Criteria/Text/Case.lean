import Criteria.Text.CaseTable
/-!
Letter case of whole texts. Every character is mapped on its own, except that a capital sigma becomes a final
sigma where a word ends. A comparison that ignores the case of ASCII letters stands beside the full mappings.
-/

namespace Criteria.Text

def lowerCharacter (c : Char) : List Char :=
  if c = 'İ' then ['i', '\u0307']
  else match CaseRun.image? lowerRuns c.toNat with
    | some code => [Char.ofNat code]
    | none => [c]

def upperCharacter (c : Char) : List Char :=
  match upperExpansions.lookup c.toNat with
  | some codes => codes.map Char.ofNat
  | none =>
    match CaseRun.image? upperRuns c.toNat with
    | some code => [Char.ofNat code]
    | none => [c]

/-- Whether a cased letter is met first, once the characters that letter case ignores are skipped. -/
def meetsCased (cs : List Char) : Bool :=
  match cs.dropWhile caseIgnorableCharacters.contains with
  | [] => false
  | c :: _ => casedCharacters.contains c

/-- `before` holds the characters already passed, the nearest first. -/
def lowerAfter (before : List Char) : List Char → List Char
  | [] => []
  | c :: rest =>
    let lowered :=
      if c = 'Σ' then (if meetsCased before && !meetsCased rest then ['ς'] else ['σ'])
      else lowerCharacter c
    lowered ++ lowerAfter (c :: before) rest

def lowercase (text : String) : String := String.ofList (lowerAfter [] text.toList)

def uppercase (text : String) : String := String.ofList (text.toList.flatMap upperCharacter)

/-- Equality up to the case of the letters a to z. -/
def sameIgnoringAsciiCase (left right : String) : Bool :=
  left.toList.map Char.toLower == right.toList.map Char.toLower

theorem toList_lowercase (text : String) : (lowercase text).toList = lowerAfter [] text.toList :=
  String.toList_ofList

theorem toList_uppercase (text : String) : (uppercase text).toList = text.toList.flatMap upperCharacter :=
  String.toList_ofList

theorem sameIgnoringAsciiCase_iff {left right : String} :
    sameIgnoringAsciiCase left right = true ↔ left.toList.map Char.toLower = right.toList.map Char.toLower :=
  beq_iff_eq

end Criteria.Text
