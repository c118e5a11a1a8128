import Criteria.Text.CharacterSet
import Criteria.Text.Words
import Criteria.Token.Basic
/-!
Runs of words that are neither a parameter nor an operator. A run is cut at every logical operator that stands
between word boundaries; what lies between the cuts are factors. In a factor white space is collapsed, and a range
spelled with spaces around its hyphen is closed up.
-/

namespace Criteria.Reading

open Text

/-- Two words around a hyphen that stands alone are joined by it; any other text stays as it is. -/
def closeRange (text : List Char) : List Char :=
  let lower := text.takeWhile (!isBlank ·)
  match (text.dropWhile (!isBlank ·)).dropWhile isBlank with
  | '-' :: rest =>
    let upper := rest.dropWhile isBlank
    if !lower.isEmpty && rest.head?.any isBlank && !upper.isEmpty && upper.all (!isBlank ·) then
      lower ++ '-' :: upper
    else text
  | _ => text

def normalizeFactor (text : String) : String := String.ofList (closeRange (collapse text).toList)

/-- The longest pieces that consist of word characters only or of other characters only. -/
def blocks (run : List Char) : List (List Char) :=
  run.splitBy fun left right => isWordCharacter left == isWordCharacter right

def isLogicalWord (block : List Char) : Bool :=
  let lowered := block.map Char.toLower
  lowered == ['a', 'n', 'd'] || lowered == ['o', 'r']

/-- A part that is blank yields nothing. -/
def factorPart (part : List Char) : List Token :=
  let trimmed := trimBlank part
  if trimmed.isEmpty then [] else [.factor (normalizeFactor (String.ofList trimmed))]

/-- `pending` is the text since the last cut. -/
def cutBlocks (pending : List Char) : List (List Char) → List Token
  | [] => factorPart pending
  | block :: rest =>
    if isLogicalWord block then factorPart pending ++ .logical (String.ofList block) :: cutBlocks [] rest
    else cutBlocks (pending ++ block) rest

def cutRun (run : String) : List Token := cutBlocks [] (blocks run.toList)

end Criteria.Reading
