import Criteria.Reading.Run
import Criteria.Grammar
/-!
The first reading of a text, word by word. At each word the longest thing that the catalog knows is taken: a factor
of the parameter in question, a parenthesis, an operator phrase, a parameter name. What is left up to the next such
boundary is a run of factors.
-/

namespace Criteria.Reading

open Text

def setApart (c : Char) : List Char := if c = '(' || c = ')' then [' ', c, ' '] else [c]

/-- The words of a text in which every parenthesis is a word of its own. -/
def expressionWords (text : String) : List String := words (String.ofList (text.toList.flatMap setApart))

variable (catalog : Catalog)

/-- The two spellings of a factor, each with the canonical one. -/
def factorForms (factor : FactorDef) : List (List String × String) :=
  [(expressionWords factor.canonical, factor.canonical), (expressionWords factor.spaced, factor.canonical)]

/-- The longest form; of several the last. -/
def longestForm : List (List String × String) → Option (List String × String) :=
  List.foldl (fun best form =>
    match best with
    | none => some form
    | some longest => if longest.1.length ≤ form.1.length then some form else some longest) none

/-- Right after a parameter and an operator, the longest factor of that parameter that the words begin with.
Letter case counts here. The tokens already passed come last first. -/
def catalogFactor? (passed : List Token) (words : List String) : Option (Nat × String) :=
  match passed with
  | .operator _ :: subject :: _ =>
    if subject.isParameter then
      let forms := (Grammar.factorsOf catalog subject).flatMap factorForms
      (longestForm (forms.filter fun form => !form.1.isEmpty && form.1.isPrefixOf words)).map
        fun form => (form.1.length, form.2)
    else none
  | _ => none

def isBoundary (words : List String) : Bool :=
  match words with
  | [] => true
  | word :: _ => word == "(" || word == ")" || (catalog.matchPhrase? words).isSome

def untilBoundary : List String → List String
  | [] => []
  | word :: rest => if isBoundary catalog (word :: rest) then [] else word :: untilBoundary rest

/-- A run that is as a whole a factor of the governing parameter is kept whole. -/
def runTokens (passed : List Token) (run : String) : List Token :=
  let value := normalizeFactor run
  let known := do
    let parameter ← passed.find? Token.isParameter
    let id ← Grammar.parameterId? catalog parameter
    catalog.findFactor? id value
  if known.isSome then [.factor value] else cutRun run

/-- The tokens that begin at a word, and how many words they take. -/
def tokensAt (passed : List Token) (word : String) (rest : List String) : List Token × Nat :=
  match catalogFactor? catalog passed (word :: rest) with
  | some (count, value) => ([.factor value], count)
  | none =>
    if word = "(" then ([.openParen], 1)
    else if word = ")" then ([.closeParen], 1)
    else match catalog.matchPhrase? (word :: rest) with
      | some (count, .operator symbol) => ([.operator symbol], count)
      | some (count, .logical symbol) => ([.logical symbol], count)
      | none =>
        let run := word :: untilBoundary catalog rest
        match catalog.matchParameter? run with
        | some (count, parameter) => ([.parameter parameter.name (some parameter.id)], count)
        | none => (runTokens catalog passed (unwords run), run.length)

/-- `taken` words at the front belong to tokens that are already read. -/
def scanFrom (passed : List Token) : Nat → List String → List Token
  | _, [] => passed.reverse
  | taken + 1, _ :: rest => scanFrom passed taken rest
  | 0, word :: rest =>
    let (tokens, count) := tokensAt catalog passed word rest
    scanFrom (tokens.reverse ++ passed) (count - 1) rest

def scan (words : List String) : List Token := scanFrom catalog [] 0 words

end Criteria.Reading
