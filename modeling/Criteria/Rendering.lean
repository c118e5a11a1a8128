import Criteria.Grammar
/-!
The two texts of a token sequence, one part per token with single spaces between them. The display shows parameters
by name; the payload shows them by id, which the catalog must know under exactly that name.
-/

namespace Criteria.Rendering

variable (catalog : Catalog)

/-- The spaced form of a factor that is a range of the governing parameter. -/
def spacedRange? (governing : Option Token) (value : String) : Option String := do
  let parameter ← governing
  let factor ← (Grammar.factorsOf catalog parameter).find? fun factor =>
    factor.isRange && factor.canonical == value
  pure factor.spaced

def displayPart (spaced : Bool) (governing : Option Token) : Token → String
  | .factor value => if spaced then (spacedRange? catalog governing value).getD value else value
  | token => token.text

/-- A factor is displayed as it is, or as the range that the governing parameter offers under its text. -/
theorem displayPart_factor (spaced : Bool) (governing : Option Token) (value : String) :
    displayPart catalog spaced governing (.factor value) = value ∨
      ∃ subject, governing = some subject ∧ ∃ factor ∈ Grammar.factorsOf catalog subject,
        factor.isRange = true ∧ factor.canonical = value ∧
          displayPart catalog spaced governing (.factor value) = factor.spaced := by
  simp only [displayPart]
  split
  next =>
    cases ranged : spacedRange? catalog governing value with
    | none => exact .inl rfl
    | some shown =>
      simp only [spacedRange?, Option.bind_eq_bind, Option.bind_eq_some_iff, Option.pure_def,
        Option.some.injEq] at ranged
      obtain ⟨subject, governs, factor, found, rfl⟩ := ranged
      have same := List.find?_some found
      simp only [Bool.and_eq_true, beq_iff_eq] at same
      exact .inr ⟨subject, governs, factor, List.mem_of_find?_eq_some found, same.1, same.2, rfl⟩
  next => exact .inl rfl

/-- `governing` is the last parameter before the tokens. -/
def displayParts (spaced : Bool) (governing : Option Token) : List Token → List String
  | [] => []
  | token :: rest =>
    displayPart catalog spaced governing token ::
      displayParts spaced (if token.isParameter then some token else governing) rest

def display (spaced : Bool) (tokens : List Token) : String :=
  Text.unwords (displayParts catalog spaced none tokens)

def resolve (name : String) (id : Option ParameterId) : Except ExpressionError ParameterId :=
  match (id.bind catalog.parameter?).filter (·.name == name) with
  | some parameter => .ok parameter.id
  | none => .error (.unresolvedParameter name)

def payloadPart (index : Nat) : Token → Except ExpressionError String
  | .parameter name id => (resolve catalog name id).map fun id => String.ofList (Text.writeInteger id)
  | .unknown text => .error (.ambiguousText index text)
  | token => .ok token.text

def payloadParts (index : Nat) : List Token → Except ExpressionError (List String)
  | [] => .ok []
  | token :: rest => do
    let part ← payloadPart catalog index token
    let parts ← payloadParts (index + 1) rest
    pure (part :: parts)

/-- The first token without a part decides the error. -/
def payload (tokens : List Token) : Except ExpressionError String :=
  (payloadParts catalog 0 tokens).map Text.unwords

end Rendering

structure RenderedExpression where
  display : String
  payload : String
  deriving DecidableEq, Repr

def Rendering.render (catalog : Catalog) (spaced : Bool) (tokens : List Token) :
    Except ExpressionError RenderedExpression :=
  (Rendering.payload catalog tokens).map fun payload => ⟨Rendering.display catalog spaced tokens, payload⟩

end Criteria
