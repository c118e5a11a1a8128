import Criteria.Token.Basic
import Criteria.Text.Words
/-!
What a catalog lists: parameters with their ids, and the factors that a parameter offers. A factor is a single
value, or a range when it has an upper bound that is not blank.
-/

namespace Criteria

structure ParameterDef where
  id : ParameterId
  name : String
  deriving DecidableEq, Repr

structure FactorDef where
  value1 : String
  value2 : Option String
  deriving DecidableEq, Repr

namespace FactorDef

def single (value : String) : FactorDef := ⟨value, none⟩

def range (lower upper : String) : FactorDef := ⟨lower, some upper⟩

/-- The upper bound without the white space around it. -/
def upper? (factor : FactorDef) : Option String :=
  (factor.value2.map Text.trim).filter (!·.isEmpty)

def isRange (factor : FactorDef) : Bool := factor.upper?.isSome

/-- The form that stands in an expression. -/
def canonical (factor : FactorDef) : String :=
  match factor.upper? with
  | some upper => Text.trim factor.value1 ++ "-" ++ upper
  | none => Text.trim factor.value1

/-- The form that shows a range with spaces around its hyphen. -/
def spaced (factor : FactorDef) : String :=
  match factor.upper? with
  | some upper => Text.trim factor.value1 ++ " - " ++ upper
  | none => Text.trim factor.value1

end FactorDef

end Criteria
