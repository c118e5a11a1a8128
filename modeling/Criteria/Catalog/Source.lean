import Criteria.Catalog.Basic
/-!
Building a catalog from a source that answers one call at a time: the parameters, then the factors of each of them
in order, then the operators. The first call that fails ends the sequence.
-/

namespace Criteria

inductive SourceCall where
  | parameters
  | factors (id : ParameterId)
  | operators
  deriving DecidableEq, Repr

namespace SourceCall

def text : SourceCall → String
  | .parameters => "parameters"
  | .factors id => "factors " ++ toString id.toInt
  | .operators => "operators"

end SourceCall

/-- What each call answers. -/
structure SourceAnswers where
  parameters : Except CatalogError (List ParameterDef)
  factors : ParameterId → Except CatalogError (List FactorDef)
  operators : Except CatalogError (List String)

namespace SourceAnswers

/-- The calls made, and the table without empty lists unless one of them failed. -/
def fetchFactors (answers : SourceAnswers) (table : FactorTable) :
    List ParameterDef → List SourceCall × Except CatalogError FactorTable
  | [] => ([], .ok table)
  | parameter :: rest =>
    match answers.factors parameter.id with
    | .error error => ([.factors parameter.id], .error error)
    | .ok factors =>
      let table := if factors.isEmpty then table else table.insert parameter.id factors
      let (calls, result) := answers.fetchFactors table rest
      (.factors parameter.id :: calls, result)

/-- The calls made and what comes of them. The catalog is built only when every call has succeeded. -/
def fetch (answers : SourceAnswers) : List SourceCall × Except CatalogError Catalog :=
  match answers.parameters with
  | .error error => ([.parameters], .error error)
  | .ok parameters =>
    match answers.fetchFactors .empty parameters with
    | (calls, .error error) => (.parameters :: calls, .error error)
    | (calls, .ok factors) =>
      (.parameters :: calls ++ [.operators],
        match answers.operators with
        | .error error => .error error
        | .ok operators => Catalog.build parameters factors operators)

end SourceAnswers

/-- A source of which a call that fails gives just its reason. -/
structure CatalogSource where
  parameters : Except String (List ParameterDef)
  factors : ParameterId → Except String (List FactorDef)
  operators : Except String (List String)

namespace CatalogSource

def answers (source : CatalogSource) : SourceAnswers where
  parameters := source.parameters.mapError .source
  factors := fun id => (source.factors id).mapError .source
  operators := source.operators.mapError .source

def fetch (source : CatalogSource) : List SourceCall × Except CatalogError Catalog := source.answers.fetch

end CatalogSource

end Criteria
