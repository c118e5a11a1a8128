import Criteria.Association
import Criteria.Catalog.Snapshot
import Criteria.Error
import Criteria.PhraseTrie
/-!
The catalog: parameters, their factors and the operators, with the indexes that lookups use. Names and operators
are found without regard to letter case and spacing. The two logical operators come before all others, so no
operator of the catalog can take their place.
-/

namespace Criteria

inductive Phrase where
  | operator (symbol : String)
  | logical (symbol : String)
  deriving DecidableEq, Repr

structure Catalog where
  parameters : List ParameterDef
  /-- The position of each parameter under its id. -/
  byId : List (ParameterId × Fin parameters.length)
  /-- The position of each parameter under its name. -/
  names : PhraseTrie (Fin parameters.length)
  factors : FactorTable
  operators : List String
  phrases : PhraseTrie Phrase

namespace Catalog

def logicalOperators : List String := ["AND", "OR"]

/-- The parameters at these positions are indexed one after another, each checked against the index so far: its id
first, then its name. -/
def indexParameters {parameters : List ParameterDef} (byId : List (ParameterId × Fin parameters.length))
    (names : PhraseTrie (Fin parameters.length)) : List (Fin parameters.length) →
      Except CatalogError (List (ParameterId × Fin parameters.length) × PhraseTrie (Fin parameters.length))
  | [] => .ok (byId, names)
  | index :: rest =>
    let parameter := parameters.get index
    if (byId.lookup parameter.id).isSome then .error (.duplicateId parameter.id)
    else match names.insert? parameter.name index with
      | none => .error (.duplicateName parameter.name)
      | some names => indexParameters (Association.put parameter.id index byId) names rest

def logicalPhrases : PhraseTrie Phrase :=
  logicalOperators.foldl (fun phrases symbol => (phrases.insert? symbol (.logical symbol)).getD phrases) .empty

/-- Keeps the operators that are neither blank nor known already, with their white space collapsed. -/
def indexOperators (phrases : PhraseTrie Phrase) : List String → List String × PhraseTrie Phrase
  | [] => ([], phrases)
  | operator :: rest =>
    let symbol := Text.collapse operator
    match phrases.insert? symbol (.operator symbol) with
    | none => indexOperators phrases rest
    | some phrases =>
      let (kept, phrases) := indexOperators phrases rest
      (symbol :: kept, phrases)

def build (parameters : List ParameterDef) (factors : FactorTable) (operators : List String) :
    Except CatalogError Catalog := do
  let (byId, names) ← indexParameters [] .empty (List.finRange parameters.length)
  let (kept, phrases) := indexOperators logicalPhrases operators
  pure { parameters, byId, names, factors, operators := kept, phrases }

def ofSnapshot (snapshot : Snapshot) : Except CatalogError Catalog :=
  build snapshot.parameters snapshot.factors snapshot.operators

def decode (document : Json) : Except ExpressionError Catalog :=
  match Snapshot.ofJson? document with
  | none => .error .malformedDocument
  | some snapshot => (ofSnapshot snapshot).mapError .catalog

def read (text : String) : Except ExpressionError Catalog :=
  match Json.read text with
  | none => .error .malformedDocument
  | some document => decode document

def parameter? (catalog : Catalog) (id : ParameterId) : Option ParameterDef :=
  (catalog.byId.lookup id).map catalog.parameters.get

def findParameter? (catalog : Catalog) (name : String) : Option ParameterDef :=
  (catalog.names.get? name).map catalog.parameters.get

def matchParameter? (catalog : Catalog) (words : List String) : Option (Nat × ParameterDef) :=
  (catalog.names.longestMatch words).map (Prod.map id catalog.parameters.get)

def factorsFor (catalog : Catalog) (id : ParameterId) : List FactorDef := catalog.factors.get id

def hasFactors (catalog : Catalog) (id : ParameterId) : Bool := !(catalog.factorsFor id).isEmpty

/-- The first factor with this canonical form, up to the case of ASCII letters. -/
def findFactor? (catalog : Catalog) (id : ParameterId) (value : String) : Option FactorDef :=
  (catalog.factorsFor id).find? fun factor => Text.sameIgnoringAsciiCase factor.canonical value

def findOperator? (catalog : Catalog) (symbol : String) : Option String :=
  match catalog.phrases.get? symbol with
  | some (.operator symbol) => some symbol
  | _ => none

def findLogical? (symbol : String) : Option String :=
  logicalOperators.find? fun logical => Text.sameIgnoringAsciiCase logical (Text.trim symbol)

def matchPhrase? (catalog : Catalog) (words : List String) : Option (Nat × Phrase) :=
  catalog.phrases.longestMatch words

end Catalog

end Criteria
