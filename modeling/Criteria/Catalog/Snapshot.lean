import Criteria.Association
import Criteria.Catalog.Definition
import Criteria.Json.Basic
import Criteria.Json.Reader
import Criteria.Json.Writer
/-!
The data a catalog is built from, and its JSON form. Factors are listed by the id of their parameter; as a member
name an id is spelled as it is as a number, and of two members with one id the last counts.
-/

namespace Criteria

/-- Factors by parameter id. -/
structure FactorTable where
  entries : List (ParameterId × List FactorDef)
  distinct : (entries.map Prod.fst).Nodup
  deriving DecidableEq, Repr

namespace FactorTable

def empty : FactorTable := ⟨[], .nil⟩

def get (table : FactorTable) (id : ParameterId) : List FactorDef := (table.entries.lookup id).getD []

def insert (table : FactorTable) (id : ParameterId) (factors : List FactorDef) : FactorTable :=
  ⟨Association.put id factors table.entries, Association.nodup_keys_put id factors table.distinct⟩

def ofList (entries : List (ParameterId × List FactorDef)) : FactorTable :=
  entries.foldl (fun table entry => table.insert entry.1 entry.2) empty

theorem get_insert_self (table : FactorTable) (id : ParameterId) (factors : List FactorDef) :
    (table.insert id factors).get id = factors := by
  simp [get, insert, Association.lookup_put_self]

theorem get_insert_of_ne (table : FactorTable) {id other : ParameterId} (different : other ≠ id)
    (factors : List FactorDef) : (table.insert id factors).get other = table.get other := by
  simp [get, insert, Association.lookup_put_of_ne different]

end FactorTable

structure Snapshot where
  parameters : List ParameterDef
  factors : FactorTable
  operators : List String
  deriving DecidableEq, Repr

namespace ParameterDef

def ofJson? (document : Json) : Option ParameterDef := do
  match ← document.record? ["id", "name"] with
  | [some id, some name] => pure ⟨← id.integer?, ← name.text?⟩
  | _ => none

def toJson (parameter : ParameterDef) : Json :=
  .ofMembers [("id", .ofInteger parameter.id), ("name", .ofText parameter.name)]

end ParameterDef

namespace FactorDef

def ofJson? (document : Json) : Option FactorDef := do
  match ← document.record? ["value1", "value2"] with
  | [some lower, upper] => pure ⟨← lower.text?, ← (upper.getD .null).optional? Json.text?⟩
  | _ => none

def read? (text : String) : Option FactorDef := (Json.read text).bind ofJson?

def toJson (factor : FactorDef) : Json :=
  .ofMembers [("value1", .ofText factor.value1), ("value2", .ofOption .ofText factor.value2)]

end FactorDef

namespace FactorTable

def entryOfMember? (member : List Char × Json) : Option (ParameterId × List FactorDef) := do
  pure (← Text.readInteger member.1, ← member.2.listOf? FactorDef.ofJson?)

def ofJson? : Json → Option FactorTable
  | .object members => (members.mapM entryOfMember?).map ofList
  | _ => none

def toJson (table : FactorTable) : Json :=
  .object (table.entries.map fun (id, factors) => (Text.writeInteger id, .array (factors.map FactorDef.toJson)))

end FactorTable

namespace Snapshot

/-- The parameters must be there; the two other parts may be missing but not null. -/
def ofJson? (document : Json) : Option Snapshot := do
  match ← document.record? ["parameters", "factorsByParameter", "operators"] with
  | [some parameters, factors, operators] =>
    pure {
      parameters := ← parameters.listOf? ParameterDef.ofJson?
      factors := ← (factors.getD (.object [])) |> FactorTable.ofJson?
      operators := ← (operators.getD (.array [])).listOf? Json.text? }
  | _ => none

def read? (text : String) : Option Snapshot := (Json.read text).bind ofJson?

def toJson (snapshot : Snapshot) : Json :=
  .ofMembers [
    ("parameters", .array (snapshot.parameters.map ParameterDef.toJson)),
    ("factorsByParameter", snapshot.factors.toJson),
    ("operators", .array (snapshot.operators.map .ofText))]

end Snapshot

end Criteria
