import Criteria.Association
import Criteria.Decimal.Binary64
import Criteria.Text.Case
/-!
The values that settings are written with, trees of them, and the way one tree is laid over another: tables are
merged member by member, and everything else is replaced.
-/

namespace Criteria

inductive SettingValue where
  | text (value : String)
  | integer (value : Int64)
  | float (value : Binary64)
  | boolean (value : Bool)
  | list (items : List SettingValue)
  | table (members : List (String × SettingValue))
  deriving Inhabited

namespace SettingValue

def members : SettingValue → List (String × SettingValue)
  | .table members => members
  | _ => []

def items : SettingValue → List SettingValue
  | .list items => items
  | _ => []

/-- A member that is missing is as good as an empty table. -/
def member (base : SettingValue) (name : String) : SettingValue := (base.members.lookup name).getD (.table [])

/-- Anything but a table gives way to one that holds the member. -/
def putMember (base : SettingValue) (name : String) (value : SettingValue) : SettingValue :=
  .table (Association.put name value base.members)

mutual

/-- A table takes the place of anything but a table, even where it is empty itself. -/
def overlay (base : SettingValue) : SettingValue → SettingValue
  | .table members => overlayMembers (.table base.members) members
  | value => value

def overlayMembers (base : SettingValue) : List (String × SettingValue) → SettingValue
  | [] => base
  | (name, value) :: rest => overlayMembers (base.putMember name (overlay (base.member name) value)) rest

end

/-- The value at the end of a path through tables. -/
def at? (tree : SettingValue) : List String → Option SettingValue
  | [] => some tree
  | name :: rest => (tree.members.lookup name).bind (·.at? rest)

/-- Numbers count as true unless they are zero; of words only the usual ones are taken. -/
def toBoolean? : SettingValue → Option Bool
  | .boolean value => some value
  | .integer value => some (value != 0)
  | .float value => some (!value.isZero)
  | .text value =>
    let word := Text.lowercase value
    if word ∈ ["1", "true", "on", "yes"] then some true
    else if word ∈ ["0", "false", "off", "no"] then some false
    else none
  | _ => none

def toText? : SettingValue → Option String
  | .text value => some value
  | .integer value => some (toString value.toInt)
  | .float value => some (String.ofList value.text)
  | .boolean value => some (if value then "true" else "false")
  | _ => none

end SettingValue

end Criteria
