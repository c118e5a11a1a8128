import Criteria.Toml.Statement
/-!
The tree of a TOML document. A table may be opened by one header, or grow by dotted keys where it first appears;
whatever is defined once is not defined again.
-/

namespace Criteria.Toml

/-- How a table came to be. -/
inductive Origin where
  /-- On the way to a table with a longer header. -/
  | implied
  | header
  | dotted
  deriving DecidableEq

inductive Node where
  | value (value : SettingValue)
  | table (origin : Origin) (members : List (String × Node))
  /-- An array of tables, the last of them first. -/
  | tables (items : List (List (String × Node)))
  deriving Inhabited

abbrev Members := List (String × Node)

open Association (put)

/-- Adds a value under a dotted key. The tables on the way are new or have grown without a header of their own, and
from then on no header may open them. Of an array of tables the way leads through the last, which the key may give
further tables but no values. -/
def assign (value : SettingValue) (members : Members) : List String → Option Members
  | [] => none
  | [name] =>
    match members.lookup name with
    | none => some (members ++ [(name, .value value)])
    | some _ => none
  | name :: rest =>
    match members.lookup name with
    | none => (assign value [] rest).map fun inner => members ++ [(name, .table .dotted inner)]
    | some (.table .header _) => none
    | some (.table _ inner) => (assign value inner rest).map fun inner => put name (.table .dotted inner) members
    | some (.tables (last :: earlier)) =>
      if rest.length = 1 then none
      else (assign value last rest).map fun last => put name (.tables (last :: earlier)) members
    | some _ => none

/-- Opens the table that a header names. It may have been implied before, but not defined. -/
def openTable (members : Members) : List String → Option Members
  | [] => none
  | [name] =>
    match members.lookup name with
    | none => some (members ++ [(name, .table .header [])])
    | some (.table .implied inner) => some (put name (.table .header inner) members)
    | some _ => none
  | name :: rest =>
    match members.lookup name with
    | none => (openTable [] rest).map fun inner => members ++ [(name, .table .implied inner)]
    | some (.table origin inner) => (openTable inner rest).map fun inner => put name (.table origin inner) members
    | some (.tables (last :: earlier)) =>
      (openTable last rest).map fun last => put name (.tables (last :: earlier)) members
    | some _ => none

/-- Adds a table to the array that a header in double brackets names. -/
def openItem (members : Members) : List String → Option Members
  | [] => none
  | [name] =>
    match members.lookup name with
    | none => some (members ++ [(name, .tables [[]])])
    | some (.tables items) => some (put name (.tables ([] :: items)) members)
    | some _ => none
  | name :: rest =>
    match members.lookup name with
    | none => (openItem [] rest).map fun inner => members ++ [(name, .table .implied inner)]
    | some (.table origin inner) => (openItem inner rest).map fun inner => put name (.table origin inner) members
    | some (.tables (last :: earlier)) =>
      (openItem last rest).map fun last => put name (.tables (last :: earlier)) members
    | some _ => none

/-- Changes the table that the latest header opened. -/
def within (change : Members → Option Members) (members : Members) : List String → Option Members
  | [] => change members
  | name :: rest =>
    match members.lookup name with
    | some (.table origin inner) =>
      (within change inner rest).map fun inner => put name (.table origin inner) members
    | some (.tables (last :: earlier)) =>
      (within change last rest).map fun last => put name (.tables (last :: earlier)) members
    | _ => none

mutual

def Node.toValue : Node → SettingValue
  | .value value => value
  | .table _ members => .table (memberValues members)
  | .tables items => .list (itemValues items).reverse

def memberValues : List (String × Node) → List (String × SettingValue)
  | [] => []
  | (name, node) :: rest => (name, node.toValue) :: memberValues rest

def itemValues : List (List (String × Node)) → List SettingValue
  | [] => []
  | members :: rest => .table (memberValues members) :: itemValues rest

end

mutual

def Expression.toValue? : Expression → Option SettingValue
  | .scalar value => some value
  | .array items => (itemValues? items).map .list
  | .inlineTable members => (inlineMembers? [] members).map fun members => .table (memberValues members)

def itemValues? : List Expression → Option (List SettingValue)
  | [] => some []
  | item :: rest =>
    match item.toValue?, itemValues? rest with
    | some value, some values => some (value :: values)
    | _, _ => none

/-- The assignments within braces, made one after the other. -/
def inlineMembers? (members : Members) : List (List String × Expression) → Option Members
  | [] => some members
  | (path, expression) :: rest =>
    match expression.toValue? with
    | none => none
    | some value =>
      match assign value members path with
      | none => none
      | some members => inlineMembers? members rest

end

/-- The tree so far and the path of the latest header. -/
structure Progress where
  members : Members
  current : List String

def Progress.step (progress : Progress) : Statement → Option Progress
  | .header path => (openTable progress.members path).map (⟨·, path⟩)
  | .arrayHeader path => (openItem progress.members path).map (⟨·, path⟩)
  | .assignment path expression => do
    let value ← expression.toValue?
    let members ← within (assign value · path) progress.members progress.current
    pure { progress with members }

def dropByteOrderMark : List Char → List Char
  | '\ufeff' :: rest => rest
  | text => text

/-- The members of the document's root. -/
def read (text : String) : Option (List (String × SettingValue)) := do
  let progress ← (← statements (dropByteOrderMark text.toList)).foldlM Progress.step ⟨[], []⟩
  pure (memberValues progress.members)

end Criteria.Toml
