/-!
The kinds of token and sets of them. A set lists its members in the order in which the kinds are declared.
-/

namespace Criteria

inductive TokenKind where
  | parameter
  | factor
  | operator
  | logicalOperator
  | openParen
  | closeParen
  | unknown
  deriving DecidableEq, Repr

namespace TokenKind

def all : List TokenKind :=
  [.parameter, .factor, .operator, .logicalOperator, .openParen, .closeParen, .unknown]

def name : TokenKind → String
  | .parameter => "Parameter"
  | .factor => "Factor"
  | .operator => "Operator"
  | .logicalOperator => "LogicalOperator"
  | .openParen => "OpenParen"
  | .closeParen => "CloseParen"
  | .unknown => "Unknown"

def ofName? (name : String) : Option TokenKind := all.find? (·.name == name)

end TokenKind

structure KindSet where
  parameter : Bool
  factor : Bool
  operator : Bool
  logicalOperator : Bool
  openParen : Bool
  closeParen : Bool
  unknown : Bool
  deriving DecidableEq, Repr

namespace KindSet

def empty : KindSet := ⟨false, false, false, false, false, false, false⟩

def contains (set : KindSet) : TokenKind → Bool
  | .parameter => set.parameter
  | .factor => set.factor
  | .operator => set.operator
  | .logicalOperator => set.logicalOperator
  | .openParen => set.openParen
  | .closeParen => set.closeParen
  | .unknown => set.unknown

def insert (set : KindSet) : TokenKind → KindSet
  | .parameter => { set with parameter := true }
  | .factor => { set with factor := true }
  | .operator => { set with operator := true }
  | .logicalOperator => { set with logicalOperator := true }
  | .openParen => { set with openParen := true }
  | .closeParen => { set with closeParen := true }
  | .unknown => { set with unknown := true }

def ofList (kinds : List TokenKind) : KindSet := kinds.foldl insert empty

def toList (set : KindSet) : List TokenKind := TokenKind.all.filter set.contains

def size (set : KindSet) : Nat := set.toList.length

def isEmpty (set : KindSet) : Bool := set == empty

/-- The names in braces, separated by commas; the empty set is a pair of braces. -/
def text (set : KindSet) : String := "\x7b" ++ ", ".intercalate (set.toList.map TokenKind.name) ++ "\x7d"

theorem contains_empty (kind : TokenKind) : empty.contains kind = false := by cases kind <;> rfl

theorem contains_insert (set : KindSet) (added kind : TokenKind) :
    (set.insert added).contains kind = (set.contains kind || decide (added = kind)) := by
  cases added <;> cases kind <;> simp [insert, contains]

end KindSet

end Criteria
