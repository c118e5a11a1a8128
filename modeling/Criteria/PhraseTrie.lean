import Criteria.Association
import Criteria.Text.Case
import Criteria.Text.Words
/-!
Phrases indexed word by word. Words are compared without regard to letter case, and the white space between them
does not matter: a phrase is known by the list of its words in lower case.
-/

namespace Criteria

inductive PhraseNode (α : Type) where
  | node (value : Option α) (children : List (String × PhraseNode α))

namespace PhraseNode

variable {α : Type}

def leaf : PhraseNode α := .node none []

def value : PhraseNode α → Option α
  | .node value _ => value

def children : PhraseNode α → List (String × PhraseNode α)
  | .node _ children => children

def child? (node : PhraseNode α) (word : String) : Option (PhraseNode α) := node.children.lookup word

def find? (node : PhraseNode α) : List String → Option α
  | [] => node.value
  | word :: rest => (node.child? word).bind (·.find? rest)

def insert (node : PhraseNode α) (value : α) : List String → PhraseNode α
  | [] => .node (some value) node.children
  | word :: rest =>
    .node node.value (Association.put word (((node.child? word).getD leaf).insert value rest) node.children)

/-- The longest phrase that the words begin with, as the number of its words and its value. -/
def longestMatch (node : PhraseNode α) : List String → Option (Nat × α)
  | [] => none
  | word :: rest =>
    match node.child? (Text.lowercase word) with
    | none => none
    | some next =>
      match next.longestMatch rest with
      | some (count, value) => some (count + 1, value)
      | none => next.value.map (1, ·)

theorem find?_leaf (words : List String) : (leaf : PhraseNode α).find? words = none := by
  cases words <;> rfl

theorem find?_cons (node : PhraseNode α) (word : String) (rest : List String) :
    node.find? (word :: rest) = ((node.child? word).getD leaf).find? rest := by
  cases found : node.child? word <;> simp [find?, found, find?_leaf]

theorem child?_insert_cons_self (node : PhraseNode α) (value : α) (word : String) (rest : List String) :
    (node.insert value (word :: rest)).child? word = some (((node.child? word).getD leaf).insert value rest) :=
  Association.lookup_put_self ..

theorem child?_insert_cons_of_ne (node : PhraseNode α) (value : α) {word other : String} (rest : List String)
    (different : other ≠ word) : (node.insert value (word :: rest)).child? other = node.child? other :=
  Association.lookup_put_of_ne different ..

theorem find?_insert_self (node : PhraseNode α) (value : α) (words : List String) :
    (node.insert value words).find? words = some value := by
  induction words generalizing node with
  | nil => rfl
  | cons word rest ih => rw [find?_cons, child?_insert_cons_self, Option.getD_some, ih]

/-- An insertion is seen under its own key only. -/
theorem find?_insert_of_ne (node : PhraseNode α) (value : α) {words others : List String}
    (different : others ≠ words) : (node.insert value words).find? others = node.find? others := by
  induction words generalizing node others with
  | nil =>
    cases others with
    | nil => exact absurd rfl different
    | cons other later => rfl
  | cons word rest ih =>
    cases others with
    | nil => rfl
    | cons other later =>
      rw [find?_cons, find?_cons]
      by_cases same : other = word
      · subst same
        rw [child?_insert_cons_self, Option.getD_some]
        exact ih _ fun equal => different (equal ▸ rfl)
      · rw [child?_insert_cons_of_ne node value rest same]

end PhraseNode

/-- Phrases with a value each. -/
structure PhraseTrie (α : Type) where
  root : PhraseNode α
  size : Nat

namespace PhraseTrie

variable {α : Type}

def empty : PhraseTrie α := ⟨.leaf, 0⟩

def isEmpty (trie : PhraseTrie α) : Bool := trie.size == 0

def key (phrase : String) : List String := (Text.words phrase).map Text.lowercase

def get? (trie : PhraseTrie α) (phrase : String) : Option α :=
  match key phrase with
  | [] => none
  | words => trie.root.find? words

/-- A blank phrase and one that is already there are refused. -/
def insert? (trie : PhraseTrie α) (phrase : String) (value : α) : Option (PhraseTrie α) :=
  match key phrase with
  | [] => none
  | words =>
    if (trie.root.find? words).isSome then none else some ⟨trie.root.insert value words, trie.size + 1⟩

/-- The words are taken as they are and not split again. -/
def longestMatch (trie : PhraseTrie α) (words : List String) : Option (Nat × α) := trie.root.longestMatch words

end PhraseTrie

end Criteria
