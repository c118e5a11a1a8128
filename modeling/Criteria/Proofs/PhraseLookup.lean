import Criteria.Catalog.Basic
import Mathlib.Data.List.FinRange
/-!
What a lookup by words finds: the longest stored phrase that the words begin with. A catalog that was built holds
the position of each parameter under its id and under the words of its name, and each phrase under its own words, and
nothing else.
-/

namespace Criteria

open Text

namespace PhraseNode

variable {α : Type} {node : PhraseNode α}

/-- A stored phrase that the words begin with, no longer one being stored. -/
structure IsLongest (node : PhraseNode α) (words : List String) (count : Nat) (value : α) : Prop where
  positive : 0 < count
  within : count ≤ words.length
  found : node.find? ((words.take count).map lowercase) = some value
  longest : ∀ other, count < other → other ≤ words.length → node.find? ((words.take other).map lowercase) = none

/-- No beginning of the words is stored. -/
def NoneBegins (node : PhraseNode α) (words : List String) : Prop :=
  ∀ count, 0 < count → count ≤ words.length → node.find? ((words.take count).map lowercase) = none

private theorem find?_take_cons (word : String) (rest : List String) (count : Nat) :
    node.find? (((word :: rest).take (count + 1)).map lowercase) =
      (node.child? (lowercase word)).bind (·.find? ((rest.take count).map lowercase)) := rfl

private theorem longestMatch_spec (node : PhraseNode α) (words : List String) :
    match node.longestMatch words with
    | some (count, value) => IsLongest node words count value
    | none => NoneBegins node words := by
  induction words generalizing node with
  | nil => exact fun count positive within => absurd within (by simp; omega)
  | cons word rest ih =>
    unfold longestMatch
    cases child : node.child? (lowercase word) with
    | none =>
      rintro (_ | count) positive within
      · omega
      · rw [find?_take_cons, child, Option.bind_none]
    | some next =>
      have later := ih next
      dsimp only
      cases deeper : next.longestMatch rest with
      | some found =>
        obtain ⟨count, value⟩ := found
        rw [deeper] at later
        refine ⟨by omega, by simpa using later.within, ?_, ?_⟩
        · rw [find?_take_cons, child, Option.bind_some, later.found]
        · rintro (_ | other) above within
          · omega
          · rw [find?_take_cons, child, Option.bind_some]
            exact later.longest other (by omega) (by simpa using within)
      | none =>
        -- Nothing deeper matches, so the value of this very node decides.
        rw [deeper] at later
        cases held : next.value with
        | some value =>
          refine ⟨by omega, by simp, ?_, ?_⟩
          · rw [find?_take_cons, child, Option.bind_some]
            exact held
          · rintro (_ | other) above within
            · omega
            · rw [find?_take_cons, child, Option.bind_some]
              exact later other (by omega) (by simpa using within)
        | none =>
          rintro (_ | count) positive within
          · omega
          · rw [find?_take_cons, child, Option.bind_some]
            cases count with
            | zero => exact held
            | succ count => exact later (count + 1) (by omega) (by simpa using within)

theorem longestMatch_eq_none {words : List String} : node.longestMatch words = none ↔ NoneBegins node words := by
  have spec := longestMatch_spec node words
  constructor
  · intro missing
    simpa only [missing] using spec
  · intro absent
    cases matched : node.longestMatch words with
    | none => rfl
    | some found =>
      rw [matched] at spec
      cases (absent found.1 spec.positive spec.within).symm.trans spec.found

theorem longestMatch_eq_some {words : List String} {count : Nat} {value : α} :
    node.longestMatch words = some (count, value) ↔ IsLongest node words count value := by
  have spec := longestMatch_spec node words
  constructor
  · intro matched
    simpa only [matched] using spec
  · intro longest
    cases matched : node.longestMatch words with
    | none =>
      rw [matched] at spec
      cases (spec count longest.positive longest.within).symm.trans longest.found
    | some found =>
      obtain ⟨other, stored⟩ := found
      rw [matched] at spec
      rcases Nat.lt_trichotomy other count with less | rfl | more
      · cases (spec.longest count less longest.within).symm.trans longest.found
      · rw [Option.some.inj (spec.found.symm.trans longest.found)]
      · cases (longest.longest other more spec.within).symm.trans spec.found

theorem exists_longestMatch {words key : List String} {value : α} (begins : key <+: words.map lowercase)
    (nonempty : key ≠ []) (found : node.find? key = some value) :
    ∃ count stored, node.longestMatch words = some (count, stored) ∧ key.length ≤ count := by
  have within : key.length ≤ words.length := by simpa using begins.length_le
  have taken : (words.take key.length).map lowercase = key := by
    rw [List.map_take]
    exact (List.prefix_iff_eq_take.mp begins).symm
  cases matched : node.longestMatch words with
  | none =>
    have absent := longestMatch_eq_none.mp matched key.length (List.length_pos_iff.mpr nonempty) within
    rw [taken, found] at absent
    cases absent
  | some longest =>
    obtain ⟨count, stored⟩ := longest
    refine ⟨count, stored, rfl, ?_⟩
    apply Nat.le_of_not_lt
    intro shorter
    have absent := (longestMatch_eq_some.mp matched).longest key.length shorter within
    rw [taken, found] at absent
    cases absent

end PhraseNode

namespace PhraseTrie

variable {α : Type} {trie grown : PhraseTrie α} {text : α → String} {members : List α}

/-- The trie holds exactly these values, each under the words of its text. -/
structure Keyed (trie : PhraseTrie α) (text : α → String) (members : List α) : Prop where
  stored : ∀ value ∈ members, key (text value) ≠ [] ∧ trie.root.find? (key (text value)) = some value
  found : ∀ words value, trie.root.find? words = some value → value ∈ members ∧ words = key (text value)

theorem keyed_empty (text : α → String) : Keyed empty text [] := by
  constructor
  · intro value member
    cases member
  · intro words value found
    rw [empty, PhraseNode.find?_leaf] at found
    cases found

theorem insert?_eq_some {phrase : String} {value : α} :
    trie.insert? phrase value = some grown ↔
      key phrase ≠ [] ∧ trie.root.find? (key phrase) = none ∧
        grown = ⟨trie.root.insert value (key phrase), trie.size + 1⟩ := by
  unfold insert?
  split
  next blank => simp [blank]
  next words nonblank =>
    split
    next taken =>
      obtain ⟨held, present⟩ := Option.isSome_iff_exists.mp taken
      simp [present]
    next free =>
      have free : trie.root.find? (key phrase) = none := by simpa using free
      constructor
      · intro same
        exact ⟨nonblank, free, (Option.some.inj same).symm⟩
      · intro ⟨_, _, same⟩
        rw [same]

theorem Keyed.insert (keyed : Keyed trie text members) (value : α)
    (inserted : trie.insert? (text value) value = some grown) : Keyed grown text (members ++ [value]) := by
  obtain ⟨nonblank, free, rfl⟩ := insert?_eq_some.mp inserted
  constructor
  · intro other member
    rcases List.mem_append.mp member with earlier | added
    · obtain ⟨solid, held⟩ := keyed.stored other earlier
      refine ⟨solid, ?_⟩
      have different : key (text other) ≠ key (text value) := by
        intro same
        rw [same, free] at held
        cases held
      exact (PhraseNode.find?_insert_of_ne _ _ different).trans held
    · obtain rfl := List.mem_singleton.mp added
      exact ⟨nonblank, PhraseNode.find?_insert_self ..⟩
  · intro words other found
    by_cases same : words = key (text value)
    · subst same
      obtain rfl := Option.some.inj ((PhraseNode.find?_insert_self ..).symm.trans found)
      exact ⟨by simp, rfl⟩
    · obtain ⟨member, place⟩ := keyed.found words other
        ((PhraseNode.find?_insert_of_ne trie.root value same).symm.trans found)
      exact ⟨List.mem_append_left _ member, place⟩

/-- A match is a member whose words the given ones begin with. -/
theorem Keyed.of_longestMatch (keyed : Keyed trie text members) {words : List String} {count : Nat} {value : α}
    (matched : trie.longestMatch words = some (count, value)) :
    value ∈ members ∧ 0 < count ∧ count ≤ words.length ∧ (words.take count).map lowercase = key (text value) := by
  have longest := PhraseNode.longestMatch_eq_some.mp matched
  obtain ⟨member, place⟩ := keyed.found _ _ longest.found
  exact ⟨member, longest.positive, longest.within, place⟩

theorem Keyed.exists_longestMatch (keyed : Keyed trie text members) {words : List String} {value : α}
    (member : value ∈ members) (begins : key (text value) <+: words.map lowercase) :
    ∃ count stored, trie.longestMatch words = some (count, stored) ∧ (key (text value)).length ≤ count :=
  PhraseNode.exists_longestMatch begins (keyed.stored value member).1 (keyed.stored value member).2

theorem Keyed.eq_of_key_eq (keyed : Keyed trie text members) {first second : α} (one : first ∈ members)
    (other : second ∈ members) (same : key (text first) = key (text second)) : first = second := by
  have held := (keyed.stored first one).2
  rw [same, (keyed.stored second other).2] at held
  exact (Option.some.inj held).symm

theorem Keyed.get?_eq_some (keyed : Keyed trie text members) {phrase : String} {value : α}
    (found : trie.get? phrase = some value) : value ∈ members ∧ key phrase = key (text value) := by
  unfold get? at found
  split at found
  · cases found
  · exact keyed.found _ _ found

theorem Keyed.get?_eq_some_iff (keyed : Keyed trie text members) {phrase : String} {value : α} :
    trie.get? phrase = some value ↔ value ∈ members ∧ key (text value) = key phrase := by
  constructor
  · intro found
    obtain ⟨member, same⟩ := keyed.get?_eq_some found
    exact ⟨member, same.symm⟩
  · rintro ⟨member, same⟩
    obtain ⟨nonblank, held⟩ := keyed.stored value member
    unfold get?
    rw [← same]
    split
    next blank => exact absurd blank nonblank
    next => exact held

/-- A member whose words the given ones begin with, none with more words among the others. -/
structure LongestAmong (text : α → String) (members : List α) (words : List String) (value : α) : Prop where
  member : value ∈ members
  begins : key (text value) <+: words.map lowercase
  longest : ∀ other ∈ members, key (text other) <+: words.map lowercase →
    (key (text other)).length ≤ (key (text value)).length

theorem Keyed.longestMatch_eq_some (keyed : Keyed trie text members) {words : List String} {count : Nat} {value : α} :
    trie.longestMatch words = some (count, value) ↔
      LongestAmong text members words value ∧ count = (key (text value)).length := by
  rw [PhraseTrie.longestMatch, PhraseNode.longestMatch_eq_some]
  constructor
  · intro spec
    obtain ⟨member, place⟩ := keyed.found _ _ spec.found
    have length : count = (key (text value)).length := by
      rw [← place, List.length_map, List.length_take, Nat.min_eq_left spec.within]
    refine ⟨⟨member, ?_, ?_⟩, length⟩
    · rw [← place]
      exact (List.take_prefix count words).map lowercase
    · intro other known begins
      rw [← length]
      apply Nat.le_of_not_lt
      intro more
      have within : (key (text other)).length ≤ words.length := by simpa using begins.length_le
      have held := (keyed.stored other known).2
      rw [List.prefix_iff_eq_take.mp begins, ← List.map_take, spec.longest _ more within] at held
      cases held
  · rintro ⟨⟨member, begins, longest⟩, rfl⟩
    obtain ⟨nonblank, held⟩ := keyed.stored value member
    have place : (words.take (key (text value)).length).map lowercase = key (text value) := by
      rw [List.map_take]
      exact (List.prefix_iff_eq_take.mp begins).symm
    refine ⟨List.length_pos_iff.mpr nonblank, by simpa using begins.length_le, ?_, ?_⟩
    · rw [place]
      exact held
    intro other more within
    rw [Option.eq_none_iff_forall_ne_some]
    intro stored found
    obtain ⟨known, same⟩ := keyed.found _ _ found
    have shorter := longest stored known (same ▸ (List.take_prefix other words).map lowercase)
    rw [← same, List.length_map, List.length_take, Nat.min_eq_left within] at shorter
    omega

theorem Keyed.longestMatch_eq_none (keyed : Keyed trie text members) {words : List String} :
    trie.longestMatch words = none ↔ ∀ value ∈ members, ¬ key (text value) <+: words.map lowercase := by
  constructor
  · intro missing value member begins
    obtain ⟨count, stored, matched, _⟩ := keyed.exists_longestMatch member begins
    rw [missing] at matched
    cases matched
  · intro absent
    rw [Option.eq_none_iff_forall_ne_some]
    rintro ⟨count, value⟩ matched
    have longest := (keyed.longestMatch_eq_some.mp matched).1
    exact absent value longest.member longest.begins

end PhraseTrie

/-- The words that a phrase stands for. -/
def Phrase.text : Phrase → String
  | .operator symbol => symbol
  | .logical symbol => symbol

namespace Catalog

def phraseList (catalog : Catalog) : List Phrase :=
  logicalOperators.map .logical ++ catalog.operators.map .operator

/-- The two indexes of parameters hold exactly these positions, each under its id and under the words of its name. -/
structure Holds {parameters : List ParameterDef} (byId : List (ParameterId × Fin parameters.length))
    (names : PhraseTrie (Fin parameters.length)) (positions : List (Fin parameters.length)) : Prop where
  ids : ∀ id index, byId.lookup id = some index ↔ index ∈ positions ∧ (parameters.get index).id = id
  names : names.Keyed (fun index => (parameters.get index).name) positions

/-- What the indexes of a catalog hold. -/
structure Indexed (catalog : Catalog) : Prop where
  parameters : Holds catalog.byId catalog.names (List.finRange catalog.parameters.length)
  phrases : catalog.phrases.Keyed Phrase.text catalog.phraseList

section Holds

variable {parameters : List ParameterDef} {byId : List (ParameterId × Fin parameters.length)}
  {names grown : PhraseTrie (Fin parameters.length)} {positions : List (Fin parameters.length)}

theorem holds_empty : @Holds parameters [] .empty [] where
  ids := by simp
  names := PhraseTrie.keyed_empty _

theorem Holds.insert (holds : Holds byId names positions) (index : Fin parameters.length)
    (fresh : byId.lookup (parameters.get index).id = none)
    (inserted : names.insert? (parameters.get index).name index = some grown) :
    Holds (Association.put (parameters.get index).id index byId) grown (positions ++ [index]) where
  ids := by
    intro id other
    rw [List.mem_append, List.mem_singleton]
    by_cases same : id = (parameters.get index).id
    · rw [same, Association.lookup_put_self, Option.some.injEq]
      constructor
      · rintro rfl
        exact ⟨.inr rfl, rfl⟩
      · rintro ⟨earlier | last, alike⟩
        · cases fresh.symm.trans ((holds.ids _ other).mpr ⟨earlier, alike⟩)
        · exact last.symm
    · rw [Association.lookup_put_of_ne same, holds.ids]
      constructor
      · exact fun ⟨earlier, alike⟩ => ⟨.inl earlier, alike⟩
      · rintro ⟨earlier | rfl, alike⟩
        · exact ⟨earlier, alike⟩
        · exact absurd alike.symm same
  names := holds.names.insert index inserted

theorem holds_indexParameters {rest : List (Fin parameters.length)}
    {full : List (ParameterId × Fin parameters.length) × PhraseTrie (Fin parameters.length)}
    (holds : Holds byId names positions) (indexed : indexParameters byId names rest = .ok full) :
    Holds full.1 full.2 (positions ++ rest) := by
  induction rest generalizing byId names positions with
  | nil =>
    cases indexed
    simpa using holds
  | cons index rest ih =>
    simp only [indexParameters] at indexed
    split at indexed
    · cases indexed
    next fresh =>
      split at indexed
      · cases indexed
      next grown inserted =>
        rw [List.append_cons]
        exact ih (holds.insert index (Option.not_isSome_iff_eq_none.mp fresh) inserted) indexed

end Holds

private theorem keyed_indexOperators {operators : List String} {members : List Phrase} {phrases : PhraseTrie Phrase}
    (keyed : phrases.Keyed Phrase.text members) :
    (indexOperators phrases operators).2.Keyed Phrase.text
      (members ++ (indexOperators phrases operators).1.map .operator) := by
  induction operators generalizing phrases members with
  | nil => simpa [indexOperators] using keyed
  | cons operator rest ih =>
    simp only [indexOperators]
    split
    · exact ih keyed
    next grown inserted =>
      have later := ih (keyed.insert (.operator (collapse operator)) inserted)
      simpa using later

private theorem keyed_insert_logical {trie : PhraseTrie Phrase} {members : List Phrase} (symbol : String)
    (keyed : trie.Keyed Phrase.text members) (free : (trie.insert? symbol (.logical symbol)).isSome = true) :
    ((trie.insert? symbol (.logical symbol)).getD trie).Keyed Phrase.text (members ++ [.logical symbol]) := by
  obtain ⟨grown, inserted⟩ := Option.isSome_iff_exists.mp free
  rw [inserted, Option.getD_some]
  exact keyed.insert (.logical symbol) inserted

private theorem keyed_logicalPhrases : logicalPhrases.Keyed Phrase.text (logicalOperators.map .logical) := by
  have first := keyed_insert_logical "AND" (PhraseTrie.keyed_empty Phrase.text) (by decide)
  exact keyed_insert_logical "OR" first (by decide)

theorem build_eq (parameters : List ParameterDef) (factors : FactorTable) (operators : List String) :
    build parameters factors operators =
      (indexParameters [] .empty (List.finRange parameters.length)).map fun full =>
        { parameters, byId := full.1, names := full.2, factors,
          operators := (indexOperators logicalPhrases operators).1,
          phrases := (indexOperators logicalPhrases operators).2 } := by
  unfold build
  cases indexParameters [] .empty (List.finRange parameters.length) <;> rfl

theorem indexed_of_build {parameters : List ParameterDef} {factors : FactorTable} {operators : List String}
    {catalog : Catalog} (built : build parameters factors operators = .ok catalog) : catalog.Indexed := by
  rw [build_eq] at built
  cases indexed : indexParameters [] .empty (List.finRange parameters.length) with
  | error error =>
    rw [indexed] at built
    cases built
  | ok full =>
    rw [indexed] at built
    cases built
    exact ⟨by simpa using holds_indexParameters holds_empty indexed, keyed_indexOperators keyed_logicalPhrases⟩

variable {catalog : Catalog} {words : List String} {count : Nat} {parameter : ParameterDef}

theorem findParameter?_eq_some {name : String} : catalog.findParameter? name = some parameter ↔
    ∃ index, catalog.names.get? name = some index ∧ catalog.parameters.get index = parameter := Option.map_eq_some_iff

theorem matchParameter?_eq_some : catalog.matchParameter? words = some (count, parameter) ↔
    ∃ index, catalog.names.longestMatch words = some (count, index) ∧ catalog.parameters.get index = parameter := by
  simp [matchParameter?, Prod.map]

namespace Indexed

variable (indexed : catalog.Indexed)
include indexed

theorem key_name_ne_nil (listed : parameter ∈ catalog.parameters) : PhraseTrie.key parameter.name ≠ [] := by
  obtain ⟨index, rfl⟩ := List.mem_iff_get.mp listed
  exact (indexed.parameters.names.stored index (List.mem_finRange index)).1

/-- The parameters that the ids lead to are the listed ones. -/
theorem parameter?_eq_some {id : ParameterId} :
    catalog.parameter? id = some parameter ↔ parameter ∈ catalog.parameters ∧ parameter.id = id := by
  rw [parameter?, Option.map_eq_some_iff, List.mem_iff_get]
  constructor
  · rintro ⟨index, held, rfl⟩
    exact ⟨⟨index, rfl⟩, ((indexed.parameters.ids id index).mp held).2⟩
  · rintro ⟨⟨index, rfl⟩, same⟩
    exact ⟨index, (indexed.parameters.ids id index).mpr ⟨List.mem_finRange index, same⟩, rfl⟩

theorem findParameter?_eq_some_iff {name : String} : catalog.findParameter? name = some parameter ↔
    parameter ∈ catalog.parameters ∧ PhraseTrie.key parameter.name = PhraseTrie.key name := by
  rw [findParameter?_eq_some, List.mem_iff_get]
  constructor
  · rintro ⟨index, held, rfl⟩
    exact ⟨⟨index, rfl⟩, (indexed.parameters.names.get?_eq_some_iff.mp held).2⟩
  · rintro ⟨⟨index, rfl⟩, same⟩
    exact ⟨index, indexed.parameters.names.get?_eq_some_iff.mpr ⟨List.mem_finRange index, same⟩, rfl⟩

/-- A match is a listed parameter whose words the given ones begin with. -/
theorem of_matchParameter? (matched : catalog.matchParameter? words = some (count, parameter)) :
    parameter ∈ catalog.parameters ∧ 0 < count ∧ count ≤ words.length ∧
      (words.take count).map lowercase = PhraseTrie.key parameter.name := by
  obtain ⟨index, held, rfl⟩ := matchParameter?_eq_some.mp matched
  exact ⟨List.get_mem .., (indexed.parameters.names.of_longestMatch held).2⟩

theorem matchParameter?_eq_some_iff :
    catalog.matchParameter? words = some (count, parameter) ↔
      PhraseTrie.LongestAmong ParameterDef.name catalog.parameters words parameter ∧ count = (PhraseTrie.key parameter.name).length := by
  have places {index : Fin catalog.parameters.length} :
      PhraseTrie.LongestAmong (fun index => (catalog.parameters.get index).name) (List.finRange _) words index ↔
        PhraseTrie.LongestAmong ParameterDef.name catalog.parameters words (catalog.parameters.get index) := by
    constructor
    · rintro ⟨_, begins, longest⟩
      refine ⟨List.get_mem .., begins, fun other listed => ?_⟩
      obtain ⟨place, rfl⟩ := List.mem_iff_get.mp listed
      exact longest place (List.mem_finRange place)
    · rintro ⟨_, begins, longest⟩
      exact ⟨List.mem_finRange index, begins, fun other _ => longest _ (List.get_mem ..)⟩
  rw [matchParameter?_eq_some]
  simp only [indexed.parameters.names.longestMatch_eq_some, places]
  constructor
  · rintro ⟨index, found, rfl⟩
    exact found
  · intro found
    obtain ⟨index, rfl⟩ := List.mem_iff_get.mp found.1.member
    exact ⟨index, found, rfl⟩

theorem matchParameter?_eq_none : catalog.matchParameter? words = none ↔
    ∀ parameter ∈ catalog.parameters, ¬ PhraseTrie.key parameter.name <+: words.map lowercase := by
  rw [matchParameter?, Option.map_eq_none_iff, indexed.parameters.names.longestMatch_eq_none]
  constructor
  · intro absent parameter listed
    obtain ⟨index, rfl⟩ := List.mem_iff_get.mp listed
    exact absent index (List.mem_finRange index)
  · exact fun absent index _ => absent _ (List.get_mem ..)

end Indexed

end Catalog

end Criteria
