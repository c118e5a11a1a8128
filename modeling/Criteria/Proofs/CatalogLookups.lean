import Criteria.Proofs.CatalogSpelling
import Criteria.Proofs.PhraseMap
/-!
What building a catalog comes to on the plain lists. The parameters are accepted just when no id and no name occurs
twice and no name is blank, and the first that breaks this decides the error. Every lookup of a catalog then answers
as a search through the lists does.
-/

namespace Criteria

open Text

namespace PhraseTrie

theorem key_collapse (text : String) : key (collapse text) = key text := by
  have single : ∀ word ∈ words text, words word = [word] :=
    fun word member => words_of_isWord (isWord_of_mem_words member)
  rw [key, key, collapse, words_unwords, List.flatMap_congr single, List.flatMap_singleton']

end PhraseTrie

namespace Catalog

open PhraseTrie

/-- No id and no name occurs twice, and no name is blank. -/
structure WellListed (parameters : List ParameterDef) : Prop where
  ids : (parameters.map ParameterDef.id).Nodup
  names : (parameters.map fun parameter => key parameter.name).Nodup
  nonblank : ∀ parameter ∈ parameters, key parameter.name ≠ []

/-- What is wrong with a parameter behind the earlier ones, its id being looked at first. -/
def fault? (earlier : List ParameterDef) (parameter : ParameterDef) : Option CatalogError :=
  if parameter.id ∈ earlier.map ParameterDef.id then some (.duplicateId parameter.id)
  else if key parameter.name = [] ∨ key parameter.name ∈ earlier.map fun other => key other.name then
    some (.duplicateName parameter.name)
  else none

variable {earlier parameters : List ParameterDef} {parameter : ParameterDef} {error : CatalogError}

theorem wellListed_concat :
    WellListed (earlier ++ [parameter]) ↔ WellListed earlier ∧ fault? earlier parameter = none := by
  have sound : fault? earlier parameter = none ↔ parameter.id ∉ earlier.map ParameterDef.id ∧
      key parameter.name ≠ [] ∧ key parameter.name ∉ earlier.map fun other => key other.name := by
    unfold fault?
    split
    next repeated => simp [repeated]
    next fresh =>
      split
      next taken => simpa [fresh] using fun solid => taken.resolve_left solid
      next free => simpa [fresh] using not_or.mp free
  rw [sound]
  constructor
  · rintro ⟨ids, names, nonblank⟩
    rw [List.map_append, List.map_singleton, ← List.concat_eq_append, List.nodup_concat] at ids names
    exact ⟨⟨ids.2, names.2, fun other member => nonblank other (by simp [member])⟩, ids.1,
      nonblank parameter (by simp), names.1⟩
  · rintro ⟨⟨ids, names, nonblank⟩, fresh, solid, free⟩
    refine ⟨?_, ?_, ?_⟩
    · rw [List.map_append, List.map_singleton, ← List.concat_eq_append, List.nodup_concat]
      exact ⟨fresh, ids⟩
    · rw [List.map_append, List.map_singleton, ← List.concat_eq_append, List.nodup_concat]
      exact ⟨free, names⟩
    · intro other member
      rcases List.mem_append.mp member with before | last
      · exact nonblank other before
      · rw [List.mem_singleton.mp last]
        exact solid

theorem WellListed.of_append (listed : WellListed (earlier ++ parameters)) : WellListed earlier where
  ids := (List.map_append ▸ listed.ids).of_append_left
  names := (List.map_append ▸ listed.names).of_append_left
  nonblank := fun other member => listed.nonblank other (List.mem_append_left _ member)

section Indexing

variable {byId : List (ParameterId × Fin parameters.length)} {names : PhraseTrie (Fin parameters.length)}
  {positions : List (Fin parameters.length)}

/-- Indexing takes the next parameter just when nothing is wrong with it behind those that are indexed. -/
theorem indexParameters_cons (holds : Holds byId names positions) (index : Fin parameters.length)
    (rest : List (Fin parameters.length)) :
    (∃ error, fault? (positions.map parameters.get) (parameters.get index) = some error ∧
      indexParameters byId names (index :: rest) = .error error) ∨
      fault? (positions.map parameters.get) (parameters.get index) = none ∧
        ∃ ids grown, Holds ids grown (positions ++ [index]) ∧
          indexParameters byId names (index :: rest) = indexParameters ids grown rest := by
  have known : (byId.lookup (parameters.get index).id).isSome = true ↔
      (parameters.get index).id ∈ (positions.map parameters.get).map ParameterDef.id := by
    simp only [Option.isSome_iff_exists, holds.ids, List.mem_map, exists_exists_and_eq_and]
  rw [fault?, indexParameters]
  simp only [known]
  split
  next => exact .inl ⟨_, rfl, rfl⟩
  next unknown =>
    have fresh := Option.not_isSome_iff_eq_none.mp (mt known.mp unknown)
    cases inserted : names.insert? (parameters.get index).name index with
    | some grown =>
      obtain ⟨nonblank, free, _⟩ := insert?_eq_some.mp inserted
      right
      refine ⟨if_neg ?_, _, grown, holds.insert index fresh inserted, rfl⟩
      rintro (blank | taken)
      · exact nonblank blank
      · rw [List.map_map] at taken
        obtain ⟨other, member, same⟩ := List.mem_map.mp taken
        have held := (holds.names.stored other member).2
        rw [Function.comp_apply] at same
        rw [same, free] at held
        cases held
    | none =>
      left
      refine ⟨_, if_pos ?_, rfl⟩
      by_contra sound
      obtain ⟨nonblank, unused⟩ := not_or.mp sound
      have free : names.root.find? (key (parameters.get index).name) = none := by
        rw [Option.eq_none_iff_forall_ne_some]
        intro other found
        obtain ⟨member, same⟩ := holds.names.found _ _ found
        exact unused (List.mem_map.mpr ⟨_, List.mem_map_of_mem member, same.symm⟩)
      rw [insert?_eq_some.mpr ⟨nonblank, free, rfl⟩] at inserted
      cases inserted

theorem indexParameters_spec (holds : Holds byId names positions) (listed : WellListed (positions.map parameters.get))
    (rest : List (Fin parameters.length)) :
    (∃ full, indexParameters byId names rest = .ok full ∧ WellListed ((positions ++ rest).map parameters.get)) ∨
      ∃ before index after error, rest = before ++ index :: after ∧
        WellListed ((positions ++ before).map parameters.get) ∧
        fault? ((positions ++ before).map parameters.get) (parameters.get index) = some error ∧
        indexParameters byId names rest = .error error := by
  induction rest generalizing byId names positions with
  | nil => exact .inl ⟨_, rfl, by simpa using listed⟩
  | cons index rest ih =>
    rcases indexParameters_cons holds index rest with ⟨error, fault, failed⟩ | ⟨sound, ids, grown, holds, step⟩
    · exact .inr ⟨[], index, rest, error, rfl, by simpa using listed, by simpa using fault, failed⟩
    · have extended : WellListed ((positions ++ [index]).map parameters.get) := by
        rw [List.map_append, List.map_singleton]
        exact wellListed_concat.mpr ⟨listed, sound⟩
      rw [step]
      rcases ih holds extended with ⟨full, indexed, listed⟩ | ⟨before, other, after, error, rfl, listed, fault, failed⟩
      · exact .inl ⟨full, indexed, by rwa [List.append_cons]⟩
      · refine .inr ⟨index :: before, other, after, error, rfl, ?_, ?_, failed⟩
        · rwa [List.append_cons]
        · rwa [List.append_cons]

end Indexing

/-- The operators and the logical ones, each under the words that stand for it. -/
private def operatorCalls (operators : List String) : List (String × Phrase) :=
  logicalOperators.map (fun symbol => (symbol, .logical symbol)) ++
    operators.map fun operator => (collapse operator, .operator (collapse operator))

/-- The operator is not blank, and no logical operator or earlier operator has its words. -/
def Unspoken (earlier : List String) (operator : String) : Prop :=
  key operator ≠ [] ∧ ∀ other ∈ logicalOperators ++ earlier, key other ≠ key operator

instance (earlier : List String) (operator : String) : Decidable (Unspoken earlier operator) :=
  inferInstanceAs (Decidable (_ ∧ _))

/-- The operators that remain of a list, with their white space collapsed. -/
def keptOperators (operators : List String) : List String :=
  operators.zipIdx.filterMap fun (operator, index) =>
    if Unspoken (operators.take index) operator then some (collapse operator) else none

private theorem fresh_operatorCalls {earlier : List String} {operator : String} :
    Fresh (operatorCalls earlier) (collapse operator) ↔ Unspoken earlier operator := by
  have spoken : (∀ call ∈ operatorCalls earlier, key call.1 ≠ key operator) ↔
      ∀ other ∈ logicalOperators ++ earlier, key other ≠ key operator := by
    simp only [operatorCalls, List.forall_mem_append, List.forall_mem_map, key_collapse]
  rw [Fresh, Unspoken, key_collapse, spoken]

theorem keptOperators_concat (operators : List String) (operator : String) :
    keptOperators (operators ++ [operator]) =
      keptOperators operators ++ if Unspoken operators operator then [collapse operator] else [] := by
  unfold keptOperators
  rw [List.zipIdx_append, List.filterMap_append]
  congr 1
  · apply List.filterMap_congr
    rintro ⟨other, index⟩ member
    have inside : index < operators.length := by simpa using (List.mem_zipIdx member).2.1
    dsimp only
    rw [List.take_append_of_le_length (Nat.le_of_lt inside)]
  · rw [Nat.zero_add, List.zipIdx_singleton, List.filterMap_cons, List.filterMap_nil]
    dsimp only
    rw [List.take_left]
    by_cases unspoken : Unspoken operators operator <;> simp [unspoken]

theorem indexOperators_concat (phrases : PhraseTrie Phrase) (operators : List String) (operator : String) :
    let before := indexOperators phrases operators
    let grown := before.2.insert? (collapse operator) (.operator (collapse operator))
    indexOperators phrases (operators ++ [operator]) =
      (before.1 ++ (grown.map fun _ => collapse operator).toList, grown.getD before.2) := by
  induction operators generalizing phrases with
  | nil =>
    simp only [List.nil_append, indexOperators]
    split
    next refused => simp [refused]
    next grown accepted => simp [accepted]
  | cons first rest ih =>
    simp only [List.cons_append, indexOperators]
    split
    next => exact ih phrases
    next grown _ => rw [ih grown, List.cons_append]

private theorem indexOperators_kept (operators : List String) :
    (indexOperators logicalPhrases operators).1 = keptOperators operators ∧
      Represents (indexOperators logicalPhrases operators).2 (entries (operatorCalls operators)) := by
  induction operators using List.reverseRecOn with
  | nil =>
    have first : Represents (empty : PhraseTrie Phrase) (entries []) := represents_empty
    exact ⟨rfl, (first.step "AND" (.logical "AND")).step "OR" (.logical "OR")⟩
  | append_singleton operators operator ih =>
    obtain ⟨kept, represents⟩ := ih
    have accepted := represents.insert?_isSome (collapse operator) (.operator (collapse operator))
    rw [fresh_operatorCalls] at accepted
    have grown := represents.step (collapse operator) (.operator (collapse operator))
    rw [indexOperators_concat, keptOperators_concat]
    refine ⟨?_, ?_⟩
    · rw [kept]
      cases inserted : (indexOperators logicalPhrases operators).2.insert? (collapse operator)
          (.operator (collapse operator)) with
      | none => rw [if_neg (by simpa [inserted] using accepted)]; rfl
      | some next => rw [if_pos (by simpa [inserted] using accepted)]; rfl
    · simpa [operatorCalls] using grown

/-- A catalog whose lookups search the lists that it was built from. -/
structure Searches (parameters : List ParameterDef) (factors : FactorTable) (operators : List String)
    (catalog : Catalog) : Prop where
  listed : catalog.parameters = parameters
  offered : ∀ id, catalog.factorsFor id = factors.get id
  kept : catalog.operators = keptOperators operators
  byId : ∀ id parameter, catalog.parameter? id = some parameter ↔ parameter ∈ parameters ∧ parameter.id = id
  byName : ∀ name parameter,
    catalog.findParameter? name = some parameter ↔ parameter ∈ parameters ∧ key parameter.name = key name
  bySymbol : ∀ symbol operator,
    catalog.findOperator? symbol = some operator ↔ operator ∈ keptOperators operators ∧ key operator = key symbol
  name : ∀ words count parameter, catalog.matchParameter? words = some (count, parameter) ↔
    LongestAmong ParameterDef.name parameters words parameter ∧ count = (key parameter.name).length
  noName : ∀ words,
    catalog.matchParameter? words = none ↔ ∀ parameter ∈ parameters, ¬ key parameter.name <+: words.map lowercase
  phrase : ∀ words count phrase, catalog.matchPhrase? words = some (count, phrase) ↔
    LongestAmong Phrase.text (logicalOperators.map .logical ++ (keptOperators operators).map .operator) words phrase ∧
      count = (key phrase.text).length
  noPhrase : ∀ words, catalog.matchPhrase? words = none ↔
    ∀ symbol ∈ logicalOperators ++ keptOperators operators, ¬ key symbol <+: words.map lowercase

section

variable {factors : FactorTable} {operators : List String} {catalog : Catalog}

theorem fields_of_build (built : build parameters factors operators = .ok catalog) :
    catalog.parameters = parameters ∧ catalog.factors = factors ∧ catalog.operators = keptOperators operators := by
  rw [build_eq] at built
  cases indexed : indexParameters [] .empty (List.finRange parameters.length) with
  | error error =>
    rw [indexed] at built
    cases built
  | ok full =>
    rw [indexed] at built
    cases built
    exact ⟨rfl, rfl, (indexOperators_kept operators).1⟩

theorem build_cases (parameters : List ParameterDef) (factors : FactorTable) (operators : List String) :
    (∃ catalog, build parameters factors operators = .ok catalog ∧ WellListed parameters) ∨
      ∃ before parameter after error, parameters = before ++ parameter :: after ∧ WellListed before ∧
        fault? before parameter = some error ∧ build parameters factors operators = .error error := by
  have listed : WellListed [] := ⟨.nil, .nil, fun parameter member => by cases member⟩
  rw [build_eq]
  rcases indexParameters_spec holds_empty listed (List.finRange parameters.length) with
    ⟨full, indexed, listed⟩ | ⟨before, index, after, error, split, listed, fault, failed⟩
  · rw [indexed]
    rw [List.nil_append, List.map_get_finRange] at listed
    exact .inl ⟨_, rfl, listed⟩
  · have whole := congrArg (List.map parameters.get) split
    rw [List.map_get_finRange, List.map_append, List.map_cons] at whole
    rw [failed]
    exact .inr ⟨_, _, _, error, whole, listed, fault, rfl⟩

theorem not_wellListed_of_fault (fault : fault? earlier parameter = some error) (later : List ParameterDef) :
    ¬ WellListed (earlier ++ parameter :: later) := by
  intro listed
  rw [List.append_cons] at listed
  rw [(wellListed_concat.mp listed.of_append).2] at fault
  cases fault

theorem fault_unique {before before' after after' : List ParameterDef} {parameter' : ParameterDef}
    {error' : CatalogError} (same : before ++ parameter :: after = before' ++ parameter' :: after')
    (listed : WellListed before) (listed' : WellListed before') (fault : fault? before parameter = some error)
    (fault' : fault? before' parameter' = some error') : error = error' := by
  rcases List.append_eq_append_iff.mp same with ⟨between, rfl, rest⟩ | ⟨between, rfl, rest⟩
  · cases between with
    | nil =>
      simp only [List.nil_append, List.cons.injEq, List.append_nil] at rest fault'
      rw [rest.1, fault'] at fault
      exact (Option.some.inj fault).symm
    | cons first between =>
      obtain ⟨rfl, _⟩ := List.cons.inj rest
      exact absurd listed' (not_wellListed_of_fault fault between)
  · cases between with
    | nil =>
      simp only [List.nil_append, List.cons.injEq, List.append_nil] at rest fault
      rw [← rest.1, fault'] at fault
      exact (Option.some.inj fault).symm
    | cons first between =>
      obtain ⟨rfl, _⟩ := List.cons.inj rest
      exact absurd listed (not_wellListed_of_fault fault' between)

theorem build_eq_error : build parameters factors operators = .error error ↔
    ∃ before parameter after, parameters = before ++ parameter :: after ∧ WellListed before ∧
      fault? before parameter = some error := by
  rcases build_cases parameters factors operators with
    ⟨catalog, built, listed⟩ | ⟨before, parameter, after, first, split, well, fault, failed⟩
  · rw [built]
    constructor
    · rintro ⟨⟩
    · rintro ⟨before, parameter, after, rfl, _, fault⟩
      exact absurd listed (not_wellListed_of_fault fault after)
  · rw [failed]
    constructor
    · rintro ⟨⟩
      exact ⟨before, parameter, after, split, well, fault⟩
    · rintro ⟨before', parameter', after', split', well', fault'⟩
      rw [fault_unique (split.symm.trans split') well well' fault fault']

theorem isOk_build : (build parameters factors operators).isOk = true ↔ WellListed parameters := by
  rcases build_cases parameters factors operators with
    ⟨catalog, built, listed⟩ | ⟨before, parameter, after, error, rfl, _, fault, failed⟩
  · simp [built, listed, Except.isOk, Except.toBool]
  · simp [failed, not_wellListed_of_fault fault after, Except.isOk, Except.toBool]

theorem searches_of_build (built : build parameters factors operators = .ok catalog) :
    Searches parameters factors operators catalog := by
  obtain ⟨listed, table, kept⟩ := fields_of_build built
  have indexed := indexed_of_build built
  subst listed
  refine {
    listed := rfl
    offered := fun id => by rw [factorsFor, table]
    kept := kept
    byId := fun id parameter => indexed.parameter?_eq_some
    byName := fun name parameter => indexed.findParameter?_eq_some_iff
    bySymbol := fun symbol operator => ?_
    name := fun words count parameter => indexed.matchParameter?_eq_some_iff
    noName := fun words => indexed.matchParameter?_eq_none
    phrase := fun words count phrase => kept ▸ indexed.phrases.longestMatch_eq_some
    noPhrase := fun words => ?_ }
  · have lookup : catalog.findOperator? symbol = some operator ↔
        catalog.phrases.get? symbol = some (.operator operator) := by
      unfold findOperator?
      split
      next found => simp [found]
      next other =>
        simp only [reduceCtorEq, false_iff]
        exact other operator
    rw [lookup, indexed.phrases.get?_eq_some_iff, ← kept]
    simp [phraseList, Phrase.text]
  · rw [matchPhrase?, indexed.phrases.longestMatch_eq_none, ← kept]
    simp only [phraseList, List.forall_mem_append, List.forall_mem_map, Phrase.text]

/-- A catalog is built just when the parameters are well listed, the first fault being reported otherwise, and all
that it is asked is answered from the lists. -/
theorem build_searches (parameters : List ParameterDef) (factors : FactorTable) (operators : List String) :
    ((build parameters factors operators).isOk = true ↔ WellListed parameters) ∧
      (∀ error, build parameters factors operators = .error error ↔
        ∃ before parameter after, parameters = before ++ parameter :: after ∧ WellListed before ∧
          fault? before parameter = some error) ∧
      ∀ catalog, build parameters factors operators = .ok catalog →
        Searches parameters factors operators catalog :=
  ⟨isOk_build, fun _ => build_eq_error, fun _ => searches_of_build⟩

private def oddListing : Except CatalogError Catalog :=
  build [⟨7, " Credit  Score"⟩, ⟨-3, "Credit"⟩] (.ofList [(7, [.single "Gold"])]) ["Not  In", " ", "and", "not in", ">"]

/-- A longer name is preferred to a shorter one, and a repeated operator, a blank one and a logical one are dropped. -/
theorem build_searches_oddListing :
    ∃ catalog, oddListing = .ok catalog ∧ catalog.operators = ["Not In", ">"] ∧
      LongestAmong ParameterDef.name [⟨7, " Credit  Score"⟩, ⟨-3, "Credit"⟩] ["CREDIT", "score", ">"]
        ⟨7, " Credit  Score"⟩ ∧
      catalog.findOperator? "NOT IN" = some "Not In" ∧ catalog.findOperator? "or" = none := by
  obtain ⟨catalog, built, matched⟩ : ∃ catalog, oddListing = .ok catalog ∧
      catalog.matchParameter? ["CREDIT", "score", ">"] = some (2, ⟨7, " Credit  Score"⟩) := ⟨_, rfl, by decide⟩
  have searches := (build_searches _ _ _).2.2 catalog built
  have kept : keptOperators ["Not  In", " ", "and", "not in", ">"] = ["Not In", ">"] := by decide
  refine ⟨catalog, built, searches.kept.trans kept, ((searches.name _ _ _).mp matched).1, ?_, ?_⟩
  · rw [searches.bySymbol, kept]
    decide
  · rw [Option.eq_none_iff_forall_ne_some]
    intro operator found
    obtain ⟨member, same⟩ := (searches.bySymbol _ _).mp found
    rw [kept] at member
    have apart : ∀ operator ∈ ["Not In", ">"], key operator ≠ key "or" := by decide
    exact apart operator member same

end

end Catalog

end Criteria
