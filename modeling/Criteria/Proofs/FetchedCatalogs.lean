import Criteria.Catalog.Source
import Criteria.Proofs.CatalogOrder
/-!
Fetching a catalog and building one. The calls go down one list, and the first of them that fails ends the list and is
the error. When none fails, the catalog is the one that is built from what was fetched: a list of factors that came back
empty leaves no trace in it.
-/

namespace Criteria

namespace Catalog

/-- Two catalogs with the same lists, of which every question gets the same answer. -/
structure SameAnswers (first second : Catalog) : Prop where
  parameters : first.parameters = second.parameters
  operators : first.operators = second.operators
  lookups : Alike first second
  hasFactors : first.hasFactors = second.hasFactors
  findFactor : first.findFactor? = second.findFactor?

/-- Both end with the same error, or with catalogs that give the same answers. -/
inductive SameResult : Except CatalogError Catalog → Except CatalogError Catalog → Prop
  | failed (error : CatalogError) : SameResult (.error error) (.error error)
  | built {first second : Catalog} (same : SameAnswers first second) : SameResult (.ok first) (.ok second)

theorem SameResult.eq_error {result : Except CatalogError Catalog} {error : CatalogError}
    (same : SameResult result (.error error)) : result = .error error := by
  cases same
  rfl

theorem SameResult.eq_ok {result : Except CatalogError Catalog} {catalog : Catalog}
    (same : SameResult result (.ok catalog)) : ∃ other, result = .ok other ∧ SameAnswers other catalog := by
  cases same with
  | built same => exact ⟨_, rfl, same⟩

/-- Of the table of factors only the lists that it gives out matter. -/
theorem build_congr {first second : FactorTable} (same : first.get = second.get) (parameters : List ParameterDef)
    (operators : List String) :
    SameResult (build parameters first operators) (build parameters second operators) := by
  rw [build_eq, build_eq]
  cases indexParameters [] .empty (List.finRange parameters.length) with
  | error error => exact .failed error
  | ok full =>
    have offered (id : ParameterId) : first.get id = second.get id := congrFun same id
    refine .built ⟨rfl, rfl, ⟨rfl, rfl, rfl, rfl, rfl, same⟩, ?_, ?_⟩
    · funext id
      simp only [hasFactors, factorsFor, offered]
    · funext id value
      simp only [findFactor?, factorsFor, offered]

end Catalog

/-- All calls that there are to make, in order. -/
def SourceCall.schedule (parameters : List ParameterDef) : List SourceCall :=
  .parameters :: parameters.map (.factors ·.id) ++ [.operators]

namespace SourceAnswers

open Catalog SourceCall

def errorOf? {α : Type} : Except CatalogError α → Option CatalogError
  | .ok _ => none
  | .error error => some error

theorem errorOf?_eq_none {α : Type} {result : Except CatalogError α} :
    errorOf? result = none ↔ ∃ value, result = .ok value := by
  cases result <;> simp [errorOf?]

theorem errorOf?_eq_some {α : Type} {result : Except CatalogError α} {error : CatalogError} :
    errorOf? result = some error ↔ result = .error error := by
  cases result <;> simp [errorOf?]

variable (answers : SourceAnswers)

/-- The error with which the call fails. -/
def failure? : SourceCall → Option CatalogError
  | .parameters => errorOf? answers.parameters
  | .factors id => errorOf? (answers.factors id)
  | .operators => errorOf? answers.operators

def listed : List ParameterDef := answers.parameters.toOption.getD []

def offered (id : ParameterId) : List FactorDef := (answers.factors id).toOption.getD []

/-- The table gives out what was answered for these parameters, and nothing for any other id. -/
def Tabulates (table : FactorTable) : Prop :=
  ∀ id, table.get id = if id ∈ answers.listed.map ParameterDef.id then answers.offered id else []

variable {answers} {parameters : List ParameterDef} {error : CatalogError}

theorem fetchFactors_of_answered (answered : ∀ parameter ∈ parameters, answers.failure? (.factors parameter.id) = none)
    (table : FactorTable) (partly : ∀ id, table.get id = [] ∨ table.get id = answers.offered id) :
    ∃ full, answers.fetchFactors table parameters = (parameters.map (.factors ·.id), .ok full) ∧
      ∀ id, full.get id = if id ∈ parameters.map ParameterDef.id then answers.offered id else table.get id := by
  induction parameters generalizing table with
  | nil => exact ⟨table, rfl, fun id => by simp⟩
  | cons parameter rest ih =>
    obtain ⟨here, later⟩ := List.forall_mem_cons.mp answered
    obtain ⟨factors, given⟩ := errorOf?_eq_none.mp here
    have offers : answers.offered parameter.id = factors := by rw [offered, given]; rfl
    -- An empty list is not entered, which leaves the table as if it were.
    have entered (id : ParameterId) :
        (if factors.isEmpty then table else table.insert parameter.id factors).get id =
          if id = parameter.id then factors else table.get id := by
      by_cases same : id = parameter.id
      · subst same
        rw [if_pos rfl]
        split
        next empty =>
          have missing := partly parameter.id
          rw [offers, List.isEmpty_iff.mp empty, or_self] at missing
          rw [missing, List.isEmpty_iff.mp empty]
        next => exact FactorTable.get_insert_self ..
      · rw [if_neg same]
        split
        · rfl
        · exact FactorTable.get_insert_of_ne table same factors
    obtain ⟨full, fetched, lists⟩ := ih later
      (if factors.isEmpty then table else table.insert parameter.id factors) fun id => by
        rw [entered]
        split
        next same => exact .inr (same ▸ offers.symm)
        next => exact partly id
    refine ⟨full, ?_, fun id => ?_⟩
    · simp only [fetchFactors, given, fetched, List.map_cons]
    · rw [lists, entered, List.map_cons]
      by_cases same : id = parameter.id
      · simp [same, offers]
      · simp [same]

theorem fetchFactors_of_failed {before after : List ParameterDef} {parameter : ParameterDef}
    (answered : ∀ other ∈ before, answers.failure? (.factors other.id) = none)
    (failed : answers.failure? (.factors parameter.id) = some error) (table : FactorTable) :
    answers.fetchFactors table (before ++ parameter :: after) =
      (before.map (.factors ·.id) ++ [.factors parameter.id], .error error) := by
  induction before generalizing table with
  | nil =>
    have refused : answers.factors parameter.id = .error error := errorOf?_eq_some.mp failed
    simp only [List.nil_append, fetchFactors, refused, List.map_nil]
  | cons other before ih =>
    obtain ⟨here, later⟩ := List.forall_mem_cons.mp answered
    obtain ⟨factors, given⟩ := errorOf?_eq_none.mp here
    simp only [List.cons_append, fetchFactors, given, ih later, List.map_cons]

theorem fetch_of_answered (answered : ∀ call ∈ schedule answers.listed, answers.failure? call = none) :
    ∃ parameters operators full, answers.parameters = .ok parameters ∧ answers.operators = .ok operators ∧
      answers.Tabulates full ∧
        answers.fetch = (schedule answers.listed, Catalog.build parameters full operators) := by
  simp only [schedule, List.cons_append, List.forall_mem_cons, List.forall_mem_append, List.forall_mem_map] at answered
  obtain ⟨first, between, last, -⟩ := answered
  obtain ⟨parameters, given⟩ := errorOf?_eq_none.mp first
  obtain ⟨operators, closing⟩ := errorOf?_eq_none.mp last
  have list : answers.listed = parameters := by rw [listed, given]; rfl
  rw [list] at between
  obtain ⟨full, fetched, lists⟩ := fetchFactors_of_answered between .empty fun id => .inl rfl
  refine ⟨parameters, operators, full, given, closing, fun id => by rw [lists, list]; rfl, ?_⟩
  simp only [fetch, given, fetched, closing, list, schedule]

theorem fetch_of_failed {before after : List SourceCall} {call : SourceCall}
    (order : schedule answers.listed = before ++ call :: after)
    (answered : ∀ earlier ∈ before, answers.failure? earlier = none) (failed : answers.failure? call = some error) :
    answers.fetch = (before ++ [call], .error error) := by
  rw [schedule, List.cons_append] at order
  rcases List.cons_eq_append_iff.mp order with ⟨rfl, same⟩ | ⟨before, rfl, order⟩
  · obtain ⟨rfl, _⟩ := List.cons.inj same
    have refused : answers.parameters = .error error := errorOf?_eq_some.mp failed
    simp only [fetch, refused, List.nil_append]
  · obtain ⟨first, answered⟩ := List.forall_mem_cons.mp answered
    obtain ⟨parameters, given⟩ := errorOf?_eq_none.mp first
    have list : answers.listed = parameters := by rw [listed, given]; rfl
    rw [list] at order
    rw [List.cons_append, List.cons.injEq] at order
    replace order := order.2
    rcases List.append_eq_append_iff.mp order with ⟨between, rfl, rest⟩ | ⟨between, split, rest⟩
    · -- Every list of factors was answered, so it is the operators that fail.
      obtain ⟨rfl, rfl, _⟩ : between = [] ∧ call = .operators ∧ after = [] := by
        simpa [List.append_eq_singleton_iff] using rest.symm
      simp only [List.append_nil, List.forall_mem_map] at answered
      obtain ⟨full, fetched, _⟩ := fetchFactors_of_answered answered .empty fun id => .inl rfl
      have refused : answers.operators = .error error := errorOf?_eq_some.mp failed
      simp only [fetch, given, fetched, refused, List.append_nil]
    · cases between with
      | nil =>
        obtain ⟨rfl, _⟩ := List.cons.inj rest
        rw [List.append_nil] at split
        subst split
        simp only [List.forall_mem_map] at answered
        obtain ⟨full, fetched, _⟩ := fetchFactors_of_answered answered .empty fun id => .inl rfl
        have refused : answers.operators = .error error := errorOf?_eq_some.mp failed
        simp only [fetch, given, fetched, refused]
      | cons other between =>
        obtain ⟨rfl, _⟩ := List.cons.inj rest
        obtain ⟨earlier, later, rfl, rfl, kept⟩ := List.map_eq_append_iff.mp split
        obtain ⟨parameter, last, rfl, rfl, rfl⟩ := List.map_eq_cons_iff.mp kept
        simp only [List.forall_mem_map] at answered
        simp only [fetch, given, fetchFactors_of_failed answered failed, List.cons_append]

theorem answered_or_failed (answers : SourceAnswers) (calls : List SourceCall) :
    (∀ call ∈ calls, answers.failure? call = none) ∨
      ∃ before call after error, calls = before ++ call :: after ∧
        (∀ earlier ∈ before, answers.failure? earlier = none) ∧ answers.failure? call = some error := by
  cases found : calls.find? fun call => (answers.failure? call).isSome with
  | none => exact .inl (by simpa using found)
  | some call =>
    obtain ⟨fails, before, after, order, answered⟩ := List.find?_eq_some_iff_append.mp found
    obtain ⟨error, failed⟩ := Option.isSome_iff_exists.mp fails
    exact .inr ⟨before, call, after, error, order, by simpa using answered, failed⟩

/-- The calls begin the list of all that there are to make. They end with the first that fails, whose error is the
result. If none fails then the result is what is built from the answers, also when that is an error. -/
theorem fetch_traced (answers : SourceAnswers) :
    answers.fetch.1 <+: schedule answers.listed ∧
    (∀ before call after error, schedule answers.listed = before ++ call :: after →
      (∀ earlier ∈ before, answers.failure? earlier = none) → answers.failure? call = some error →
        answers.fetch = (before ++ [call], .error error)) ∧
    ((∀ call ∈ schedule answers.listed, answers.failure? call = none) →
      ∃ parameters operators, answers.parameters = .ok parameters ∧ answers.operators = .ok operators ∧
        answers.fetch.1 = schedule answers.listed ∧ (∃ table, answers.Tabulates table) ∧
          ∀ table, answers.Tabulates table → SameResult answers.fetch.2 (build parameters table operators)) := by
  refine ⟨?_, fun before call after error order answered failed => fetch_of_failed order answered failed, ?_⟩
  · rcases answers.answered_or_failed (schedule answers.listed) with
      answered | ⟨before, call, after, error, order, answered, failed⟩
    · obtain ⟨_, _, _, _, _, _, fetched⟩ := fetch_of_answered answered
      rw [fetched]
    · rw [fetch_of_failed order answered failed, order]
      exact ⟨after, by simp⟩
  · intro answered
    obtain ⟨parameters, operators, full, given, closing, tabulates, fetched⟩ := fetch_of_answered answered
    refine ⟨parameters, operators, given, closing, by rw [fetched], ⟨full, tabulates⟩, fun table same => ?_⟩
    rw [fetched]
    exact build_congr (funext fun id => (tabulates id).trans (same id).symm) parameters operators

private def townAnswers (parameters : List ParameterDef) (operators : Except CatalogError (List String)) :
    SourceAnswers where
  parameters := .ok parameters
  factors := fun id => if id = 5 then .ok [.single "Paris"] else if id = 9 then .ok [] else .error (.source "offline")
  operators := operators

/-- An id that is listed twice is asked for twice. It is an error only behind the last call, whose own error comes
first. The empty list of the second parameter is not in the table. -/
theorem fetch_traced_townAnswers :
    (townAnswers [⟨5, "Town"⟩, ⟨9, "Loan"⟩, ⟨5, "City"⟩] (.error (.source "offline"))).fetch =
      ([.parameters, .factors 5, .factors 9, .factors 5, .operators], .error (.source "offline")) ∧
    (townAnswers [⟨5, "Town"⟩, ⟨9, "Loan"⟩, ⟨5, "City"⟩] (.ok [">"])).fetch =
      ([.parameters, .factors 5, .factors 9, .factors 5, .operators], .error (.duplicateId 5)) ∧
    ∃ fetched built, (townAnswers [⟨5, "Town"⟩, ⟨9, "Loan"⟩] (.ok [">"])).fetch =
        ([.parameters, .factors 5, .factors 9, .operators], .ok fetched) ∧
      build [⟨5, "Town"⟩, ⟨9, "Loan"⟩] (.ofList [(5, [.single "Paris"])]) [">"] = .ok built ∧
        SameAnswers fetched built := by
  obtain ⟨_, failed, _⟩ :=
    fetch_traced (townAnswers [⟨5, "Town"⟩, ⟨9, "Loan"⟩, ⟨5, "City"⟩] (.error (.source "offline")))
  obtain ⟨_, _, repeated⟩ := fetch_traced (townAnswers [⟨5, "Town"⟩, ⟨9, "Loan"⟩, ⟨5, "City"⟩] (.ok [">"]))
  obtain ⟨_, _, answered⟩ := fetch_traced (townAnswers [⟨5, "Town"⟩, ⟨9, "Loan"⟩] (.ok [">"]))
  refine ⟨failed [.parameters, .factors 5, .factors 9, .factors 5] .operators [] _ rfl (by decide) rfl, ?_, ?_⟩
  · obtain ⟨_, _, ⟨⟩, ⟨⟩, calls, ⟨table, tabulates⟩, same⟩ := repeated (by decide)
    have refused : build [⟨5, "Town"⟩, ⟨9, "Loan"⟩, ⟨5, "City"⟩] table [">"] = .error (.duplicateId 5) := rfl
    exact Prod.ext calls ((refused ▸ same table tabulates).eq_error)
  · obtain ⟨_, _, ⟨⟩, ⟨⟩, calls, _, same⟩ := answered (by decide)
    have tabulates : (townAnswers [⟨5, "Town"⟩, ⟨9, "Loan"⟩] (.ok [">"])).Tabulates
        (.ofList [(5, [.single "Paris"])]) := by
      intro id
      by_cases town : id = 5
      · subst town
        decide
      · by_cases loan : id = 9
        · subst loan
          decide
        · have unlisted : id ∉ [⟨5, "Town"⟩, ⟨9, "Loan"⟩].map ParameterDef.id := by simp [town, loan]
          refine Eq.trans ?_ (if_neg unlisted).symm
          exact FactorTable.get_insert_of_ne .empty town _
    obtain ⟨fetched, result, alike⟩ := SameResult.eq_ok (same _ tabulates)
    exact ⟨fetched, _, Prod.ext calls result, rfl, alike⟩

end SourceAnswers

end Criteria
