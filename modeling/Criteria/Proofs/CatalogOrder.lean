import Criteria.Proofs.CatalogLookups
import Criteria.Proofs.ReachableSessions
/-!
The order of a catalog's lists. Two catalogs that answer every lookup alike read every text alike and carry every
session through the same edits with the same results. Catalogs built from the same parameters and operators in
different orders are such catalogs, since a lookup asks only what the lists contain.
-/

namespace Criteria

open Text PhraseTrie

theorem PhraseTrie.longestAmong_congr {α : Type} {text : α → String} {members members' : List α} {words : List String}
    {value : α} (same : ∀ value, value ∈ members ↔ value ∈ members') :
    LongestAmong text members words value ↔ LongestAmong text members' words value := by
  constructor
  · rintro ⟨member, begins, longest⟩
    exact ⟨(same value).mp member, begins, fun other known => longest other ((same other).mpr known)⟩
  · rintro ⟨member, begins, longest⟩
    exact ⟨(same value).mpr member, begins, fun other known => longest other ((same other).mp known)⟩

namespace Catalog

/-- Two catalogs that answer every lookup alike. -/
structure Alike (first second : Catalog) : Prop where
  byId : first.parameter? = second.parameter?
  byName : first.findParameter? = second.findParameter?
  bySymbol : first.findOperator? = second.findOperator?
  name : first.matchParameter? = second.matchParameter?
  phrase : first.matchPhrase? = second.matchPhrase?
  offered : first.factorsFor = second.factorsFor

end Catalog

open Catalog

variable {first second : Catalog}

namespace Grammar

theorem parameterId?_alike (alike : Alike first second) : parameterId? first = parameterId? second := by
  funext token
  cases token with
  | parameter name id => cases id <;> simp only [parameterId?, alike.byName]
  | factor | operator | logicalOperator | openParen | closeParen | unknown => rfl

theorem factorsOf_alike (alike : Alike first second) : factorsOf first = factorsOf second := by
  funext token
  simp only [factorsOf, parameterId?_alike alike, alike.offered]

theorem isFreeText_alike (alike : Alike first second) : isFreeText first = isFreeText second := by
  funext token
  simp only [isFreeText, factorsOf_alike alike]

theorem analyze_alike (alike : Alike first second) : analyze first = analyze second := by
  funext tokens
  simp only [analyze, position, isFreeText_alike alike]

theorem checkAppend_alike (alike : Alike first second) : checkAppend first = checkAppend second := by
  funext tokens kind
  simp only [checkAppend, analyze_alike alike]

theorem advance_alike (alike : Alike first second) : advance first = advance second := by
  funext position token
  simp only [advance, isFreeText_alike alike]

theorem activeFactors_alike (alike : Alike first second) : activeFactors first = activeFactors second := by
  funext tokens
  simp only [activeFactors, factorsOf_alike alike]

end Grammar

namespace Reading

theorem catalogFactor?_alike (alike : Alike first second) : catalogFactor? first = catalogFactor? second := by
  funext passed words
  simp only [catalogFactor?, Grammar.factorsOf_alike alike]

theorem untilBoundary_alike (alike : Alike first second) : untilBoundary first = untilBoundary second := by
  funext words
  induction words with
  | nil => rfl
  | cons word rest ih => rw [untilBoundary, untilBoundary, isBoundary, isBoundary, alike.phrase, ih]

theorem runTokens_alike (alike : Alike first second) : runTokens first = runTokens second := by
  funext passed run
  unfold runTokens findFactor?
  rw [Grammar.parameterId?_alike alike, alike.offered]

theorem tokensAt_alike (alike : Alike first second) : tokensAt first = tokensAt second := by
  funext passed word rest
  simp only [tokensAt, catalogFactor?_alike alike, alike.phrase, alike.name, untilBoundary_alike alike,
    runTokens_alike alike]

theorem scanFrom_alike (alike : Alike first second) (passed : List Token) (taken : Nat) (words : List String) :
    scanFrom first passed taken words = scanFrom second passed taken words := by
  induction words generalizing passed taken with
  | nil => cases taken <;> rfl
  | cons word rest ih =>
    cases taken with
    | zero => simp only [scanFrom, tokensAt_alike alike, ih]
    | succ taken => simp only [scanFrom, ih]

theorem reclassify_alike (alike : Alike first second) (afterOperator : Bool) (tokens : List Token) :
    reclassify first afterOperator tokens = reclassify second afterOperator tokens := by
  have subject : asSubject first = asSubject second := by
    funext token
    cases token <;> simp only [asSubject, asParameter, alike.byName]
  induction tokens generalizing afterOperator with
  | nil => rfl
  | cons token rest ih => simp only [reclassify, subject, ih]

theorem markFrom_alike (alike : Alike first second) (position : GrammarPosition) (tokens : List Token) :
    markFrom first position tokens = markFrom second position tokens := by
  induction tokens generalizing position with
  | nil => rfl
  | cons token rest ih => simp only [markFrom, Grammar.advance_alike alike, ih]

theorem parse_alike (alike : Alike first second) : parse first = parse second := by
  funext text
  simp only [parse, scan, scanFrom_alike alike, reclassify_alike alike, markFrom_alike alike]

end Reading

namespace Rendering

theorem display_alike (alike : Alike first second) (spaced : Bool) (tokens : List Token) :
    display first spaced tokens = display second spaced tokens := by
  have part : displayPart first spaced = displayPart second spaced := by
    funext governing token
    cases token <;> simp only [displayPart, spacedRange?, Grammar.factorsOf_alike alike]
  have parts (governing : Option Token) :
      displayParts first spaced governing tokens = displayParts second spaced governing tokens := by
    induction tokens generalizing governing with
    | nil => rfl
    | cons token rest ih => simp only [displayParts, part, ih]
  rw [display, display, parts]

theorem resolve_alike (alike : Alike first second) : resolve first = resolve second := by
  funext name id
  simp only [resolve, alike.byId]

theorem payload_alike (alike : Alike first second) (tokens : List Token) :
    payload first tokens = payload second tokens := by
  have part : payloadPart first = payloadPart second := by
    funext index token
    cases token <;> simp only [payloadPart, resolve_alike alike]
  have parts (index : Nat) : payloadParts first index tokens = payloadParts second index tokens := by
    induction tokens generalizing index with
    | nil => rfl
    | cons token rest ih => simp only [payloadParts, part, ih]
  rw [payload, payload, parts]

end Rendering

namespace Session

/-- The session with another catalog in the place of its own. -/
def moved (session : Session) (catalog : Catalog) : Session := { session with catalog }

variable {session : Session}

theorem opened_moved (alike : Alike first second) (spaced : Bool) (saved : Option String) :
    opened second spaced saved = (opened first spaced saved).moved second := by
  cases saved with
  | none => rfl
  | some text => simp only [opened, load, moved, Reading.parse_alike alike]

theorem outcome_moved (alike : Alike session.catalog second) : (session.moved second).outcome = session.outcome := by
  simp only [outcome, snapshot, Session.display, moved, Grammar.analyze_alike alike,
    Grammar.activeFactors_alike alike, Rendering.display_alike alike, Rendering.payload_alike alike]

theorem finalize_moved (alike : Alike session.catalog second) : (session.moved second).finalize = session.finalize := by
  unfold finalize snapshot moved Rendering.render
  rw [Grammar.analyze_alike alike, Rendering.display_alike alike, Rendering.payload_alike alike]

theorem resolve_alike (alike : Alike first second) : resolve first = resolve second := by
  funext kind value
  cases kind <;> simp only [resolve, alike.byName, alike.bySymbol]

theorem accept_alike (alike : Alike first second) : accept first = accept second := by
  funext token
  cases token <;> simp only [accept, Rendering.resolve_alike alike]

theorem accepted_moved (session : Session) (alike : Alike session.catalog second) :
    (session.moved second).accepted = ⟨session.accepted.result, session.accepted.session.moved second⟩ := by
  rw [accepted, outcome_moved alike, accepted]

/-- A call has the same result under the other catalog, an error being the same error. -/
theorem apply_moved (alike : Alike session.catalog second) (edit : Edit) :
    (session.moved second).apply edit =
      ⟨(session.apply edit).result, (session.apply edit).session.moved second⟩ := by
  have add (kind : TokenKind) (found : Except ExpressionError Token) :
      (session.moved second).add kind found =
        ⟨(session.add kind found).result, (session.add kind found).session.moved second⟩ := by
    unfold Session.add
    split
    next => rfl
    next =>
      simp only [moved, ← Grammar.checkAppend_alike alike]
      split
      next => rfl
      next =>
        cases found with
        | error error => rfl
        | ok token => exact accepted_moved (session.push token) alike
  cases edit with
  | append kind value =>
    have resolved : Session.resolve second kind value = Session.resolve session.catalog kind value := by
      rw [resolve_alike alike]
    exact (congrArg _ resolved).trans (add kind _)
  | appendToken token =>
    have same : accept second token = accept session.catalog token := by rw [accept_alike alike]
    exact (congrArg _ same).trans (add token.kind _)
  | appendFactor factor => exact add .factor (.ok _)
  | removeLast => exact accepted_moved session.removeLast alike
  | reset => exact accepted_moved session.reset alike

theorem run_moved (alike : Alike session.catalog second) (edits : List Edit) :
    (session.moved second).run edits = (session.run edits).moved second := by
  induction edits generalizing session with
  | nil => rfl
  | cons edit rest ih =>
    have step : (session.moved second).next edit = (session.next edit).moved second := by
      rw [next, apply_moved alike, next]
    show ((session.moved second).next edit).run rest = ((session.next edit).run rest).moved second
    rw [step]
    exact ih ((session.step_next edit).catalog_eq ▸ alike)

end Session

namespace Catalog

section

variable {parameters parameters' : List ParameterDef} {factors factors' : FactorTable}
  {operators operators' : List String}

theorem WellListed.perm (same : parameters.Perm parameters') (listed : WellListed parameters) :
    WellListed parameters' where
  ids := (same.map _).nodup_iff.mp listed.ids
  names := (same.map _).nodup_iff.mp listed.names
  nonblank := fun parameter member => listed.nonblank parameter (same.mem_iff.mpr member)

/-- The words of the operators that are not blank. -/
def operatorKeys (operators : List String) : List (List String) :=
  (operators.map key).filter (!·.isEmpty)

private theorem unspoken_of_distinct {operator : String} (distinct : (operatorKeys (operators ++ [operator])).Nodup) :
    Unspoken operators operator ↔ Unspoken [] operator := by
  simp only [Unspoken, List.forall_mem_append, List.append_nil]
  constructor
  · rintro ⟨solid, logical, _⟩
    exact ⟨solid, logical⟩
  · rintro ⟨solid, logical⟩
    refine ⟨solid, logical, fun other member same => ?_⟩
    have last : operatorKeys (operators ++ [operator]) = operatorKeys operators ++ [key operator] := by
      simp [operatorKeys, solid]
    rw [last, ← List.concat_eq_append, List.nodup_concat] at distinct
    exact distinct.1 (List.mem_filter.mpr ⟨List.mem_map.mpr ⟨other, member, same⟩, by simpa using solid⟩)

/-- With distinct words every operator is kept that is not blank and not a logical one. -/
theorem mem_keptOperators (distinct : (operatorKeys operators).Nodup) {symbol : String} :
    symbol ∈ keptOperators operators ↔ ∃ operator ∈ operators, Unspoken [] operator ∧ collapse operator = symbol := by
  induction operators using List.reverseRecOn with
  | nil => simp [keptOperators]
  | append_singleton operators operator ih =>
    have earlier : (operatorKeys operators).Nodup := by
      rw [operatorKeys, List.map_append, List.filter_append] at distinct
      exact distinct.of_append_left
    rw [keptOperators_concat, List.mem_append, ih earlier]
    simp only [unspoken_of_distinct distinct, List.mem_append, List.mem_singleton, or_and_right, exists_or,
      exists_eq_left]
    refine or_congr_right ?_
    split
    next unspoken => simp [unspoken, eq_comm]
    next spoken => simp [spoken]

theorem mem_keptOperators_perm (same : operators.Perm operators') (distinct : (operatorKeys operators).Nodup)
    (symbol : String) : symbol ∈ keptOperators operators ↔ symbol ∈ keptOperators operators' := by
  have distinct' : (operatorKeys operators').Nodup := ((same.map key).filter _).nodup_iff.mp distinct
  rw [mem_keptOperators distinct, mem_keptOperators distinct']
  simp only [same.mem_iff]

theorem alike_of_searches (known : ∀ parameter, parameter ∈ parameters ↔ parameter ∈ parameters')
    (offered : ∀ id, factors.get id = factors'.get id)
    (spoken : ∀ symbol, symbol ∈ keptOperators operators ↔ symbol ∈ keptOperators operators')
    (one : Searches parameters factors operators first) (other : Searches parameters' factors' operators' second) :
    Alike first second where
  byId := by
    funext id
    ext parameter
    rw [one.byId, other.byId, known]
  byName := by
    funext name
    ext parameter
    rw [one.byName, other.byName, known]
  bySymbol := by
    funext symbol
    ext operator
    rw [one.bySymbol, other.bySymbol, spoken]
  name := by
    funext words
    ext ⟨count, parameter⟩
    rw [one.name, other.name, longestAmong_congr known]
  phrase := by
    funext words
    ext ⟨count, phrase⟩
    have known (phrase : Phrase) :
        phrase ∈ logicalOperators.map Phrase.logical ++ (keptOperators operators).map Phrase.operator ↔
          phrase ∈ logicalOperators.map Phrase.logical ++ (keptOperators operators').map Phrase.operator := by
      simp [spoken]
    rw [one.phrase, other.phrase, longestAmong_congr known]
  offered := by
    funext id
    rw [one.offered, other.offered, offered]

theorem isOk_build_perm (same : parameters.Perm parameters') :
    (build parameters factors operators).isOk = (build parameters' factors' operators').isOk := by
  rw [Bool.eq_iff_iff, isOk_build, isOk_build]
  exact ⟨WellListed.perm same, WellListed.perm same.symm⟩

end

end Catalog

namespace Session

variable {parameters parameters' : List ParameterDef} {factors factors' : FactorTable}
  {operators operators' : List String}

/-- Whether a catalog can be built, what is read with it and how any session runs with it does not depend on the order
of its parameters and operators. -/
theorem run_reordered (listed : parameters.Perm parameters') (offered : ∀ id, factors.get id = factors'.get id)
    (spoken : operators.Perm operators') (distinct : (operatorKeys operators).Nodup) :
    (build parameters factors operators).isOk = (build parameters' factors' operators').isOk ∧
      ∀ first second, build parameters factors operators = .ok first →
        build parameters' factors' operators' = .ok second →
        (∀ text, Reading.parse first text = Reading.parse second text) ∧
          ∀ spaced saved edits,
            let one := (opened first spaced saved).run edits
            let other := (opened second spaced saved).run edits
            one.tokens = other.tokens ∧ one.outcome = other.outcome ∧ one.ambiguities = other.ambiguities ∧
              one.finalize = other.finalize ∧ ∀ edit, (one.apply edit).result = (other.apply edit).result := by
  refine ⟨isOk_build_perm listed, fun first second built built' => ?_⟩
  have alike : Alike first second :=
    alike_of_searches (fun _ => listed.mem_iff) offered (mem_keptOperators_perm spoken distinct)
      (searches_of_build built) (searches_of_build built')
  refine ⟨fun text => by rw [Reading.parse_alike alike], ?_⟩
  intro spaced saved edits one other
  have start : Alike (opened first spaced saved).catalog second := (catalog_opened first spaced saved).symm ▸ alike
  have same : other = one.moved second := by
    simp only [other, one, opened_moved alike, run_moved start]
  have alike : Alike one.catalog second := (catalog_run _ edits).symm ▸ start
  refine ⟨by rw [same]; rfl, by rw [same, outcome_moved alike], by rw [same]; rfl, by rw [same, finalize_moved alike],
    fun edit => ?_⟩
  rw [same, apply_moved alike]

private def amountForm : Except CatalogError Catalog :=
  build [⟨5, "Age"⟩, ⟨9, "Loan Amount"⟩, ⟨2, "Loan"⟩] (.ofList [(9, [.range "20" "30"]), (5, [.single "18"])])
    [">", " ", "and", "Not  In", "not in list"]

private def shuffledForm : Except CatalogError Catalog :=
  build [⟨2, "Loan"⟩, ⟨9, "Loan Amount"⟩, ⟨5, "Age"⟩] (.ofList [(5, [.single "18"]), (9, [.range "20" "30"])])
    ["not in list", "and", ">", "Not  In", " "]

/-- The longer names and operators are found first wherever they stand in the lists. -/
theorem run_reordered_loanForm :
    ∃ first second, amountForm = .ok first ∧ shuffledForm = .ok second ∧ first.operators ≠ second.operators ∧
      let one := (opened first true (some "loan amount NOT IN LIST 20 - 30 or x")).run [.removeLast]
      let other := (opened second true (some "loan amount NOT IN LIST 20 - 30 or x")).run [.removeLast]
      one.tokens = [.parameter "Loan Amount" (some 9), .operator "not in list", .factor "20-30", .logicalOperator "OR"] ∧
        other.tokens = one.tokens ∧
        (one.apply (.append .operator "in")).result = (other.apply (.append .operator "in")).result := by
  obtain ⟨first, built, operators, tokens⟩ : ∃ first, amountForm = .ok first ∧
      first.operators = [">", "Not In", "not in list"] ∧
      ((opened first true (some "loan amount NOT IN LIST 20 - 30 or x")).run [.removeLast]).tokens =
        [.parameter "Loan Amount" (some 9), .operator "not in list", .factor "20-30", .logicalOperator "OR"] :=
    ⟨_, rfl, by decide, by decide⟩
  obtain ⟨second, built', operators'⟩ : ∃ second, shuffledForm = .ok second ∧
      second.operators = ["not in list", ">", "Not In"] := ⟨_, rfl, by decide⟩
  have listed : ([⟨5, "Age"⟩, ⟨9, "Loan Amount"⟩, ⟨2, "Loan"⟩] : List ParameterDef).Perm
      [⟨2, "Loan"⟩, ⟨9, "Loan Amount"⟩, ⟨5, "Age"⟩] := by decide
  have spoken : [">", " ", "and", "Not  In", "not in list"].Perm ["not in list", "and", ">", "Not  In", " "] := by
    decide
  have offered (id : ParameterId) : (FactorTable.ofList [(9, [.range "20" "30"]), (5, [.single "18"])]).get id =
      (FactorTable.ofList [(5, [.single "18"]), (9, [.range "20" "30"])]).get id := by
    by_cases age : id = 5
    · subst age; decide
    by_cases loan : id = 9
    · subst loan; decide
    simp only [FactorTable.ofList, List.foldl_cons, List.foldl_nil, FactorTable.get_insert_of_ne _ age,
      FactorTable.get_insert_of_ne _ loan]
  obtain ⟨_, runs⟩ := run_reordered listed offered spoken (by decide)
  obtain ⟨same, _, _, _, results⟩ :=
    (runs first second built built').2 true (some "loan amount NOT IN LIST 20 - 30 or x") [.removeLast]
  refine ⟨first, second, built, built', ?_, tokens, same.symm, results _⟩
  rw [operators, operators']
  decide

end Session

end Criteria
