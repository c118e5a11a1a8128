import Criteria.Proofs.CatalogLookups
import Criteria.Proofs.FinishedSessions
/-!
Finished tokens next to typed ones. Whatever can be typed can be handed over finished as well, with the same outcome.
In return, a finished parameter or parenthesis could have been typed. A finished operator could only if its symbol is
listed, which is not asked of it.
-/

namespace Criteria

open Text

theorem PhraseTrie.key_trim (text : String) : key (trim text) = key text := by rw [key, words_trim, key]

/-- The symbol of an operator is the catalog's, and that of a logical operator is one of the two. -/
def Catalog.HasSymbol (catalog : Catalog) : Token → Prop
  | .operator symbol => symbol ∈ catalog.operators
  | .logicalOperator symbol => symbol ∈ Catalog.logicalOperators
  | _ => True

theorem Catalog.Writes.hasSymbol {catalog : Catalog} {token : Token} (written : catalog.Writes token) :
    catalog.HasSymbol token := by
  cases written with
  | operator listed | logicalOperator listed => exact listed
  | parameter | factor | openParen | closeParen => exact trivial

namespace Session

open Catalog PhraseTrie

variable {catalog : Catalog} {token : Token}

section Lookups

variable (indexed : catalog.Indexed)
include indexed

theorem resolve_name {parameter : ParameterDef} (listed : parameter ∈ catalog.parameters) :
    resolve catalog .parameter parameter.name = .ok (.parameter parameter.name (some parameter.id)) := by
  have found : catalog.findParameter? (trim parameter.name) = some parameter :=
    indexed.findParameter?_eq_some_iff.mpr ⟨listed, (key_trim _).symm⟩
  have given := isEmpty_trim (Reading.words_ne_nil_of_key (indexed.key_name_ne_nil listed))
  simp only [resolve, given, found]
  rfl

theorem resolve_symbol {symbol : String} (listed : symbol ∈ catalog.operators) :
    resolve catalog .operator symbol = .ok (.operator symbol) := by
  have member : Phrase.operator symbol ∈ catalog.phraseList := operator_mem_phraseList.mpr listed
  have stored : catalog.phrases.get? (trim symbol) = some (.operator symbol) :=
    indexed.phrases.get?_eq_some_iff.mpr ⟨member, (key_trim symbol).symm⟩
  have found : catalog.findOperator? (trim symbol) = some symbol := by rw [findOperator?, stored]
  have given : (trim symbol).isEmpty = false :=
    isEmpty_trim (Reading.words_ne_nil_of_key (indexed.phrases.stored _ member).1)
  simp only [resolve, given, found]
  rfl

theorem resolve_text (written : catalog.Writes token) (other : token.kind ≠ .factor) :
    resolve catalog token.kind token.text = .ok token := by
  cases written with
  | parameter listed => exact resolve_name indexed listed
  | factor => exact absurd rfl other
  | operator listed => exact resolve_symbol indexed listed
  | @logicalOperator symbol listed =>
    have found : ∀ symbol ∈ logicalOperators, (trim symbol).isEmpty = false ∧
        findLogical? (trim symbol) = some symbol := by decide
    obtain ⟨given, found⟩ := found symbol listed
    simp only [resolve, Token.kind, Token.text, given, found, writes_logical listed]
    rfl
  | openParen | closeParen => rfl

end Lookups

theorem writes_of_accept (indexed : catalog.Indexed) (accepted : accept catalog token = .ok token)
    (known : token.kind ≠ .unknown) (symbol : catalog.HasSymbol token) : catalog.Writes token := by
  cases token with
  | parameter name id =>
    obtain ⟨found, rfl, resolved⟩ := resolve_of_accept indexed accepted
    obtain ⟨parameter, listed, rfl, same, _⟩ := Rendering.listed_of_resolve indexed resolved
    exact same ▸ .parameter listed
  | factor value => exact .factor value
  | operator => exact .operator symbol
  | logicalOperator => exact .logicalOperator symbol
  | openParen => exact .openParen
  | closeParen => exact .closeParen
  | unknown => exact absurd rfl known

theorem accept_of_writes (indexed : catalog.Indexed) (written : catalog.Writes token) :
    accept catalog token = .ok token := by
  cases written with
  | @parameter parameter listed =>
    rw [accept, Rendering.resolve_listed indexed listed]
    rfl
  | factor | operator | logicalOperator | openParen | closeParen => rfl

section Entrances

variable {parameters : List ParameterDef} {factors : FactorTable} {operators : List String} {session next : Session}

theorem hasSymbol_of_append (indexed : session.catalog.Indexed) {kind : TokenKind} {value : String}
    (appended : session.append kind value = (session.push token).accepted) : session.catalog.HasSymbol token := by
  obtain ⟨_, _, added, resolved, same⟩ := append_eq_accepted.mp appended
  obtain rfl := push_inj.mp same
  exact (writes_of_resolve indexed resolved).hasSymbol

/-- Typing a value and handing over the finished token come to the same, in whatever session, but for a symbol that is
not listed: it cannot be typed, and is accepted when it comes finished. -/
theorem appendToken_typed (built : build parameters factors operators = .ok session.catalog) :
    (∀ (token : Token) (next : Session), token.kind ≠ .factor → session.appendToken token = next.accepted →
      ((∃ value, session.append token.kind value = next.accepted) ↔ session.catalog.HasSymbol token)) ∧
    ∀ kind value, ∀ next : Session, session.append kind value = next.accepted →
      ∃ token, token.kind = kind ∧ next.tokens = session.tokens ++ [token] ∧ session.appendToken token = next.accepted := by
  have indexed := indexed_of_build built
  constructor
  · intro token next other added
    obtain ⟨known, legal, accepted, rfl⟩ := appendToken_eq_accepted.mp added
    constructor
    · rintro ⟨value, appended⟩
      exact hasSymbol_of_append indexed appended
    · intro symbol
      have resolved := resolve_text indexed (writes_of_accept indexed accepted known symbol) other
      exact ⟨token.text, append_eq_accepted.mpr ⟨known, legal, token, resolved, rfl⟩⟩
  · intro kind value next appended
    obtain ⟨known, legal, token, resolved, rfl⟩ := append_eq_accepted.mp appended
    obtain rfl := kind_of_resolve resolved
    have accepted := accept_of_writes indexed (writes_of_resolve indexed resolved)
    exact ⟨token, rfl, rfl, appendToken_eq_accepted.mpr ⟨known, legal, accepted, rfl⟩⟩

theorem appendToken_typed_greater :
    ∃ catalog, build [⟨9, "Loan"⟩] .empty [">"] = .ok catalog ∧
      let session := (new catalog false).run [.append .parameter "loan"]
      ∃ next : Session, session.appendToken (.operator ">") = next.accepted ∧ (∃ value, session.append .operator value = next.accepted) ∧
        session.append .operator " > " = next.accepted ∧
        ∃ token, token.kind = .operator ∧ session.appendToken token = next.accepted := by
  obtain ⟨catalog, built, next, handed, typed, symbol⟩ : ∃ catalog,
      build [⟨9, "Loan"⟩] .empty [">"] = .ok catalog ∧
      let session := (new catalog false).run [.append .parameter "loan"]
      ∃ next : Session, session.appendToken (.operator ">") = next.accepted ∧ session.append .operator " > " = next.accepted ∧
        ">" ∈ session.catalog.operators := ⟨_, rfl, _, rfl, rfl, by decide⟩
  have listed : build [⟨9, "Loan"⟩] .empty [">"] =
      .ok ((new catalog false).run [.append .parameter "loan"]).catalog := (catalog_run _ _).symm ▸ built
  obtain ⟨typable, acceptable⟩ := appendToken_typed listed
  obtain ⟨token, kind, _, accepted⟩ := acceptable .operator " > " next typed
  exact ⟨catalog, built, next, handed, (typable _ next (by decide) handed).mpr symbol, typed, token, kind, accepted⟩

/-- A symbol that is not listed cannot be typed. Finished, it is accepted and gets into the payload, and the display
cannot be read back. -/
theorem appendToken_unlisted :
    ∃ catalog, build [⟨9, "Loan"⟩] .empty [">"] = .ok catalog ∧
      let session := (new catalog false).run [.append .parameter "Loan"]
      ∃ next : Session, session.appendToken (.operator "~") = next.accepted ∧
        (∀ value, session.append .operator value ≠ next.accepted) ∧
        (next.run [.append .factor "5"]).finalize = .ok ⟨"Loan ~ 5", "9 ~ 5"⟩ ∧
        (load catalog false "Loan ~ 5").finalize = .error (.ambiguousText 1 "~ 5") := by
  obtain ⟨catalog, built, next, handed, absent, finished, reopened⟩ : ∃ catalog,
      build [⟨9, "Loan"⟩] .empty [">"] = .ok catalog ∧
      let session := (new catalog false).run [.append .parameter "Loan"]
      ∃ next : Session, session.appendToken (.operator "~") = next.accepted ∧ "~" ∉ session.catalog.operators ∧
        (next.run [.append .factor "5"]).finalize = .ok ⟨"Loan ~ 5", "9 ~ 5"⟩ ∧
        (load catalog false "Loan ~ 5").finalize = .error (.ambiguousText 1 "~ 5") :=
    ⟨_, rfl, _, rfl, by decide, by decide, by decide⟩
  refine ⟨catalog, built, next, handed, ?_, finished, reopened⟩
  intro value appended
  obtain ⟨_, _, _, rfl⟩ := appendToken_eq_accepted.mp handed
  have same : ((new catalog false).run [.append .parameter "Loan"]).catalog = catalog := catalog_run _ _
  have indexed := indexed_of_build built
  rw [← same] at indexed
  exact absent (hasSymbol_of_append indexed appended)

end Entrances

end Session

end Criteria
