import Criteria.Proofs.PhraseLookup
import Criteria.Proofs.SessionSteps
/-!
Tokens in the catalog's own spelling. Whatever is typed is looked up and a chosen factor is any text, so a session
that is never handed a finished token holds nothing else.
-/

namespace Criteria

def ParameterDef.token (parameter : ParameterDef) : Token := .parameter parameter.name (some parameter.id)

def Phrase.token : Phrase → Token
  | .operator symbol => .operator symbol
  | .logical symbol => .logical symbol

/-- Names and symbols are the catalog's. A factor may be any text, and no token is unknown. -/
inductive Catalog.Writes (catalog : Catalog) : Token → Prop where
  | parameter {parameter : ParameterDef} (listed : parameter ∈ catalog.parameters) :
      Writes catalog (.parameter parameter.name (some parameter.id))
  | factor (value : String) : Writes catalog (.factor value)
  | operator {symbol : String} (listed : symbol ∈ catalog.operators) : Writes catalog (.operator symbol)
  | logicalOperator {symbol : String} (listed : symbol ∈ Catalog.logicalOperators) :
      Writes catalog (.logicalOperator symbol)
  | openParen : Writes catalog .openParen
  | closeParen : Writes catalog .closeParen

namespace Catalog

variable {catalog : Catalog}

theorem Writes.known {token : Token} (written : catalog.Writes token) : token.kind ≠ .unknown := by
  cases written <;> simp [Token.kind]

theorem operator_mem_phraseList {symbol : String} :
    Phrase.operator symbol ∈ catalog.phraseList ↔ symbol ∈ catalog.operators := by
  simp [phraseList]

theorem logical_mem_phraseList {symbol : String} :
    Phrase.logical symbol ∈ catalog.phraseList ↔ symbol ∈ logicalOperators := by
  simp [phraseList]

theorem findOperator?_listed (indexed : catalog.Indexed) {typed symbol : String}
    (found : catalog.findOperator? typed = some symbol) : symbol ∈ catalog.operators := by
  unfold findOperator? at found
  split at found
  next other stored =>
    obtain rfl := Option.some.inj found
    exact operator_mem_phraseList.mp (indexed.phrases.get?_eq_some stored).1
  next => cases found

/-- The logical operators are in capitals as they are listed. -/
theorem writes_logical {symbol : String} (listed : symbol ∈ logicalOperators) :
    Token.logical symbol = .logicalOperator symbol := by
  simp only [logicalOperators, List.mem_cons, List.not_mem_nil, or_false] at listed
  rcases listed with rfl | rfl <;> decide

theorem text_token {catalog : Catalog} {phrase : Phrase} (member : phrase ∈ catalog.phraseList) :
    phrase.token.text = phrase.text := by
  cases phrase with
  | operator symbol => rfl
  | logical symbol =>
    rw [Phrase.token, writes_logical (logical_mem_phraseList.mp member)]
    rfl

end Catalog

namespace Session

open Catalog

theorem writes_of_resolve {catalog : Catalog} (indexed : catalog.Indexed) {kind : TokenKind} {value : String}
    {token : Token} (resolved : resolve catalog kind value = .ok token) : catalog.Writes token := by
  cases kind with
  | openParen => cases resolved; exact .openParen
  | closeParen => cases resolved; exact .closeParen
  | unknown => cases resolved
  | factor =>
    simp only [resolve] at resolved
    split at resolved
    · cases resolved
    · cases resolved; exact .factor _
  | parameter =>
    simp only [resolve] at resolved
    split at resolved
    · cases resolved
    · split at resolved
      next parameter found => cases resolved; exact .parameter (indexed.findParameter?_eq_some_iff.mp found).1
      next => cases resolved
  | operator =>
    simp only [resolve] at resolved
    split at resolved
    · cases resolved
    · split at resolved
      next symbol found => cases resolved; exact .operator (findOperator?_listed indexed found)
      next => cases resolved
  | logicalOperator =>
    simp only [resolve] at resolved
    split at resolved
    · cases resolved
    · split at resolved
      next symbol found =>
        have listed : symbol ∈ logicalOperators := List.mem_of_find?_eq_some found
        cases resolved
        rw [writes_logical listed]
        exact .logicalOperator listed
      next => cases resolved

def Written (session : Session) : Prop := ∀ token ∈ session.tokens, session.catalog.Writes token

variable {session : Session}

theorem Written.push (written : session.Written) {token : Token} (added : session.catalog.Writes token) :
    (session.push token).Written := by
  intro other member
  rcases List.mem_append.mp member with earlier | last
  · exact written other earlier
  · rw [List.mem_singleton.mp last]
    exact added

/-- Only a finished token can bring in what the catalog does not write. -/
theorem writes_of_adds {catalog : Catalog} (indexed : catalog.Indexed) {edit : Edit} {token : Token}
    (adds : Adds catalog edit token) (typed : edit ≠ .appendToken token) : catalog.Writes token := by
  cases adds with
  | typed known resolved => exact writes_of_resolve indexed resolved
  | finished known accepted => exact absurd rfl typed
  | chosen factor => exact .factor _

private theorem written_next (indexed : session.catalog.Indexed) (written : session.Written) {edit : Edit}
    (typed : ∀ token, edit ≠ .appendToken token) : (session.next edit).Written := by
  rcases session.apply_accepted_or_refused edit with ⟨after, applied⟩ | ⟨error, failed⟩
  · rw [next_of_accepted applied]
    rcases apply_cases applied with ⟨token, adds, _, rfl⟩ | ⟨_, rfl⟩ | ⟨_, rfl⟩
    · exact written.push (writes_of_adds indexed adds (typed token))
    · exact fun token member => written token ((List.dropLast_prefix _).subset member)
    · exact fun token member => absurd member List.not_mem_nil
  · rw [next_of_refused failed]
    exact written

theorem written_run (indexed : session.catalog.Indexed) (written : session.Written) {edits : List Edit}
    (typed : ∀ token, Edit.appendToken token ∉ edits) : (session.run edits).Written := by
  induction edits generalizing session with
  | nil => exact written
  | cons edit rest ih =>
    refine ih ?_ (written_next indexed written fun token same => typed token (same ▸ List.mem_cons_self))
      fun token member => typed token (List.mem_cons_of_mem _ member)
    rw [(session.step_next edit).catalog_eq]
    exact indexed

end Session

end Criteria
