import Criteria.Proofs.CatalogSpelling
/-!
When a session can be finished, and which error it gives when it cannot. However a parameter with an id got into the
session, its id resolves, so only open parentheses, unknown text and parameters without an id stand in the way. Open
parentheses are reported before anything else, and otherwise the first token in the way is.
-/

namespace Criteria

namespace Token

/-- The error that a token without a part in the payload causes at its place. -/
def fault? (index : Nat) : Token → Option ExpressionError
  | .parameter name none => some (.unresolvedParameter name)
  | .unknown text => some (.ambiguousText index text)
  | _ => none

/-- The token is known, and it is not a parameter without an id. -/
def Sound (token : Token) : Prop := token.kind ≠ .unknown ∧ ∀ name, token ≠ .parameter name none

/-- The part that a token without a fault has in the payload. -/
def payloadText : Token → String
  | .parameter _ (some id) => String.ofList (Text.writeInteger id)
  | token => token.text

theorem fault?_eq_none {index : Nat} {token : Token} : token.fault? index = none ↔ token.Sound := by
  cases token with
  | parameter name id => cases id <;> simp [fault?, Sound, kind]
  | factor | operator | logicalOperator | openParen | closeParen | unknown => simp [fault?, Sound, kind]

end Token

namespace Rendering

/-- The error of the first token with a fault. -/
def firstFault? (index : Nat) : List Token → Option ExpressionError
  | [] => none
  | token :: rest => (token.fault? index).or (firstFault? (index + 1) rest)

theorem firstFault?_eq_none {index : Nat} {tokens : List Token} :
    firstFault? index tokens = none ↔ ∀ token ∈ tokens, token.Sound := by
  induction tokens generalizing index with
  | nil => simp [firstFault?]
  | cons token rest ih => rw [firstFault?, Option.or_eq_none_iff, Token.fault?_eq_none, ih, List.forall_mem_cons]

theorem firstFault?_eq_some {start : Nat} {tokens : List Token} {error : ExpressionError} :
    firstFault? start tokens = some error ↔
      ∃ before token after, tokens = before ++ token :: after ∧ token.fault? (start + before.length) = some error ∧
        ∀ other ∈ before, other.Sound := by
  induction tokens generalizing start with
  | nil => simp [firstFault?]
  | cons first rest ih =>
    rw [firstFault?]
    cases here : first.fault? start with
    | some found =>
      rw [Option.some_or]
      constructor
      · rintro ⟨⟩
        exact ⟨[], first, rest, rfl, here, by simp⟩
      · rintro ⟨_ | ⟨other, before⟩, token, after, same, fault, sound⟩
        · obtain ⟨rfl, _⟩ := List.cons.inj same
          exact here.symm.trans fault
        · obtain ⟨rfl, _⟩ := List.cons.inj same
          cases here.symm.trans (Token.fault?_eq_none.mpr (sound first List.mem_cons_self))
    | none =>
      rw [Option.none_or, ih]
      have sound := Token.fault?_eq_none.mp here
      constructor
      · rintro ⟨before, token, after, rfl, fault, known⟩
        refine ⟨first :: before, token, after, rfl, ?_, List.forall_mem_cons.mpr ⟨sound, known⟩⟩
        rwa [List.length_cons, Nat.add_comm before.length, ← Nat.add_assoc]
      · rintro ⟨_ | ⟨other, before⟩, token, after, same, fault, known⟩
        · obtain ⟨rfl, _⟩ := List.cons.inj same
          cases here.symm.trans fault
        · obtain ⟨rfl, rfl⟩ := List.cons.inj same
          refine ⟨before, token, after, rfl, ?_, (List.forall_mem_cons.mp known).2⟩
          rwa [List.length_cons, Nat.add_comm before.length, ← Nat.add_assoc] at fault

variable {catalog : Catalog}

theorem resolve_listed (indexed : catalog.Indexed) {parameter : ParameterDef}
    (listed : parameter ∈ catalog.parameters) :
    resolve catalog parameter.name (some parameter.id) = .ok parameter.id := by
  have found : (Option.some parameter.id).bind catalog.parameter? = some parameter :=
    indexed.parameter?_eq_some.mpr ⟨listed, rfl⟩
  rw [resolve, found, Option.filter_some, if_pos (beq_self_eq_true _)]

theorem listed_of_resolve (indexed : catalog.Indexed) {name : String} {id : Option ParameterId} {found : ParameterId}
    (resolved : resolve catalog name id = .ok found) :
    ∃ parameter ∈ catalog.parameters, name = parameter.name ∧ id = some parameter.id ∧ found = parameter.id := by
  unfold resolve at resolved
  split at resolved
  next parameter kept =>
    obtain ⟨held, same⟩ := Option.filter_eq_some_iff.mp kept
    obtain ⟨given, rfl, found⟩ := Option.bind_eq_some_iff.mp held
    obtain ⟨listed, known⟩ := indexed.parameter?_eq_some.mp found
    exact ⟨parameter, listed, (beq_iff_eq.mp same).symm, by rw [known], (Except.ok.inj resolved).symm⟩
  next => cases resolved

/-- If the token is a parameter with an id, the catalog has that id under its name. -/
def Resolved (catalog : Catalog) (token : Token) : Prop :=
  ∀ name id, token = .parameter name (some id) → resolve catalog name (some id) = .ok id

theorem payloadPart_of_resolved {token : Token} (resolved : Resolved catalog token) (index : Nat) :
    payloadPart catalog index token = (token.fault? index).elim (.ok token.payloadText) .error := by
  cases token with
  | parameter name id =>
    cases id with
    | none => rfl
    | some id =>
      rw [payloadPart, resolved name id rfl]
      rfl
  | factor | operator | logicalOperator | openParen | closeParen | unknown => rfl

theorem payloadParts_of_resolved {tokens : List Token} (resolved : ∀ token ∈ tokens, Resolved catalog token)
    (index : Nat) :
    payloadParts catalog index tokens =
      (firstFault? index tokens).elim (.ok (tokens.map Token.payloadText)) .error := by
  induction tokens generalizing index with
  | nil => rfl
  | cons token rest ih =>
    rw [payloadParts, payloadPart_of_resolved (resolved token List.mem_cons_self),
      ih fun other member => resolved other (List.mem_cons_of_mem _ member), firstFault?]
    cases token.fault? index with
    | some error => rfl
    | none => cases firstFault? (index + 1) rest <;> rfl

end Rendering

namespace Session

open Rendering

theorem finalize_of_resolved {session : Session} (resolved : ∀ token ∈ session.tokens, Resolved session.catalog token) :
    session.finalize =
      if 0 < session.snapshot.depth then .error (.unclosedParens session.snapshot.depth)
      else (firstFault? 0 session.tokens).elim
        (.ok ⟨session.display, Text.unwords (session.tokens.map Token.payloadText)⟩) .error := by
  unfold finalize
  split
  · rfl
  · rw [render, payload, payloadParts_of_resolved resolved]
    cases firstFault? 0 session.tokens <;> rfl

theorem outcome_payload_of_resolved {session : Session}
    (resolved : ∀ token ∈ session.tokens, Resolved session.catalog token) :
    session.outcome.payload =
      (firstFault? 0 session.tokens).elim (some (Text.unwords (session.tokens.map Token.payloadText)))
        fun _ => none := by
  rw [outcome, payload, payloadParts_of_resolved resolved]
  cases firstFault? 0 session.tokens <;> rfl

section Balance

variable {session : Session} (resolved : ∀ token ∈ session.tokens, Resolved session.catalog token)
  (legal : Grammar.Legal session.catalog session.tokens)
include resolved legal

theorem finalize_isOk : session.finalize.isOk = true ↔
    Grammar.opens session.tokens = Grammar.closes session.tokens ∧ ∀ token ∈ session.tokens, token.Sound := by
  have balance : session.snapshot.depth + Grammar.closes session.tokens = Grammar.opens session.tokens :=
    legal.depth_add_closes
  rw [finalize_of_resolved resolved, ← @firstFault?_eq_none 0]
  split
  next inside =>
    refine iff_of_false Bool.false_ne_true ?_
    rintro ⟨balanced, _⟩
    omega
  next closed =>
    have balanced : Grammar.opens session.tokens = Grammar.closes session.tokens := by omega
    cases firstFault? 0 session.tokens <;> simp [balanced, Except.isOk, Except.toBool]

theorem finalize_eq_error {error : ExpressionError} : session.finalize = .error error ↔
    Grammar.closes session.tokens < Grammar.opens session.tokens ∧
      error = .unclosedParens (Grammar.opens session.tokens - Grammar.closes session.tokens) ∨
    Grammar.opens session.tokens = Grammar.closes session.tokens ∧ firstFault? 0 session.tokens = some error := by
  have balance : session.snapshot.depth + Grammar.closes session.tokens = Grammar.opens session.tokens :=
    legal.depth_add_closes
  rw [finalize_of_resolved resolved]
  split
  next inside =>
    have depth : session.snapshot.depth = Grammar.opens session.tokens - Grammar.closes session.tokens := by omega
    have unbalanced : Grammar.opens session.tokens ≠ Grammar.closes session.tokens := by omega
    rw [← depth]
    constructor
    · intro failed
      exact .inl ⟨by omega, (Except.error.inj failed).symm⟩
    · rintro (⟨_, rfl⟩ | ⟨balanced, _⟩)
      · rfl
      · exact absurd balanced unbalanced
  next closed =>
    have balanced : Grammar.opens session.tokens = Grammar.closes session.tokens := by omega
    cases firstFault? 0 session.tokens <;> simp [balanced]

omit legal in
theorem outcome_of_finalize {rendered : RenderedExpression} (finished : session.finalize = .ok rendered) :
    session.outcome.display = rendered.display ∧ session.outcome.payload = some rendered.payload := by
  rw [finalize_of_resolved resolved] at finished
  rw [outcome_payload_of_resolved resolved]
  split at finished
  · cases finished
  · cases fault : firstFault? 0 session.tokens with
    | some error =>
      rw [fault] at finished
      cases finished
    | none =>
      rw [fault] at finished
      obtain rfl := Except.ok.inj finished
      exact ⟨rfl, rfl⟩

end Balance

section Runs

open Catalog

variable {catalog : Catalog}

theorem resolved_of_writes (indexed : catalog.Indexed) {token : Token}
    (written : catalog.Writes token) : Resolved catalog token := by
  rintro name id rfl
  cases written with
  | parameter listed => exact resolve_listed indexed listed

theorem resolved_of_canonical (indexed : catalog.Indexed) {token : Token}
    (canonical : catalog.Canonical token) : Resolved catalog token := by
  cases canonical with
  | spelled spells => exact resolved_of_writes indexed spells.written
  | unlisted missing => rintro name id ⟨⟩
  | unknown text => rintro name id ⟨⟩

theorem resolve_of_accept (indexed : catalog.Indexed) {name : String} {id : Option ParameterId} {token : Token}
    (accepted : accept catalog (.parameter name id) = .ok token) :
    ∃ found, id = some found ∧ Rendering.resolve catalog name (some found) = .ok found := by
  cases resolved : Rendering.resolve catalog name id with
  | error error =>
    simp only [accept, resolved] at accepted
    cases accepted
  | ok found =>
    obtain ⟨parameter, _, _, rfl, rfl⟩ := listed_of_resolve indexed resolved
    exact ⟨_, rfl, resolved⟩

theorem sound_of_writes {token : Token} (written : catalog.Writes token) : token.Sound := by
  refine ⟨written.known, ?_⟩
  rintro name rfl
  cases written

/-- Whatever an edit adds resolves and has no fault. -/
theorem sound_of_adds (indexed : catalog.Indexed) {edit : Edit} {token : Token}
    (adds : Adds catalog edit token) : Resolved catalog token ∧ token.Sound := by
  cases adds with
  | typed known resolved =>
    have written := writes_of_resolve indexed resolved
    exact ⟨resolved_of_writes indexed written, sound_of_writes written⟩
  | finished known accepted =>
    refine ⟨?_, known, ?_⟩
    · rintro name id rfl
      obtain ⟨found, same, resolves⟩ := resolve_of_accept indexed accepted
      rwa [Option.some.inj same]
    · rintro name rfl
      obtain ⟨found, same, _⟩ := resolve_of_accept indexed accepted
      cases same
  | chosen factor =>
    refine ⟨?_, by simp [Token.kind], by simp⟩
    rintro name id ⟨⟩

theorem resolved_run (indexed : catalog.Indexed) (spaced : Bool) (saved : Option String)
    (edits : List Edit) :
    ∀ token ∈ ((opened catalog spaced saved).run edits).tokens, Resolved catalog token := by
  intro token member
  obtain ⟨index, found⟩ := List.mem_iff_getElem?.mp member
  obtain ⟨kept, added⟩ := (opened catalog spaced saved).run_origin edits
  rw [catalog_opened] at added
  by_cases old : index < (opened catalog spaced saved).leftover edits
  · have initial := List.mem_of_getElem? (kept index old ▸ found)
    exact resolved_of_canonical indexed (canonical_opened indexed spaced saved token initial)
  · obtain ⟨edit, _, adds⟩ := added index token found (Nat.le_of_not_lt old)
    exact (sound_of_adds indexed adds).1

theorem sound_run_new (indexed : catalog.Indexed) (spaced : Bool) (edits : List Edit) :
    ∀ token ∈ ((new catalog spaced).run edits).tokens, token.Sound := by
  intro token member
  obtain ⟨index, found⟩ := List.mem_iff_getElem?.mp member
  have blank : (new catalog spaced).leftover edits ≤ index :=
    Nat.le_trans ((new catalog spaced).leftover_le_length edits) (Nat.zero_le index)
  obtain ⟨edit, _, adds⟩ := ((new catalog spaced).run_origin edits).2 index token found blank
  exact (sound_of_adds indexed adds).2

/-- A session can be finished just when its parentheses balance and neither unknown text nor a parameter without an id
is left in it, neither of which can be in a session that was begun blank. Otherwise the error is the number of open
parentheses or, if none is open, the fault of the first token that has one. A finished expression is what the session
showed all along. -/
theorem finalize_run {parameters : List ParameterDef} {factors : FactorTable} {operators : List String}
    {catalog : Catalog} (built : Catalog.build parameters factors operators = .ok catalog) (spaced : Bool)
    (saved : Option String) (edits : List Edit) :
    let session := (opened catalog spaced saved).run edits
    let opens := Grammar.opens session.tokens
    let closes := Grammar.closes session.tokens
    (session.finalize.isOk = true ↔
      opens = closes ∧ ∀ token ∈ session.tokens, token.kind ≠ .unknown ∧ ∀ name, token ≠ .parameter name none) ∧
    (saved = none → (session.finalize.isOk = true ↔ opens = closes)) ∧
    (∀ error, session.finalize = .error error ↔
      closes < opens ∧ error = .unclosedParens (opens - closes) ∨
      opens = closes ∧ ∃ before token after, session.tokens = before ++ token :: after ∧
        token.fault? before.length = some error ∧
        ∀ other ∈ before, other.kind ≠ .unknown ∧ ∀ name, other ≠ .parameter name none) ∧
    ∀ rendered, session.finalize = .ok rendered →
      session.outcome.display = rendered.display ∧ session.outcome.payload = some rendered.payload := by
  have indexed := indexed_of_build built
  have resolved := resolved_run indexed spaced saved edits
  have legal := legal_run (catalog_opened catalog spaced saved) (legal_opened catalog spaced saved) edits
  have same : ((opened catalog spaced saved).run edits).catalog = catalog :=
    (catalog_run _ edits).trans (catalog_opened catalog spaced saved)
  intro session opens closes
  have resolved : ∀ token ∈ session.tokens, Resolved session.catalog token := same ▸ resolved
  have legal : Grammar.Legal session.catalog session.tokens := same ▸ legal
  refine ⟨finalize_isOk resolved legal, ?_, ?_, fun rendered => outcome_of_finalize resolved⟩
  · rintro rfl
    have sound := sound_run_new indexed spaced edits
    exact (finalize_isOk resolved legal).trans (and_iff_left sound)
  · intro error
    rw [finalize_eq_error resolved legal, firstFault?_eq_some]
    simp only [Nat.zero_add]
    rfl

/-- The parentheses of an opened text are closed, and the first of two faults in it decides. -/
theorem finalize_run_closed :
    ∃ catalog, Catalog.build [⟨9, "Loan  Amount"⟩] .empty [">"] = .ok catalog ∧
      let session := (opened catalog false (some "( Credit Score > 700 or x )")).run
        [.append .closeParen "", .append .logicalOperator "or", .appendToken (.parameter "Loan  Amount" (some 9))]
      session.tokens =
        [.openParen, .parameter "Credit Score" none, .operator ">", .factor "700", .logicalOperator "OR",
          .unknown "x", .closeParen, .logicalOperator "OR", .parameter "Loan  Amount" (some 9)] ∧
      session.finalize = .error (.unresolvedParameter "Credit Score") := by
  obtain ⟨catalog, built, tokens⟩ : ∃ catalog, Catalog.build [⟨9, "Loan  Amount"⟩] .empty [">"] = .ok catalog ∧
      ((opened catalog false (some "( Credit Score > 700 or x )")).run
        [.append .closeParen "", .append .logicalOperator "or",
          .appendToken (.parameter "Loan  Amount" (some 9))]).tokens =
        [.openParen, .parameter "Credit Score" none, .operator ">", .factor "700", .logicalOperator "OR",
          .unknown "x", .closeParen, .logicalOperator "OR", .parameter "Loan  Amount" (some 9)] :=
    ⟨_, rfl, by decide⟩
  refine ⟨catalog, built, tokens, ?_⟩
  apply ((finalize_run built false _ _).2.2.1 _).mpr
  rw [tokens]
  exact .inr ⟨by decide, [.openParen], .parameter "Credit Score" none, _, rfl, rfl, by simp [Token.kind]⟩

end Runs

end Session

end Criteria
