import Criteria.Session
/-!
What an edit can do to a session. A successful append adds exactly one token, which was legal and is never unknown;
any other edit shortens the sequence or leaves it alone.
-/

namespace Criteria.Session

theorem kind_of_resolve {catalog : Catalog} {kind : TokenKind} {value : String} {token : Token}
    (resolved : resolve catalog kind value = .ok token) : token.kind = kind := by
  cases kind with
  | openParen | closeParen => cases resolved; rfl
  | unknown => cases resolved
  | factor | parameter | operator | logicalOperator =>
    simp only [resolve] at resolved
    repeat' split at resolved
    all_goals cases resolved
    all_goals rfl

theorem eq_of_accept {catalog : Catalog} {token accepted : Token}
    (ok : accept catalog token = .ok accepted) : accepted = token := by
  cases token with
  | parameter name id =>
    unfold accept at ok
    cases resolved : Rendering.resolve catalog name id with
    | error error => simp [resolved, Except.map] at ok
    | ok found => simpa [resolved, Except.map, eq_comm] using ok
  | factor | operator | logicalOperator | openParen | closeParen | unknown =>
    cases ok
    rfl

variable {session next : Session} {kind : TokenKind}

theorem checkAppend_of_legal (legal : session.snapshot.legalNext.contains kind = true) :
    Grammar.checkAppend session.catalog session.tokens kind = .ok session.snapshot := if_pos legal

theorem checkAppend_of_illegal (illegal : ¬ session.snapshot.legalNext.contains kind = true) :
    Grammar.checkAppend session.catalog session.tokens kind =
      .error (.illegalKind session.snapshot.legalNext kind) := if_neg illegal

theorem push_inj {token other : Token} : session.push token = session.push other ↔ token = other := by
  simp [push]

theorem eq_of_accepted {other : Session} (same : session.accepted = other.accepted) : session = other :=
  congrArg Reply.session same

theorem add_eq_accepted {found : Except ExpressionError Token} :
    session.add kind found = next.accepted ↔
      kind ≠ .unknown ∧ session.snapshot.legalNext.contains kind = true ∧
        ∃ token, found = .ok token ∧ next = session.push token := by
  have failed (error : ExpressionError) : session.refused error ≠ next.accepted := by simp [refused, accepted]
  unfold add
  split
  next unknown => simp [unknown, failed]
  next known =>
    by_cases legal : session.snapshot.legalNext.contains kind = true
    · simp only [checkAppend_of_legal legal, ne_eq, known, not_false_eq_true, legal, true_and]
      cases found with
      | error error => simp [failed]
      | ok token =>
        constructor
        · intro same
          exact ⟨token, rfl, (eq_of_accepted same).symm⟩
        · rintro ⟨_, ⟨⟩, rfl⟩
          rfl
    · simp [checkAppend_of_illegal legal, legal, failed]

theorem append_eq_accepted {value : String} :
    session.append kind value = next.accepted ↔
      kind ≠ .unknown ∧ session.snapshot.legalNext.contains kind = true ∧
        ∃ token, resolve session.catalog kind value = .ok token ∧ next = session.push token := add_eq_accepted

theorem appendToken_eq_accepted {token : Token} :
    session.appendToken token = next.accepted ↔
      token.kind ≠ .unknown ∧ session.snapshot.legalNext.contains token.kind = true ∧
        accept session.catalog token = .ok token ∧ next = session.push token := by
  rw [appendToken, add_eq_accepted]
  refine and_congr_right' (and_congr_right' ?_)
  constructor
  · rintro ⟨other, ok, rfl⟩
    obtain rfl := eq_of_accept ok
    exact ⟨ok, rfl⟩
  · exact fun ⟨ok, same⟩ => ⟨token, ok, same⟩

theorem appendFactor_eq_accepted {factor : FactorDef} :
    session.appendFactor factor = next.accepted ↔
      session.snapshot.legalNext.contains .factor = true ∧ next = session.push (.factor factor.canonical) := by
  unfold appendFactor
  rw [appendToken_eq_accepted]
  simp [Token.kind, accept]

/-- A call on a session is accepted or refused, and then the session stays as it was. -/
theorem add_cases (session : Session) (kind : TokenKind) (found : Except ExpressionError Token) :
    (∃ next : Session, session.add kind found = next.accepted) ∨ ∃ error, session.add kind found = session.refused error := by
  unfold add
  split
  · exact .inr ⟨_, rfl⟩
  split
  · exact .inr ⟨_, rfl⟩
  split
  · exact .inr ⟨_, rfl⟩
  · exact .inl ⟨_, rfl⟩

theorem apply_accepted_or_refused (session : Session) (edit : Edit) :
    (∃ next : Session, session.apply edit = next.accepted) ∨ ∃ error, session.apply edit = session.refused error := by
  cases edit with
  | append kind value => exact add_cases ..
  | appendToken token => exact add_cases ..
  | appendFactor factor => exact session.add_cases .factor (.ok (.factor factor.canonical))
  | removeLast | reset => exact .inl ⟨_, rfl⟩

theorem next_of_accepted {edit : Edit} (applied : session.apply edit = next.accepted) : session.next edit = next := by
  rw [Session.next, applied, accepted]

theorem next_of_refused {edit : Edit} {error : ExpressionError} (failed : session.apply edit = session.refused error) :
    session.next edit = session := by
  rw [Session.next, failed, refused]

/-- Whatever the error, the session is the one that was called. -/
theorem next_of_error {edit : Edit} {error : ExpressionError} (failed : (session.apply edit).result = .error error) :
    session.next edit = session := by
  rcases session.apply_accepted_or_refused edit with ⟨next, applied⟩ | ⟨other, applied⟩
  · rw [applied] at failed
    cases failed
  · exact next_of_refused applied

theorem accepted_of_ok {edit : Edit} {outcome : EditOutcome} (found : (session.apply edit).result = .ok outcome) :
    ∃ next : Session, session.apply edit = next.accepted ∧ outcome = next.outcome := by
  rcases session.apply_accepted_or_refused edit with ⟨next, applied⟩ | ⟨error, failed⟩
  · rw [applied] at found
    exact ⟨next, applied, (Except.ok.inj found).symm⟩
  · rw [failed] at found
    cases found

/-- What an edit adds when it succeeds. -/
inductive Adds (catalog : Catalog) : Edit → Token → Prop where
  | typed {kind value token} (known : kind ≠ .unknown) (resolved : resolve catalog kind value = .ok token) :
      Adds catalog (.append kind value) token
  | finished {token} (known : token.kind ≠ .unknown) (accepted : accept catalog token = .ok token) :
      Adds catalog (.appendToken token) token
  | chosen (factor : FactorDef) : Adds catalog (.appendFactor factor) (.factor factor.canonical)

theorem Adds.known {catalog : Catalog} {edit : Edit} {token : Token} (adds : Adds catalog edit token) :
    token.kind ≠ .unknown := by
  cases adds with
  | typed known resolved => exact kind_of_resolve resolved ▸ known
  | finished known accepted => exact known
  | chosen factor => simp [Token.kind]

theorem apply_cases {edit : Edit} (applied : session.apply edit = next.accepted) :
    (∃ token, Adds session.catalog edit token ∧ session.snapshot.legalNext.contains token.kind = true ∧
      next = session.push token) ∨
      edit = .removeLast ∧ next = session.removeLast ∨ edit = .reset ∧ next = session.reset := by
  cases edit with
  | append kind value =>
    obtain ⟨known, legal, token, resolved, rfl⟩ := append_eq_accepted.mp applied
    exact .inl ⟨token, .typed known resolved, kind_of_resolve resolved ▸ legal, rfl⟩
  | appendToken token =>
    obtain ⟨known, legal, accepted, rfl⟩ := appendToken_eq_accepted.mp applied
    exact .inl ⟨token, .finished known accepted, legal, rfl⟩
  | appendFactor factor =>
    obtain ⟨legal, rfl⟩ := appendFactor_eq_accepted.mp applied
    exact .inl ⟨_, .chosen factor, legal, rfl⟩
  | removeLast => exact .inr (.inl ⟨rfl, (eq_of_accepted applied).symm⟩)
  | reset => exact .inr (.inr ⟨rfl, (eq_of_accepted applied).symm⟩)

/-- The ways an edit can go. -/
inductive Step (session : Session) : Session → Prop where
  | unchanged : Step session session
  | pushed (token : Token) (known : token.kind ≠ .unknown)
      (legal : session.snapshot.legalNext.contains token.kind = true) : Step session (session.push token)
  | removed : Step session session.removeLast
  | cleared : Step session session.reset

private theorem step_of_apply {edit : Edit} (applied : session.apply edit = next.accepted) : Step session next := by
  rcases apply_cases applied with ⟨token, adds, legal, rfl⟩ | ⟨_, rfl⟩ | ⟨_, rfl⟩
  · exact .pushed token adds.known legal
  · exact .removed
  · exact .cleared

/-- What stands beyond the end of a session after an edit was added by it. -/
theorem adds_of_next {edit : Edit} {index : Nat} {token : Token}
    (found : (session.next edit).tokens[index]? = some token) (beyond : session.tokens.length ≤ index) :
    Adds session.catalog edit token := by
  rcases session.apply_accepted_or_refused edit with ⟨after, applied⟩ | ⟨error, failed⟩
  · rw [next_of_accepted applied] at found
    rcases apply_cases applied with ⟨added, adds, _, rfl⟩ | ⟨_, rfl⟩ | ⟨_, rfl⟩
    · simp only [push, List.getElem?_append_right beyond] at found
      exact List.mem_singleton.mp (List.mem_of_getElem? found) ▸ adds
    · simp only [removeLast] at found
      rw [List.getElem?_eq_none (by simp; omega)] at found
      cases found
    · simp [reset] at found
  · rw [next_of_refused failed, List.getElem?_eq_none beyond] at found
    cases found

theorem step_next (session : Session) (edit : Edit) : Step session (session.next edit) := by
  rcases session.apply_accepted_or_refused edit with ⟨after, applied⟩ | ⟨error, failed⟩
  · rw [next_of_accepted applied]
    exact step_of_apply applied
  · rw [next_of_refused failed]
    exact .unchanged

/-- What holds at the beginning and is kept by every step holds after any run, refused edits included. -/
theorem run_invariant (invariant : Session → Prop)
    (preserves : ∀ {before after : Session}, Step before after → invariant before → invariant after)
    (initial : invariant session) (edits : List Edit) : invariant (session.run edits) := by
  induction edits generalizing session with
  | nil => exact initial
  | cons edit rest ih => exact ih (preserves (session.step_next edit) initial)

theorem Step.catalog_eq {after : Session} (step : Step session after) : after.catalog = session.catalog := by
  cases step <;> rfl

theorem catalog_run (session : Session) (edits : List Edit) : (session.run edits).catalog = session.catalog :=
  run_invariant (fun later => later.catalog = session.catalog) (fun step same => step.catalog_eq.trans same) rfl edits

end Criteria.Session
