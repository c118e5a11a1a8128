import Criteria.Proofs.LegalSequences
/-!
What repairing makes of a first reading. A factor may be read as the parameter whose name its text begins with. Behind
an operator that parameter becomes a factor again and what is left of the text is joined to it, while nothing else in
a legal sequence is touched.
-/

namespace Criteria.Reading

open Grammar

/-- The ways in which a first reading may show a token. -/
inductive ReadAs : Token → List Token → Prop where
  | itself (token : Token) : ReadAs token [token]
  | named (name : String) (id : Option ParameterId) : ReadAs (.factor name) [.parameter name id]
  | begun (name : String) (id : Option ParameterId) (value : String) :
      ReadAs (.factor (name ++ " " ++ value)) [.parameter name id, .factor value]

inductive AllReadAs : List Token → List Token → Prop where
  | nil : AllReadAs [] []
  | cons {token piece tokens raw} (first : ReadAs token piece) (rest : AllReadAs tokens raw) :
      AllReadAs (token :: tokens) (piece ++ raw)

variable {catalog : Catalog} {passed tokens raw : List Token}

theorem AllReadAs.startsWithOperator (read : AllReadAs tokens raw)
    (starts : startsWithOperator raw = true) : ∃ symbol rest, tokens = .operator symbol :: rest := by
  cases read with
  | nil => cases starts
  | @cons token piece rest _ first _ =>
    cases first with
    | itself =>
      cases token with
      | operator symbol => exact ⟨symbol, rest, rfl⟩
      | parameter | factor | logicalOperator | openParen | closeParen | unknown => cases starts
    | named | begun => cases starts

theorem asSubject_of_legal {token : Token} (legal : LegalAfter catalog (passed ++ [token]) tokens)
    (known : token.kind ≠ .unknown) (read : AllReadAs tokens raw) (starts : startsWithOperator raw = true) :
    asSubject catalog token = token := by
  obtain ⟨symbol, rest, rfl⟩ := read.startsWithOperator starts
  have state : GrammarState.afterKind token.kind = .afterParameter := by
    rw [← ofTail_concat passed token]
    exact legal.state_of_operator (ofTail_concat_ne_afterUnknown passed known)
  cases token with
  | factor value => cases state
  | parameter | operator | logicalOperator | openParen | closeParen | unknown => rfl

theorem startsWithOperator_after_factor {value : String} (legal : LegalAfter catalog (passed ++ [.factor value]) tokens)
    (read : AllReadAs tokens raw) : startsWithOperator raw = false := by
  cases starts : startsWithOperator raw with
  | false => rfl
  | true =>
    obtain ⟨symbol, rest, rfl⟩ := read.startsWithOperator starts
    rcases legal.next_of_factor (by simp [Token.kind]) with impossible | impossible
    · cases impossible
    · cases impossible

theorem not_factor_after_factor {value : String} (legal : LegalAfter catalog (passed ++ [.factor value]) tokens)
    (next : String) (later : List Token) : tokens ≠ .factor next :: later := by
  rintro rfl
  rcases legal.next_of_factor (by simp [Token.kind]) with impossible | impossible
  · cases impossible
  · cases impossible

theorem mergeFactors_cons_factor (value : String) (apart : ∀ next later, tokens ≠ .factor next :: later)
    (merged : mergeFactors raw = tokens) : mergeFactors (.factor value :: raw) = .factor value :: tokens := by
  unfold mergeFactors
  rw [merged]
  split
  next next later => exact absurd rfl (apart next later)
  next => rfl

/-- Whether the last of these tokens is an operator. -/
def afterOperator (passed : List Token) : Bool := GrammarState.ofTail passed == .afterOperator

private theorem afterOperator_concat (passed : List Token) (token : Token) :
    afterOperator (passed ++ [token]) = (token.kind == .operator) := by
  rw [afterOperator, ofTail_concat]
  cases token <;> rfl

private theorem afterOperator_factor (passed : List Token) (value : String) :
    afterOperator (passed ++ [.factor value]) = false := afterOperator_concat passed _

private theorem reclassify_itself {token : Token} (legal : LegalAfter catalog passed (token :: tokens))
    (known : token.kind ≠ .unknown) (read : AllReadAs tokens raw) :
    reclassify catalog (afterOperator passed) (token :: raw) =
      token :: reclassify catalog (afterOperator (passed ++ [token])) raw := by
  have later := (legalAfter_cons.mp legal).2
  have operand : (if afterOperator passed = true then asOperand token else token) = token := by
    split
    next after =>
      cases token with
      | parameter name id =>
        exact absurd (by simpa [afterOperator] using after) (legal.state_ne_afterOperator known (by simp [Token.kind]))
      | factor | operator | logicalOperator | openParen | closeParen | unknown => rfl
    next => rfl
  have subject : (if startsWithOperator raw = true then asSubject catalog token else token) = token := by
    split
    next starts => exact asSubject_of_legal later known read starts
    next => rfl
  rw [reclassify, operand, subject, afterOperator_concat]

/-- Repairing and joining give the tokens back, however each of them was read. -/
theorem mergeFactors_reclassify (read : AllReadAs tokens raw) (legal : LegalAfter catalog passed tokens)
    (placed : GrammarState.ofTail passed ≠ .afterUnknown) (known : ∀ token ∈ tokens, token.kind ≠ .unknown) :
    mergeFactors (reclassify catalog (afterOperator passed) raw) = tokens := by
  induction read generalizing passed with
  | nil => rfl
  | @cons token piece tokens raw first read ih =>
    have here := known token List.mem_cons_self
    have later := (legalAfter_cons.mp legal).2
    have merged := ih later (ofTail_concat_ne_afterUnknown passed here)
      fun other member => known other (List.mem_cons_of_mem _ member)
    cases first with
    | itself =>
      rw [List.singleton_append, reclassify_itself legal here read]
      cases token with
      | factor value => exact mergeFactors_cons_factor value (not_factor_after_factor later) merged
      | parameter | operator | logicalOperator | openParen | closeParen | unknown =>
        unfold mergeFactors
        rw [merged]
    | named name id =>
      have after : afterOperator passed = true := by simp [afterOperator, legal.state_of_factor placed]
      rw [List.singleton_append, reclassify, after, startsWithOperator_after_factor later read]
      rw [afterOperator_factor] at merged
      exact mergeFactors_cons_factor name (not_factor_after_factor later) merged
    | begun name id value =>
      have after : afterOperator passed = true := by simp [afterOperator, legal.state_of_factor placed]
      rw [afterOperator_factor] at merged
      have rest := mergeFactors_cons_factor value (not_factor_after_factor later) merged
      rw [List.cons_append, List.singleton_append, reclassify, reclassify, after,
        startsWithOperator_after_factor later read]
      show mergeFactors (.factor name :: .factor value :: reclassify catalog false raw) = _
      unfold mergeFactors
      rw [rest]

end Criteria.Reading
