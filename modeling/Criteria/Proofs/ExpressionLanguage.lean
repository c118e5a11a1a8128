import Criteria.Proofs.LegalSequences
/-!
The language that the grammar accepts, as derivation rules of its own. A sequence is accepted when it is the beginning
of an expression, and it is a whole expression when no group is open and a clause has just ended.
-/

namespace Criteria.Language

variable (catalog : Catalog)

mutual

/-- A comparison, a group, or a parameter without factors in front of a group. -/
inductive Clause : List Token → Prop where
  | comparison (name id symbol value) : Clause [.parameter name id, .operator symbol, .factor value]
  | group {group} (inside : Group group) : Clause group
  | subject {name id group} (free : Grammar.factorsOf catalog (.parameter name id) = []) (inside : Group group) :
      Clause (.parameter name id :: group)

inductive Group : List Token → Prop where
  | parens {head rest} (first : Head head) (later : Clauses rest) :
      Group (.openParen :: (head ++ rest ++ [.closeParen]))

/-- What a group begins with; another group is not among it. -/
inductive Head : List Token → Prop where
  | comparison (name id symbol value) : Head [.parameter name id, .operator symbol, .factor value]
  | subject {name id group} (free : Grammar.factorsOf catalog (.parameter name id) = []) (inside : Group group) :
      Head (.parameter name id :: group)

/-- Any number of clauses, each behind a logical operator. -/
inductive Clauses : List Token → Prop where
  | nil : Clauses []
  | cons (symbol) {clause rest} (first : Clause clause) (later : Clauses rest) :
      Clauses (.logicalOperator symbol :: (clause ++ rest))

end

inductive Expression : List Token → Prop where
  | clauses {first rest} (clause : Clause catalog first) (later : Clauses catalog rest) : Expression (first ++ rest)

variable {catalog}

theorem Clauses.concat {rest clause : List Token} (clauses : Clauses catalog rest) (symbol : String)
    (last : Clause catalog clause) : Clauses catalog (rest ++ .logicalOperator symbol :: clause) := by
  -- Clauses are read from the left, so the last one is carried through all before it.
  match clauses with
  | .nil => simpa using Clauses.cons symbol last .nil
  | .cons other first later => simpa using Clauses.cons other first (later.concat symbol last)

theorem Head.clause {tokens : List Token} (head : Head catalog tokens) : Clause catalog tokens := by
  cases head with
  | comparison name id symbol value => exact .comparison name id symbol value
  | subject free inside => exact .subject free inside

/-- A clause may begin after these tokens. -/
def Opening (catalog : Catalog) (tokens : List Token) : Prop :=
  (Grammar.position catalog tokens).state = .start ∨ (Grammar.position catalog tokens).state = .afterLogicalOperator

/-- A clause has just ended. -/
def Settled (catalog : Catalog) (tokens : List Token) : Prop :=
  (Grammar.position catalog tokens).state = .afterFactor ∨ (Grammar.position catalog tokens).state = .afterCloseParen

/-- The tokens can be read after those passed, end a clause, and leave no group of their own open. -/
structure Completes (catalog : Catalog) (passed tokens : List Token) : Prop where
  legal : Grammar.LegalAfter catalog passed tokens
  settled : Settled catalog (passed ++ tokens)
  depth : Grammar.parenDepth (passed ++ tokens) = Grammar.parenDepth passed

theorem Completes.append {passed first rest : List Token} (before : Completes catalog passed first)
    (after : Completes catalog (passed ++ first) rest) : Completes catalog passed (first ++ rest) := by
  refine ⟨Grammar.legalAfter_append.mpr ⟨before.legal, after.legal⟩, ?_, ?_⟩
  · rw [← List.append_assoc]
    exact after.settled
  · rw [← List.append_assoc]
    exact after.depth.trans before.depth

theorem Completes.cons {passed rest : List Token} {token : Token}
    (legal : (Grammar.position catalog passed).legalNext.contains token.kind = true)
    (level : Grammar.parenDepth (passed ++ [token]) = Grammar.parenDepth passed)
    (after : Completes catalog (passed ++ [token]) rest) : Completes catalog passed (token :: rest) := by
  refine ⟨.cons (fun _ => legal) after.legal, ?_, ?_⟩
  · rw [List.append_cons]
    exact after.settled
  · rw [List.append_cons]
    exact after.depth.trans level

theorem completes_comparison {passed : List Token}
    (legal : (Grammar.position catalog passed).legalNext.contains .parameter = true) (name : String)
    (id : Option ParameterId) (symbol value : String) :
    Completes catalog passed [.parameter name id, .operator symbol, .factor value] := by
  refine .cons legal (Grammar.parenDepth_concat ..) (.cons ?_ (Grammar.parenDepth_concat ..) ⟨.cons ?_ .nil, ?_, ?_⟩)
  · exact GrammarPosition.operator_legal.mpr (.inl (by rw [Grammar.position_concat]; rfl))
  · exact fun _ => GrammarPosition.factor_legal.mpr (.inl (by rw [Grammar.position_concat]; rfl))
  · exact .inl (by rw [Grammar.position_concat]; rfl)
  · exact Grammar.parenDepth_concat ..

theorem completes_subject {passed group : List Token} {name : String} {id : Option ParameterId}
    (legal : (Grammar.position catalog passed).legalNext.contains .parameter = true)
    (free : Grammar.factorsOf catalog (.parameter name id) = [])
    (inside : ∀ passed, (Grammar.position catalog passed).legalNext.contains .openParen = true →
      Completes catalog passed group) :
    Completes catalog passed (.parameter name id :: group) := by
  refine .cons legal (Grammar.parenDepth_concat ..) (inside _ ?_)
  refine GrammarPosition.openParen_legal.mpr (.inr (.inr (.inl ?_)))
  rw [Grammar.position_concat]
  exact ⟨rfl, by simp [Grammar.isFreeText, Token.isParameter, free]⟩

theorem completes_parens {passed inner : List Token}
    (legal : (Grammar.position catalog passed).legalNext.contains .openParen = true)
    (inside : Completes catalog (passed ++ [.openParen]) inner) :
    Completes catalog passed (.openParen :: (inner ++ [.closeParen])) := by
  have level : Grammar.parenDepth (passed ++ [.openParen] ++ inner) = Grammar.parenDepth passed + 1 :=
    inside.depth.trans (Grammar.parenDepth_concat ..)
  refine ⟨.cons (fun _ => legal) (Grammar.legalAfter_append.mpr ⟨inside.legal, .cons (fun _ => ?_) .nil⟩), ?_, ?_⟩
  · refine GrammarPosition.closeParen_legal.mpr ⟨?_, inside.settled.imp_right .inl⟩
    show 0 < Grammar.parenDepth (passed ++ [.openParen] ++ inner)
    omega
  · refine .inr ?_
    rw [List.append_cons, ← List.append_assoc, Grammar.position_concat]
    rfl
  · rw [List.append_cons, ← List.append_assoc, Grammar.parenDepth_concat]
    show Grammar.parenDepth (passed ++ [.openParen] ++ inner) - 1 = _
    omega

theorem parameter_legal_of_opening {tokens : List Token} (opening : Opening catalog tokens) :
    (Grammar.position catalog tokens).legalNext.contains .parameter = true :=
  GrammarPosition.parameter_legal.mpr (opening.imp_right .inl)

theorem openParen_legal_of_opening {tokens : List Token} (opening : Opening catalog tokens) :
    (Grammar.position catalog tokens).legalNext.contains .openParen = true :=
  GrammarPosition.openParen_legal.mpr (opening.imp_right .inl)

mutual

theorem Clause.completes {clause : List Token} (derived : Clause catalog clause) (passed : List Token)
    (opening : Opening catalog passed) : Completes catalog passed clause := by
  match derived with
  | .comparison name id symbol value =>
    exact completes_comparison (parameter_legal_of_opening opening) name id symbol value
  | .group inside => exact inside.completes passed (openParen_legal_of_opening opening)
  | .subject free inside => exact completes_subject (parameter_legal_of_opening opening) free inside.completes

theorem Group.completes {group : List Token} (derived : Group catalog group) (passed : List Token)
    (legal : (Grammar.position catalog passed).legalNext.contains .openParen = true) :
    Completes catalog passed group := by
  match derived with
  | .parens first later =>
    have entered := first.completes (passed ++ [.openParen]) (by rw [Grammar.position_concat]; rfl)
    exact completes_parens legal (entered.append (later.completes _ entered.settled))

theorem Head.completes {head : List Token} (derived : Head catalog head) (passed : List Token)
    (entered : (Grammar.position catalog passed).state = .afterOpenParen) : Completes catalog passed head := by
  have legal := GrammarPosition.parameter_legal.mpr (.inr (.inr (.inl entered)))
  match derived with
  | .comparison name id symbol value => exact completes_comparison legal name id symbol value
  | .subject free inside => exact completes_subject legal free inside.completes

theorem Clauses.completes {rest : List Token} (derived : Clauses catalog rest) (passed : List Token)
    (settled : Settled catalog passed) : Completes catalog passed rest := by
  match derived with
  | .nil => exact ⟨.nil, by simpa using settled, by simp⟩
  | .cons symbol first later =>
    have opening : Opening catalog (passed ++ [.logicalOperator symbol]) :=
      .inr (by rw [Grammar.position_concat]; rfl)
    have clause := first.completes _ opening
    refine .cons ?_ (Grammar.parenDepth_concat ..) (clause.append (later.completes _ clause.settled))
    exact GrammarPosition.logicalOperator_legal.mpr (settled.imp_right .inl)

end

theorem Expression.completes {tokens : List Token} (derived : Expression catalog tokens) :
    Completes catalog [] tokens := by
  cases derived with
  | clauses clause later =>
    have first := clause.completes [] (.inl rfl)
    exact first.append (later.completes _ first.settled)

mutual

/-- A clause may begin here, inside as many groups as the number says. -/
inductive Ready (catalog : Catalog) : Nat → List Token → Prop where
  | start : Ready catalog 0 []
  | next {depth tokens} (symbol) (before : Ended catalog depth tokens) :
      Ready catalog depth (tokens ++ [.logicalOperator symbol])

/-- The last group has just been opened. -/
inductive Entered (catalog : Catalog) : Nat → List Token → Prop where
  | group {depth tokens} (before : Ready catalog depth tokens) : Entered catalog (depth + 1) (tokens ++ [.openParen])
  | clause {depth tokens name id} (before : Ready catalog depth tokens)
      (free : Grammar.factorsOf catalog (.parameter name id) = []) :
      Entered catalog (depth + 1) (tokens ++ [.parameter name id, .openParen])
  | head {depth tokens name id} (before : Entered catalog depth tokens)
      (free : Grammar.factorsOf catalog (.parameter name id) = []) :
      Entered catalog (depth + 1) (tokens ++ [.parameter name id, .openParen])

/-- The clauses so far are complete, from the last group that is still open. -/
inductive Ended (catalog : Catalog) : Nat → List Token → Prop where
  | outer {clause rest} (first : Clause catalog clause) (later : Clauses catalog rest) :
      Ended catalog 0 (clause ++ rest)
  | inner {depth tokens head rest} (before : Entered catalog (depth + 1) tokens) (first : Head catalog head)
      (later : Clauses catalog rest) : Ended catalog (depth + 1) (tokens ++ head ++ rest)

end

theorem Ready.clause {depth : Nat} {tokens clause : List Token} (ready : Ready catalog depth tokens)
    (added : Clause catalog clause) : Ended catalog depth (tokens ++ clause) := by
  cases ready with
  | start => simpa using Ended.outer added .nil
  | next symbol before =>
    cases before with
    | outer first later => simpa using Ended.outer first (later.concat symbol added)
    | inner before first later => simpa using Ended.inner before first (later.concat symbol added)

theorem Entered.add_head {depth : Nat} {tokens head : List Token} (entered : Entered catalog depth tokens)
    (added : Head catalog head) : Ended catalog depth (tokens ++ head) := by
  cases depth with
  | zero => cases entered
  | succ depth => simpa using Ended.inner entered added .nil

/-- Closing a group ends the clause that the group belongs to. -/
theorem Ended.close {depth : Nat} {tokens : List Token} (ended : Ended catalog (depth + 1) tokens) :
    Ended catalog depth (tokens ++ [.closeParen]) := by
  cases ended with
  | @inner _ opened head rest before first later =>
    have group : Group catalog (.openParen :: (head ++ rest ++ [.closeParen])) := .parens first later
    cases before with
    | group ready => simpa using ready.clause (.group group)
    | clause ready free => simpa using ready.clause (.subject free group)
    | head entered free => simpa using entered.add_head (.subject free group)

/-- What the position says about the tokens behind it. -/
def Partial (catalog : Catalog) (depth : Nat) (tokens : List Token) : GrammarState → Prop
  | .start => Ready catalog depth tokens
  | .afterLogicalOperator => Ready catalog depth tokens
  | .afterOpenParen => Entered catalog depth tokens
  | .afterParameter => ∃ before name id, tokens = before ++ [.parameter name id] ∧
      (Ready catalog depth before ∨ Entered catalog depth before)
  | .afterOperator => ∃ before name id symbol, tokens = before ++ [.parameter name id, .operator symbol] ∧
      (Ready catalog depth before ∨ Entered catalog depth before)
  | .afterFactor => Ended catalog depth tokens
  | .afterCloseParen => Ended catalog depth tokens
  | .afterUnknown => False

theorem ended_comparison {depth : Nat} {tokens : List Token}
    (before : Ready catalog depth tokens ∨ Entered catalog depth tokens) (name : String) (id : Option ParameterId)
    (symbol value : String) :
    Ended catalog depth (tokens ++ [.parameter name id, .operator symbol, .factor value]) := by
  rcases before with ready | entered
  · exact ready.clause (.comparison name id symbol value)
  · exact entered.add_head (.comparison name id symbol value)

theorem entered_subject {depth : Nat} {tokens : List Token} {name : String} {id : Option ParameterId}
    (before : Ready catalog depth tokens ∨ Entered catalog depth tokens)
    (free : Grammar.factorsOf catalog (.parameter name id) = []) :
    Entered catalog (depth + 1) (tokens ++ [.parameter name id, .openParen]) := by
  rcases before with ready | entered
  · exact .clause ready free
  · exact .head entered free

/-- The partial derivation that belongs to a sequence's own position. -/
def Derived (catalog : Catalog) (tokens : List Token) : Prop :=
  Partial catalog (Grammar.parenDepth tokens) tokens (Grammar.position catalog tokens).state

private theorem derived_after_parameter {tokens : List Token} {name : String} {id : Option ParameterId}
    (derived : Derived catalog tokens)
    (legal : (Grammar.position catalog tokens).legalNext.contains .parameter = true) :
    Derived catalog (tokens ++ [.parameter name id]) := by
  unfold Derived at derived ⊢
  rw [Grammar.position_concat, Grammar.parenDepth_concat]
  refine ⟨tokens, name, id, rfl, ?_⟩
  rcases GrammarPosition.parameter_legal.mp legal with state | state | state | state
  all_goals rw [state] at derived
  · exact .inl derived
  · exact .inl derived
  · exact .inr derived
  · exact derived.elim

private theorem derived_after_operator {tokens : List Token} {symbol : String} (derived : Derived catalog tokens)
    (legal : (Grammar.position catalog tokens).legalNext.contains .operator = true) :
    Derived catalog (tokens ++ [.operator symbol]) := by
  unfold Derived at derived ⊢
  rw [Grammar.position_concat, Grammar.parenDepth_concat]
  rcases GrammarPosition.operator_legal.mp legal with state | state
  all_goals rw [state] at derived
  · obtain ⟨before, name, id, rfl, place⟩ := derived
    refine ⟨before, name, id, symbol, by simp, ?_⟩
    simpa [Grammar.parenDepth_concat] using place
  · exact derived.elim

private theorem derived_after_factor {tokens : List Token} {value : String} (derived : Derived catalog tokens)
    (legal : (Grammar.position catalog tokens).legalNext.contains .factor = true) :
    Derived catalog (tokens ++ [.factor value]) := by
  unfold Derived at derived ⊢
  rw [Grammar.position_concat, Grammar.parenDepth_concat]
  rcases GrammarPosition.factor_legal.mp legal with state | state
  all_goals rw [state] at derived
  · obtain ⟨before, name, id, symbol, rfl, place⟩ := derived
    have ended := ended_comparison place name id symbol value
    simpa [Partial, Token.kind, GrammarState.afterKind] using ended
  · exact derived.elim

private theorem derived_after_logicalOperator {tokens : List Token} {symbol : String}
    (derived : Derived catalog tokens)
    (legal : (Grammar.position catalog tokens).legalNext.contains .logicalOperator = true) :
    Derived catalog (tokens ++ [.logicalOperator symbol]) := by
  unfold Derived at derived ⊢
  rw [Grammar.position_concat, Grammar.parenDepth_concat]
  rcases GrammarPosition.logicalOperator_legal.mp legal with state | state | state
  all_goals rw [state] at derived
  · exact .next symbol derived
  · exact .next symbol derived
  · exact derived.elim

private theorem derived_after_openParen {tokens : List Token} (derived : Derived catalog tokens)
    (legal : (Grammar.position catalog tokens).legalNext.contains .openParen = true) :
    Derived catalog (tokens ++ [.openParen]) := by
  unfold Derived at derived ⊢
  rw [Grammar.position_concat, Grammar.parenDepth_concat]
  rcases GrammarPosition.openParen_legal.mp legal with state | state | ⟨state, free⟩ | state
  all_goals rw [state] at derived
  · exact .group derived
  · exact .group derived
  · obtain ⟨before, name, id, rfl, place⟩ := derived
    rw [Grammar.position_concat] at free
    have free : Grammar.factorsOf catalog (.parameter name id) = [] := by
      simpa [Grammar.isFreeText, Token.isParameter] using free
    have entered := entered_subject place free
    simpa [Partial, Token.kind, GrammarState.afterKind] using entered
  · exact derived.elim

private theorem derived_after_closeParen {tokens : List Token} (derived : Derived catalog tokens)
    (legal : (Grammar.position catalog tokens).legalNext.contains .closeParen = true) :
    Derived catalog (tokens ++ [.closeParen]) := by
  obtain ⟨inside, states⟩ := GrammarPosition.closeParen_legal.mp legal
  obtain ⟨depth, level⟩ : ∃ depth, Grammar.parenDepth tokens = depth + 1 := Nat.exists_eq_add_one.mpr inside
  unfold Derived at derived ⊢
  rw [Grammar.position_concat, Grammar.parenDepth_concat]
  rw [level] at derived ⊢
  rcases states with state | state | state
  all_goals rw [state] at derived
  · exact Ended.close derived
  · exact Ended.close derived
  · exact derived.elim

theorem derived_concat {tokens : List Token} {token : Token} (derived : Derived catalog tokens)
    (known : token.kind ≠ .unknown)
    (legal : (Grammar.position catalog tokens).legalNext.contains token.kind = true) :
    Derived catalog (tokens ++ [token]) := by
  cases token with
  | parameter => exact derived_after_parameter derived legal
  | operator => exact derived_after_operator derived legal
  | factor => exact derived_after_factor derived legal
  | logicalOperator => exact derived_after_logicalOperator derived legal
  | openParen => exact derived_after_openParen derived legal
  | closeParen => exact derived_after_closeParen derived legal
  | unknown => exact absurd rfl known

theorem derived_of_legalAfter {passed tokens : List Token} (legal : Grammar.LegalAfter catalog passed tokens)
    (known : ∀ token ∈ tokens, token.kind ≠ .unknown) (derived : Derived catalog passed) :
    Derived catalog (passed ++ tokens) := by
  induction legal with
  | nil => simpa using derived
  | @cons passed token rest first _ ih =>
    have solid : token.kind ≠ .unknown := known token (by simp)
    rw [List.append_cons]
    exact ih (fun later member => known later (by simp [member])) (derived_concat derived solid (first solid))

/-- Every open group can still be closed. -/
theorem Ended.extends {depth : Nat} {tokens : List Token} (ended : Ended catalog depth tokens) :
    ∃ whole, Expression catalog whole ∧ tokens <+: whole := by
  induction depth generalizing tokens with
  | zero =>
    cases ended with
    | outer first later => exact ⟨_, .clauses first later, List.prefix_refl _⟩
  | succ depth ih =>
    obtain ⟨whole, expression, begins⟩ := ih ended.close
    exact ⟨whole, expression, (List.prefix_append tokens _).trans begins⟩

/-- No partial derivation is a dead end. -/
theorem Partial.extends {depth : Nat} {tokens : List Token} {state : GrammarState}
    (derivation : Partial catalog depth tokens state) : ∃ whole, Expression catalog whole ∧ tokens <+: whole := by
  have finish {before : List Token} (place : Ready catalog depth before ∨ Entered catalog depth before)
      (name : String) (id : Option ParameterId) (symbol : String)
      (begins : tokens <+: before ++ [.parameter name id, .operator symbol, .factor ""]) :
      ∃ whole, Expression catalog whole ∧ tokens <+: whole := by
    obtain ⟨whole, expression, later⟩ := (ended_comparison place name id symbol "").extends
    exact ⟨whole, expression, begins.trans later⟩
  cases state with
  | start | afterLogicalOperator => exact finish (.inl derivation) "" none "" (List.prefix_append ..)
  | afterOpenParen => exact finish (.inr derivation) "" none "" (List.prefix_append ..)
  | afterParameter =>
    obtain ⟨before, name, id, rfl, place⟩ := derivation
    exact finish place name id "" ⟨[.operator "", .factor ""], by simp⟩
  | afterOperator =>
    obtain ⟨before, name, id, symbol, rfl, place⟩ := derivation
    exact finish place name id symbol ⟨[.factor ""], by simp⟩
  | afterFactor | afterCloseParen => exact Ended.extends derivation
  | afterUnknown => exact derivation.elim

/-- Without unknown tokens, a sequence has no violations exactly if it begins an expression, and it is an expression
exactly if moreover no group is open and a clause has just ended. -/
theorem violations_nil_iff_begins_expression (catalog : Catalog) (tokens : List Token)
    (known : ∀ token ∈ tokens, token.kind ≠ .unknown) :
    (Grammar.violations catalog tokens = [] ↔ ∃ whole, Expression catalog whole ∧ tokens <+: whole) ∧
    (Grammar.violations catalog tokens = [] ∧ Grammar.parenDepth tokens = 0 ∧
        ((Grammar.analyze catalog tokens).state = .afterFactor ∨
          (Grammar.analyze catalog tokens).state = .afterCloseParen) ↔
      Expression catalog tokens) := by
  rw [Grammar.violations_eq_nil]
  have derive (legal : Grammar.Legal catalog tokens) : Derived catalog tokens :=
    derived_of_legalAfter legal known Ready.start
  refine ⟨⟨fun legal => (derive legal).extends, ?_⟩, ⟨?_, fun expression => ?_⟩⟩
  · rintro ⟨whole, expression, rest, rfl⟩
    exact (Grammar.legal_append.mp expression.completes.legal).1
  · rintro ⟨legal, level, states⟩
    have derived := derive legal
    unfold Derived at derived
    have ended : Ended catalog 0 tokens := by
      rw [level] at derived
      rcases states with state | state
      all_goals
        have state : (Grammar.position catalog tokens).state = _ := state
        rw [state] at derived
        exact derived
    cases ended with
    | outer first later => exact .clauses first later
  · have completes := expression.completes
    exact ⟨completes.legal, completes.depth, completes.settled⟩

/-- A group behind a parameter without factors, inside of it a comparison and a second clause. -/
theorem group_behind_parameter_is_expression :
    let catalog : Catalog := ⟨[], [], .empty, .empty, [], .empty⟩
    let tokens : List Token :=
      [.parameter "Loan" (some 9), .openParen, .parameter "Age" (some 5), .operator ">", .factor "18",
        .logicalOperator "AND", .openParen, .parameter "City" (some 7), .operator "=", .factor "Rome", .closeParen,
        .closeParen]
    (∀ token ∈ tokens, token.kind ≠ .unknown) ∧ Expression catalog tokens := by
  intro catalog tokens
  have known : ∀ token ∈ tokens, token.kind ≠ .unknown := by decide
  exact ⟨known, (violations_nil_iff_begins_expression catalog tokens known).2.mp (by decide)⟩

end Criteria.Language
