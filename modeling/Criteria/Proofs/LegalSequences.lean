import Criteria.Reading.Basic
/-!
Sequences in which every token is legal where it stands. Unknown tokens are passed over. Checking a sequence,
marking one and appending to one all keep the same position, and the depth of that position counts parentheses
exactly.
-/

namespace Criteria

theorem KindSet.contains_foldl_insert (kinds : List TokenKind) (set : KindSet) (kind : TokenKind) :
    (kinds.foldl KindSet.insert set).contains kind = true ↔ set.contains kind = true ∨ kind ∈ kinds := by
  induction kinds generalizing set with
  | nil => simp
  | cons added kinds ih =>
    rw [List.foldl_cons, ih, KindSet.contains_insert, Bool.or_eq_true, decide_eq_true_eq, List.mem_cons, or_assoc,
      eq_comm (a := added)]

theorem KindSet.contains_ofList {kinds : List TokenKind} {kind : TokenKind} :
    (KindSet.ofList kinds).contains kind = true ↔ kind ∈ kinds := by
  rw [KindSet.ofList, KindSet.contains_foldl_insert, KindSet.contains_empty]
  simp

namespace GrammarPosition

/-- Everything that may follow, with its condition. -/
theorem contains_legalNext {position : GrammarPosition} {kind : TokenKind} :
    position.legalNext.contains kind = true ↔
      kind ∈ followers position.state position.freeText ∨
        kind = .closeParen ∧ position.state.isClosable = true ∧ 0 < position.depth := by
  unfold legalNext
  split
  next closable =>
    have closable : position.state.isClosable = true ∧ 0 < position.depth := by simpa using closable
    rw [KindSet.contains_insert, Bool.or_eq_true, decide_eq_true_eq, KindSet.contains_ofList, eq_comm (b := kind)]
    exact or_congr_right ⟨fun same => ⟨same, closable⟩, And.left⟩
  next blocked =>
    rw [KindSet.contains_ofList]
    refine ⟨Or.inl, fun legal => legal.resolve_right fun ⟨_, closable, inside⟩ => blocked ?_⟩
    simp [closable, inside]

variable {position : GrammarPosition}

theorem parameter_legal : position.legalNext.contains .parameter = true ↔
    position.state = .start ∨ position.state = .afterLogicalOperator ∨ position.state = .afterOpenParen ∨
      position.state = .afterUnknown := by
  rw [contains_legalNext]
  obtain ⟨state, depth, freeText⟩ := position
  cases state <;> cases freeText <;> simp [followers]

theorem operator_legal : position.legalNext.contains .operator = true ↔
    position.state = .afterParameter ∨ position.state = .afterUnknown := by
  rw [contains_legalNext]
  obtain ⟨state, depth, freeText⟩ := position
  cases state <;> cases freeText <;> simp [followers]

theorem factor_legal : position.legalNext.contains .factor = true ↔
    position.state = .afterOperator ∨ position.state = .afterUnknown := by
  rw [contains_legalNext]
  obtain ⟨state, depth, freeText⟩ := position
  cases state <;> cases freeText <;> simp [followers]

theorem logicalOperator_legal : position.legalNext.contains .logicalOperator = true ↔
    position.state = .afterFactor ∨ position.state = .afterCloseParen ∨ position.state = .afterUnknown := by
  rw [contains_legalNext]
  obtain ⟨state, depth, freeText⟩ := position
  cases state <;> cases freeText <;> simp [followers]

theorem openParen_legal : position.legalNext.contains .openParen = true ↔
    position.state = .start ∨ position.state = .afterLogicalOperator ∨
      position.state = .afterParameter ∧ position.freeText = true ∨ position.state = .afterUnknown := by
  rw [contains_legalNext]
  obtain ⟨state, depth, freeText⟩ := position
  cases state <;> cases freeText <;> simp [followers]

theorem closeParen_legal : position.legalNext.contains .closeParen = true ↔
    0 < position.depth ∧
      (position.state = .afterFactor ∨ position.state = .afterCloseParen ∨ position.state = .afterUnknown) := by
  rw [contains_legalNext]
  obtain ⟨state, depth, freeText⟩ := position
  cases state <;> cases freeText <;> simp [followers, GrammarState.isClosable]

end GrammarPosition

namespace Grammar

variable {catalog : Catalog}

theorem position_nil : position catalog [] = .start := rfl

theorem parenDepth_concat (tokens : List Token) (token : Token) :
    parenDepth (tokens ++ [token]) =
      match token with
      | .openParen => parenDepth tokens + 1
      | .closeParen => parenDepth tokens - 1
      | _ => parenDepth tokens := by
  cases token <;> simp only [parenDepth, List.foldl_append, List.foldl_cons, List.foldl_nil]

theorem ofTail_concat (tokens : List Token) (token : Token) :
    GrammarState.ofTail (tokens ++ [token]) = .afterKind token.kind := by
  simp [GrammarState.ofTail]

theorem position_concat (tokens : List Token) (token : Token) :
    position catalog (tokens ++ [token]) =
      ⟨.afterKind token.kind, parenDepth (tokens ++ [token]), isFreeText catalog token⟩ := by
  simp [position, ofTail_concat]

theorem advance_of_legal {tokens : List Token} {token : Token}
    (legal : (position catalog tokens).legalNext.contains token.kind = true) :
    advance catalog (position catalog tokens) token = position catalog (tokens ++ [token]) := by
  unfold advance
  rw [if_pos legal, position_concat, parenDepth_concat]
  cases token <;> rfl

/-- An illegal token moves the position as an unknown one in its place would. -/
theorem advance_of_illegal {tokens : List Token} {token : Token} (text : String)
    (illegal : ¬ (position catalog tokens).legalNext.contains token.kind = true) :
    advance catalog (position catalog tokens) token = position catalog (tokens ++ [.unknown text]) := by
  unfold advance
  rw [if_neg illegal, position_concat, parenDepth_concat]
  rfl

/-- The tokens are legal one after another, those before them being `passed`. -/
inductive LegalAfter (catalog : Catalog) : List Token → List Token → Prop where
  | nil {passed} : LegalAfter catalog passed []
  | cons {passed token rest}
      (first : token.kind ≠ .unknown → (position catalog passed).legalNext.contains token.kind = true)
      (later : LegalAfter catalog (passed ++ [token]) rest) : LegalAfter catalog passed (token :: rest)

def Legal (catalog : Catalog) (tokens : List Token) : Prop := LegalAfter catalog [] tokens

theorem legalAfter_cons {passed rest : List Token} {token : Token} :
    LegalAfter catalog passed (token :: rest) ↔
      (token.kind ≠ .unknown → (position catalog passed).legalNext.contains token.kind = true) ∧
        LegalAfter catalog (passed ++ [token]) rest := by
  constructor
  · intro legal
    cases legal with
    | cons first later => exact ⟨first, later⟩
  · intro ⟨first, later⟩
    exact .cons first later

theorem legalAfter_append {passed first rest : List Token} :
    LegalAfter catalog passed (first ++ rest) ↔
      LegalAfter catalog passed first ∧ LegalAfter catalog (passed ++ first) rest := by
  induction first generalizing passed with
  | nil => simp [LegalAfter.nil]
  | cons token first ih => simp [legalAfter_cons, ih, and_assoc]

theorem legal_append {first rest : List Token} :
    Legal catalog (first ++ rest) ↔ Legal catalog first ∧ LegalAfter catalog first rest :=
  legalAfter_append

theorem legal_concat {tokens : List Token} {token : Token} :
    Legal catalog (tokens ++ [token]) ↔
      Legal catalog tokens ∧
        (token.kind ≠ .unknown → (position catalog tokens).legalNext.contains token.kind = true) := by
  rw [legal_append, legalAfter_cons]
  simp only [LegalAfter.nil, and_true]

theorem Legal.take {tokens : List Token} (legal : Legal catalog tokens) (count : Nat) :
    Legal catalog (tokens.take count) := by
  rw [← List.take_append_drop count tokens] at legal
  exact (legal_append.mp legal).1

theorem Legal.at_index {tokens : List Token} (legal : Legal catalog tokens) {index : Nat} {token : Token}
    (found : tokens[index]? = some token) (known : token.kind ≠ .unknown) :
    (analyze catalog (tokens.take index)).legalNext.contains token.kind = true := by
  have shape : tokens.take (index + 1) = tokens.take index ++ [token] := by
    rw [List.take_add_one, found, Option.toList_some]
  have step := legal.take (index + 1)
  rw [shape] at step
  exact (legal_concat.mp step).2 known

theorem violationsFrom_eq_nil (passed : List Token) (index : Nat) {tokens : List Token} :
    violationsFrom catalog (position catalog passed) index tokens = [] ↔ LegalAfter catalog passed tokens := by
  induction tokens generalizing passed index with
  | nil => simp [violationsFrom, LegalAfter.nil]
  | cons token rest ih =>
    rw [legalAfter_cons]
    unfold violationsFrom
    by_cases legal : (position catalog passed).legalNext.contains token.kind = true
    · simp only [advance_of_legal legal, legal, Bool.true_or, if_true, implies_true, true_and]
      exact ih _ (index + 1)
    · cases token with
      | unknown text =>
        rw [advance_of_illegal text legal]
        simpa [Token.kind] using ih _ (index + 1)
      | parameter | factor | operator | logicalOperator | openParen | closeParen =>
        simp_all [Token.kind]

theorem violations_eq_nil {tokens : List Token} : violations catalog tokens = [] ↔ Legal catalog tokens :=
  violationsFrom_eq_nil [] 0

/-- Whatever is illegal is marked, and what follows is judged after the marks. -/
theorem legalAfter_markFrom (passed tokens : List Token) :
    LegalAfter catalog passed (Reading.markFrom catalog (position catalog passed) tokens) := by
  induction tokens generalizing passed with
  | nil => exact .nil
  | cons token rest ih =>
    unfold Reading.markFrom
    by_cases legal : (position catalog passed).legalNext.contains token.kind = true
    · rw [if_pos legal, advance_of_legal legal]
      exact .cons (fun _ => legal) (ih _)
    · rw [if_neg legal, advance_of_illegal token.text legal]
      exact .cons (fun known => absurd rfl known) (ih _)

theorem legal_parse (catalog : Catalog) (text : String) : Legal catalog (Reading.parse catalog text) := by
  unfold Reading.parse Legal
  rw [← @position_nil catalog]
  generalize Reading.mergeFactors _ = tokens
  exact legalAfter_markFrom [] tokens

/-- A sequence that is legal already is marked nowhere. -/
theorem markFrom_of_legalAfter {passed tokens : List Token} (legal : LegalAfter catalog passed tokens) :
    Reading.markFrom catalog (position catalog passed) tokens = tokens := by
  induction legal with
  | nil => rfl
  | @cons passed token rest first _ ih =>
    unfold Reading.markFrom
    by_cases allowed : (position catalog passed).legalNext.contains token.kind = true
    · rw [if_pos allowed, advance_of_legal allowed, ih]
    · cases token with
      | unknown text =>
        rw [if_neg allowed, advance_of_illegal text allowed, ih]
        rfl
      | parameter | factor | operator | logicalOperator | openParen | closeParen =>
        exact absurd (first (by simp [Token.kind])) allowed

section Neighbours

variable {passed rest : List Token} {token : Token} {value : String} {identity : Option ParameterId}

private theorem allowed_of_legalAfter (legal : LegalAfter catalog passed (token :: rest))
    (known : token.kind ≠ .unknown) : (position catalog passed).legalNext.contains token.kind = true :=
  (legalAfter_cons.mp legal).1 known

theorem ofTail_concat_ne_afterUnknown (passed : List Token) (known : token.kind ≠ .unknown) :
    GrammarState.ofTail (passed ++ [token]) ≠ .afterUnknown := by
  rw [ofTail_concat]
  cases token with
  | unknown text => exact absurd rfl known
  | parameter | factor | operator | logicalOperator | openParen | closeParen =>
    simp [Token.kind, GrammarState.afterKind]

theorem LegalAfter.state_of_factor (legal : LegalAfter catalog passed (.factor value :: rest))
    (placed : GrammarState.ofTail passed ≠ .afterUnknown) : GrammarState.ofTail passed = .afterOperator := by
  have allowed := allowed_of_legalAfter legal (by simp [Token.kind])
  exact (GrammarPosition.factor_legal.mp allowed).resolve_right placed

theorem LegalAfter.state_of_operator (legal : LegalAfter catalog passed (.operator value :: rest))
    (placed : GrammarState.ofTail passed ≠ .afterUnknown) : GrammarState.ofTail passed = .afterParameter := by
  have allowed := allowed_of_legalAfter legal (by simp [Token.kind])
  exact (GrammarPosition.operator_legal.mp allowed).resolve_right placed

/-- Only a factor follows an operator. -/
theorem LegalAfter.state_ne_afterOperator (legal : LegalAfter catalog passed (token :: rest))
    (known : token.kind ≠ .unknown) (notFactor : token.kind ≠ .factor) :
    GrammarState.ofTail passed ≠ .afterOperator := by
  intro state
  have state : (position catalog passed).state = .afterOperator := state
  have allowed := GrammarPosition.contains_legalNext.mp (allowed_of_legalAfter legal known)
  rw [state] at allowed
  simp [GrammarPosition.followers, GrammarState.isClosable, notFactor] at allowed

theorem LegalAfter.next_of_parameter
    (legal : LegalAfter catalog (passed ++ [.parameter value identity]) (token :: rest))
    (known : token.kind ≠ .unknown) : token.kind = .operator ∨ token.kind = .openParen := by
  have allowed := GrammarPosition.contains_legalNext.mp (allowed_of_legalAfter legal known)
  rw [position_concat] at allowed
  rcases allowed with follows | ⟨_, closable, _⟩
  · have follows : token.kind ∈ GrammarPosition.followers .afterParameter
        (isFreeText catalog (.parameter value identity)) := follows
    simp only [GrammarPosition.followers] at follows
    split at follows
    · simpa using follows
    · exact .inl (by simpa using follows)
  · cases closable

theorem LegalAfter.next_of_factor (legal : LegalAfter catalog (passed ++ [.factor value]) (token :: rest))
    (known : token.kind ≠ .unknown) : token.kind = .logicalOperator ∨ token.kind = .closeParen := by
  have allowed := GrammarPosition.contains_legalNext.mp (allowed_of_legalAfter legal known)
  rw [position_concat] at allowed
  rcases allowed with follows | ⟨closes, _, _⟩
  · have follows : token.kind ∈ GrammarPosition.followers .afterFactor (isFreeText catalog (.factor value)) := follows
    exact .inl (by simpa [GrammarPosition.followers] using follows)
  · exact .inr closes

end Neighbours

def opens (tokens : List Token) : Nat := tokens.countP (·.kind == .openParen)

def closes (tokens : List Token) : Nat := tokens.countP (·.kind == .closeParen)

private theorem depth_after {passed tokens : List Token} (legal : LegalAfter catalog passed tokens)
    (exact_before : parenDepth passed + closes passed = opens passed) :
    parenDepth (passed ++ tokens) + closes (passed ++ tokens) = opens (passed ++ tokens) := by
  induction legal with
  | nil => simpa using exact_before
  | @cons passed token rest first _ ih =>
    rw [List.append_cons]
    refine ih ?_
    rw [parenDepth_concat]
    cases token with
    | closeParen =>
      have inside : 0 < parenDepth passed :=
        (GrammarPosition.closeParen_legal.mp (first (by simp [Token.kind]))).1
      simp only [opens, closes, List.countP_append, List.countP_singleton, Token.kind] at exact_before ⊢
      simp
      omega
    | openParen =>
      simp only [opens, closes, List.countP_append, List.countP_singleton, Token.kind] at exact_before ⊢
      simp
      omega
    | parameter | factor | operator | logicalOperator | unknown =>
      simpa [opens, closes, List.countP_append, List.countP_singleton, Token.kind] using exact_before

/-- Nothing is lost to the floor at zero: the depth is the difference of the two counts. -/
theorem Legal.depth_add_closes {tokens : List Token} (legal : Legal catalog tokens) :
    parenDepth tokens + closes tokens = opens tokens := depth_after legal rfl

end Grammar

end Criteria
