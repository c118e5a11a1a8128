import Criteria.Proofs.LegalSequences
import Mathlib.Data.List.Induction
/-!
Checking in one pass and judging every token anew give the same violations. The pass carries the position of the
sequence in which each violation met so far stands as unknown text, whatever that text is.
-/

namespace Criteria.Grammar

variable {catalog : Catalog} {spell : Nat → String} {first rest tokens : List Token} {token : Token} {index : Nat}

/-- The position that the check carries when these tokens lie behind it. -/
def checked (catalog : Catalog) (tokens : List Token) : GrammarPosition := tokens.foldl (advance catalog) .start

/-- The sequence with unknown text in the place of every violation. -/
def masked (catalog : Catalog) (spell : Nat → String) (tokens : List Token) : List Token :=
  tokens.mapIdx fun index token => if index ∈ violations catalog tokens then .unknown (spell index) else token

theorem violationsFrom_append (position : GrammarPosition) (start : Nat) (first rest : List Token) :
    violationsFrom catalog position start (first ++ rest) =
      violationsFrom catalog position start first ++
        violationsFrom catalog (first.foldl (advance catalog) position) (start + first.length) rest := by
  induction first generalizing position start with
  | nil => rfl
  | cons token first ih =>
    rw [List.cons_append, violationsFrom, violationsFrom, ih, List.foldl_cons, List.length_cons,
      Nat.add_right_comm, Nat.add_assoc start]
    split <;> rfl

theorem violations_append (first rest : List Token) :
    violations catalog (first ++ rest) =
      violations catalog first ++ violationsFrom catalog (checked catalog first) first.length rest := by
  simp only [violations, violationsFrom_append, checked, Nat.zero_add]

theorem bounds_of_mem_violationsFrom {position : GrammarPosition} {start : Nat}
    (member : index ∈ violationsFrom catalog position start tokens) :
    start ≤ index ∧ index < start + tokens.length := by
  induction tokens generalizing position start with
  | nil => cases member
  | cons token rest ih =>
    rw [List.length_cons]
    unfold violationsFrom at member
    dsimp only at member
    split at member
    next =>
      have bounds := ih member
      omega
    next =>
      rcases List.mem_cons.mp member with rfl | later
      · omega
      · have bounds := ih later
        omega

theorem lt_of_mem_violations (member : index ∈ violations catalog tokens) : index < tokens.length := by
  simpa using (bounds_of_mem_violationsFrom member).2

theorem violationsFrom_ascend (position : GrammarPosition) (start : Nat) (tokens : List Token) :
    (violationsFrom catalog position start tokens).Pairwise (· < ·) := by
  induction tokens generalizing position start with
  | nil => exact .nil
  | cons token rest ih =>
    unfold violationsFrom
    dsimp only
    split
    next => exact ih _ _
    next => exact .cons (fun later member => (bounds_of_mem_violationsFrom member).1) (ih _ _)

/-- What follows makes no difference to a violation. -/
theorem mem_violations_append (inside : index < first.length) :
    index ∈ violations catalog (first ++ rest) ↔ index ∈ violations catalog first := by
  rw [violations_append, List.mem_append, or_iff_left]
  intro beyond
  have bounds := bounds_of_mem_violationsFrom beyond
  omega

theorem length_mem_violations_append :
    first.length ∈ violations catalog (first ++ token :: rest) ↔
      token.kind ≠ .unknown ∧ ¬ (checked catalog first).legalNext.contains token.kind = true := by
  have before : first.length ∉ violations catalog first := fun member => Nat.lt_irrefl _ (lt_of_mem_violations member)
  rw [violations_append, List.mem_append, or_iff_right before, violationsFrom]
  have behind : first.length ∉
      violationsFrom catalog (advance catalog (checked catalog first) token) (first.length + 1) rest := by
    intro member
    have bounds := bounds_of_mem_violationsFrom member
    omega
  split
  next passed =>
    simp only [Bool.or_eq_true, beq_iff_eq] at passed
    exact iff_of_false behind fun shown => passed.elim shown.2 shown.1
  next refused =>
    simp only [Bool.or_eq_true, beq_iff_eq, not_or] at refused
    exact iff_of_true List.mem_cons_self ⟨refused.2, refused.1⟩

theorem masked_append_take (first rest : List Token) :
    (masked catalog spell (first ++ rest)).take first.length = masked catalog spell first := by
  apply List.ext_getElem?
  intro index
  by_cases inside : index < first.length
  · rw [List.getElem?_take_of_lt inside]
    simp only [masked, List.getElem?_mapIdx, List.getElem?_append_left inside, mem_violations_append inside]
  · have short : (masked catalog spell first).length = first.length := List.length_mapIdx
    rw [List.getElem?_eq_none (by simp; omega), List.getElem?_eq_none (by omega)]

theorem masked_concat (tokens : List Token) (token : Token) :
    masked catalog spell (tokens ++ [token]) =
      masked catalog spell tokens ++
        [if tokens.length ∈ violations catalog (tokens ++ [token]) then .unknown (spell tokens.length) else token] := by
  rw [← @masked_append_take catalog spell tokens [token]]
  simp only [masked, List.mapIdx_concat]
  rw [List.take_left']
  exact List.length_mapIdx

/-- The position carried along is the one that the masked sequence has. -/
theorem checked_eq_position (tokens : List Token) :
    checked catalog tokens = position catalog (masked catalog spell tokens) := by
  induction tokens using List.reverseRecOn with
  | nil => rfl
  | append_singleton tokens token ih =>
    have step : checked catalog (tokens ++ [token]) = advance catalog (checked catalog tokens) token := by
      simp [checked]
    have violation := @length_mem_violations_append catalog tokens [] token
    rw [ih] at violation
    rw [step, masked_concat, ih]
    by_cases legal : (position catalog (masked catalog spell tokens)).legalNext.contains token.kind = true
    · rw [if_neg fun member => (violation.mp member).2 legal, advance_of_legal legal]
    · by_cases known : token.kind = .unknown
      · rw [if_neg fun member => (violation.mp member).1 known]
        cases token with
        | unknown text => exact advance_of_illegal text legal
        | parameter | factor | operator | logicalOperator | openParen | closeParen => cases known
      · rw [if_pos (violation.mpr ⟨known, legal⟩), advance_of_illegal (spell tokens.length) legal]

theorem legal_masked (tokens : List Token) : Legal catalog (masked catalog spell tokens) := by
  induction tokens using List.reverseRecOn with
  | nil => exact .nil
  | append_singleton tokens token ih =>
    rw [masked_concat, legal_concat]
    refine ⟨ih, ?_⟩
    have violation := @length_mem_violations_append catalog tokens [] token
    rw [checked_eq_position] at violation
    split
    next => exact fun known => absurd rfl known
    next permitted =>
      intro known
      by_contra illegal
      exact permitted (violation.mpr ⟨known, illegal⟩)

/-- The violations found in one pass are those found by putting unknown text in the place of each and judging every
token anew after the tokens before it. They come in ascending order, and none is left once they are replaced. Wherever
the pass is, it carries the position of the replaced tokens behind it, depth included, and no closing parenthesis that
it lets pass is taken off a depth of zero. -/
theorem violations_replaced (catalog : Catalog) (spell : Nat → String) (tokens : List Token) :
    let replaced := masked catalog spell tokens
    (∀ first token rest, tokens = first ++ token :: rest →
      (first.length ∈ violations catalog tokens ↔
        token.kind ≠ .unknown ∧
          ¬ (analyze catalog (replaced.take first.length)).legalNext.contains token.kind = true)) ∧
    (∀ index ∈ violations catalog tokens, index < tokens.length) ∧
    (violations catalog tokens).Pairwise (· < ·) ∧
    violations catalog replaced = [] ∧
    (∀ first rest, tokens = first ++ rest →
      violations catalog tokens =
        violations catalog first ++ violationsFrom catalog (checked catalog first) first.length rest ∧
      checked catalog first = position catalog (replaced.take first.length) ∧
      (checked catalog first).depth = parenDepth (replaced.take first.length)) ∧
    ∀ first rest, tokens = first ++ .closeParen :: rest → first.length ∉ violations catalog tokens →
      0 < (checked catalog first).depth := by
  intro replaced
  have carried (first rest : List Token) (same : tokens = first ++ rest) :
      checked catalog first = position catalog (replaced.take first.length) := by
    subst same
    rw [checked_eq_position, masked_append_take]
  refine ⟨?_, fun index => lt_of_mem_violations, violationsFrom_ascend _ _ _, violations_eq_nil.mpr (legal_masked tokens),
    ?_, ?_⟩
  · intro first token rest same
    have judged : (analyze catalog (replaced.take first.length)).legalNext = (checked catalog first).legalNext :=
      congrArg GrammarPosition.legalNext (carried first _ same).symm
    rw [judged, same, length_mem_violations_append]
  · intro first rest same
    have position := carried first rest same
    exact ⟨same ▸ violations_append first rest, position, congrArg GrammarPosition.depth position⟩
  · intro first rest same permitted
    by_contra outside
    apply permitted
    rw [same, length_mem_violations_append]
    refine ⟨by simp [Token.kind], fun legal => outside ?_⟩
    exact (GrammarPosition.closeParen_legal.mp legal).1

end Criteria.Grammar
