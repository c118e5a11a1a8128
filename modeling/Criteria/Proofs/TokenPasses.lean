import Criteria.Proofs.CanonicalTokens
import Criteria.Proofs.LegalSequences
/-!
What every token of a reading has, pass by pass. A property is kept by a pass when it is kept by what the pass does to
one token or to two neighbours; the last pass is told token by token, each with the marked tokens before it.
-/

namespace Criteria.Reading

open Grammar

variable {catalog : Catalog} {holds kept : Token → Prop} {tokens : List Token}

/-- What the tokens read at each word have, whatever was passed with it, all scanned tokens have. -/
theorem forall_scanFrom {spelled : String → Prop} {passed : List Token} (taken : Nat) {words : List String}
    (earlier : ∀ token ∈ passed, holds token) (given : ∀ word ∈ words, spelled word)
    (read : ∀ passed word rest, (∀ token ∈ passed, holds token) → (∀ other ∈ word :: rest, spelled other) →
      ∀ token ∈ (tokensAt catalog passed word rest).1, holds token) :
    ∀ token ∈ scanFrom catalog passed taken words, holds token := by
  induction words generalizing passed taken with
  | nil => exact fun token member => earlier token (List.mem_reverse.mp (by simpa [scanFrom] using member))
  | cons word rest ih =>
    have later : ∀ other ∈ rest, spelled other := fun other member => given other (List.mem_cons_of_mem _ member)
    cases taken with
    | succ taken => exact ih taken earlier later
    | zero =>
      refine ih _ ?_ later
      intro token member
      rcases List.mem_append.mp member with here | before
      · exact read passed word rest earlier given token (List.mem_reverse.mp here)
      · exact earlier token before

theorem forall_reclassify (afterOperator : Bool) (given : ∀ token ∈ tokens, holds token)
    (operand : ∀ token, holds token → holds (asOperand token))
    (subject : ∀ token, holds token → kept (asSubject catalog token)) (weaken : ∀ token, holds token → kept token) :
    ∀ token ∈ reclassify catalog afterOperator tokens, kept token := by
  induction tokens generalizing afterOperator with
  | nil => exact fun token member => by cases member
  | cons token rest ih =>
    obtain ⟨here, later⟩ := List.forall_mem_cons.mp given
    have asked : holds (if afterOperator then asOperand token else token) := by
      split
      · exact operand token here
      · exact here
    unfold reclassify
    refine List.forall_mem_cons.mpr ⟨?_, ih _ later⟩
    split
    · exact subject _ asked
    · exact weaken _ asked

theorem isParameter_asParameter (catalog : Catalog) (text : String) :
    (asParameter catalog text).isParameter = true := by
  unfold asParameter
  split <;> rfl

theorem kind_asParameter (text : String) : (asParameter catalog text).kind = .parameter :=
  Token.isParameter_eq_true_iff.mp (isParameter_asParameter catalog text)

theorem reclassify_factor (behind : Bool) (value : String) :
    reclassify catalog behind (.factor value :: tokens) =
      (if startsWithOperator tokens then asParameter catalog value else .factor value) ::
        reclassify catalog false tokens := by
  have operand : (if behind then asOperand (.factor value) else .factor value) = Token.factor value := by
    cases behind <;> rfl
  rw [reclassify, operand]
  split
  next =>
    rw [asSubject, kind_asParameter]
    rfl
  next => rfl

/-- A name behind an operator is a factor. -/
theorem reclassify_name (parameter : ParameterDef) (apart : startsWithOperator tokens = false) :
    reclassify catalog true (parameter.token :: tokens) =
      .factor parameter.name :: reclassify catalog false tokens := by
  rw [reclassify, apart]
  rfl

theorem reclassify_parameter (parameter : ParameterDef) :
    reclassify catalog false (parameter.token :: tokens) = parameter.token :: reclassify catalog false tokens := by
  rw [reclassify]
  cases startsWithOperator tokens <;> rfl

theorem reclassify_operator (behind : Bool) (symbol : String) :
    reclassify catalog behind (.operator symbol :: tokens) = .operator symbol :: reclassify catalog true tokens := by
  rw [reclassify]
  cases behind <;> cases startsWithOperator tokens <;> rfl

theorem forall_mergeFactors (given : ∀ token ∈ tokens, holds token)
    (joined : ∀ first second, holds (.factor first) → holds (.factor second) →
      holds (.factor (first ++ " " ++ second))) : ∀ token ∈ mergeFactors tokens, holds token := by
  induction tokens with
  | nil => exact given
  | cons token rest ih =>
    obtain ⟨here, later⟩ := List.forall_mem_cons.mp given
    have later := ih later
    cases token with
    | factor value =>
      unfold mergeFactors
      split
      next next behind merged =>
        rw [merged] at later
        obtain ⟨second, behind⟩ := List.forall_mem_cons.mp later
        exact List.forall_mem_cons.mpr ⟨joined value next here second, behind⟩
      next => exact List.forall_mem_cons.mpr ⟨here, later⟩
    | parameter | operator | logicalOperator | openParen | closeParen | unknown =>
      exact List.forall_mem_cons.mpr ⟨here, later⟩

/-- The token as it is left behind the others, unknown where it is illegal. -/
def markedAfter (catalog : Catalog) (before : List Token) (token : Token) : Token :=
  if (position catalog before).legalNext.contains token.kind then token else .unknown token.text

theorem markedAfter_cases (catalog : Catalog) (before : List Token) (token : Token) :
    markedAfter catalog before token = token ∧ (position catalog before).legalNext.contains token.kind = true ∨
      markedAfter catalog before token = .unknown token.text ∧
        (position catalog before).legalNext.contains token.kind = false := by
  unfold markedAfter
  split
  next legal => exact .inl ⟨rfl, legal⟩
  next illegal => exact .inr ⟨rfl, Bool.eq_false_iff.mpr illegal⟩

theorem markFrom_cons (before : List Token) (token : Token) (rest : List Token) :
    markFrom catalog (position catalog before) (token :: rest) =
      markedAfter catalog before token ::
        markFrom catalog (position catalog (before ++ [markedAfter catalog before token])) rest := by
  rw [markFrom, markedAfter]
  by_cases legal : (position catalog before).legalNext.contains token.kind = true
  · rw [if_pos legal, advance_of_legal legal]
  · rw [if_neg legal, advance_of_illegal token.text legal]

/-- Each token is marked behind the marked tokens before it. -/
theorem getElem?_markFrom (before tokens : List Token) (index : Nat) :
    (markFrom catalog (position catalog before) tokens)[index]? =
      tokens[index]?.map
        (markedAfter catalog (before ++ (markFrom catalog (position catalog before) tokens).take index)) := by
  induction tokens generalizing before index with
  | nil => rfl
  | cons token rest ih =>
    rw [markFrom_cons]
    cases index with
    | zero => simp
    | succ index =>
      have later := ih (before ++ [markedAfter catalog before token]) index
      rwa [List.append_assoc, List.singleton_append] at later

end Criteria.Reading
