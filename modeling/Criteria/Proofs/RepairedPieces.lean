import Criteria.Proofs.ShownReading
/-!
Which tokens a repaired reading makes of the tokens that were read. A token stays as it is, a factor becomes a
parameter, or operands side by side become one factor. In each case the words stay the same, since settled words are
read as tokens that repairing does not spell anew.
-/

namespace Criteria.Reading

open Text

variable {catalog : Catalog} {passed tokens raw : List Token} {token : Token}
  {piece : List Token} {taken remaining others words shown : List String}

/-- A token with the tokens that it was made of. -/
inductive MadeOf (catalog : Catalog) : Token → List Token → Prop
  | itself (token : Token) : MadeOf catalog token [token]
  | subject {value : String} (same : (asParameter catalog value).text = value) :
      MadeOf catalog (asParameter catalog value) [.factor value]
  | joined {piece : List Token} (nonempty : piece ≠ []) (operands : ∀ token ∈ piece, token.kind ≠ .operator) :
      MadeOf catalog (.factor (unwords (piece.map Token.text))) piece

/-- Nothing before an operator is left a factor. -/
inductive AllMadeOf (catalog : Catalog) : List Token → List Token → Prop
  | nil : AllMadeOf catalog [] []
  | cons {token : Token} {piece tokens raw : List Token} (made : MadeOf catalog token piece)
      (apart : startsWithOperator raw = true → token.kind ≠ .factor) (later : AllMadeOf catalog tokens raw) :
      AllMadeOf catalog (token :: tokens) (piece ++ raw)

theorem MadeOf.expressionWords_text (made : MadeOf catalog token piece) :
    expressionWords token.text = piece.flatMap fun token => expressionWords token.text := by
  cases made with
  | itself => rw [List.flatMap_singleton]
  | subject same => rw [same, List.flatMap_singleton, Token.text]
  | joined => rw [Token.text, expressionWords_unwords, List.flatMap_map]

theorem kind_asSubject (token : Token) : (asSubject catalog token).kind ≠ .factor := by
  cases token with
  | factor value =>
    rw [asSubject, kind_asParameter]
    decide
  | parameter | operator | logicalOperator | openParen | closeParen | unknown => simp [asSubject, Token.kind]

/-- The texts of the pieces side by side are the text of the factor. -/
structure Operands (value : String) (piece : List Token) : Prop where
  nonempty : piece ≠ []
  solid : ∀ token ∈ piece, token.kind ≠ .operator
  text : value = unwords (piece.map Token.text)

theorem MadeOf.operands {value : String} (made : MadeOf catalog (.factor value) piece) : Operands value piece := by
  generalize same : Token.factor value = token at made
  cases made with
  | itself =>
    subst same
    exact ⟨List.cons_ne_nil _ _, by simp [Token.kind], (unwords_singleton value).symm⟩
  | @subject text =>
    have parameter := isParameter_asParameter catalog text
    rw [← same] at parameter
    cases parameter
  | joined nonempty operands =>
    obtain rfl := Token.factor.inj same
    exact ⟨nonempty, operands, rfl⟩

theorem Operands.madeOf {value : String} (operands : Operands value piece) : MadeOf catalog (.factor value) piece := by
  rw [operands.text]
  exact .joined operands.nonempty operands.solid

theorem Operands.append {value next : String} {front rear : List Token} (first : Operands value front)
    (second : Operands next rear) :
    Operands (value ++ " " ++ next) (front ++ rear) where
  nonempty := List.append_ne_nil_of_left_ne_nil first.nonempty _
  solid := List.forall_mem_append.mpr ⟨first.solid, second.solid⟩
  text := by
    have texts {piece : List Token} (nonempty : piece ≠ []) : piece.map Token.text ≠ [] := by simpa using nonempty
    rw [List.map_append, unwords_append (texts first.nonempty) (texts second.nonempty), ← first.text, ← second.text]

/-- The words of the token stay the same whatever it is made into. -/
structure Lasting (catalog : Catalog) (token : Token) : Prop where
  factor : ∀ value, token = .factor value → (asParameter catalog value).text = value
  parameter : ∀ name id, token = .parameter name id → asParameter catalog name = token

theorem madeOf_reclassified (lasting : Lasting catalog token) (behind before : Bool) :
    MadeOf catalog
      (if before then asSubject catalog (if behind then asOperand token else token)
        else if behind then asOperand token else token) [token] := by
  cases token with
  | factor value =>
    have operand : (if behind then asOperand (.factor value) else .factor value) = Token.factor value := by
      cases behind <;> rfl
    rw [operand]
    cases before with
    | false => exact .itself _
    | true => exact .subject (lasting.factor value rfl)
  | parameter name id =>
    cases behind with
    | false => cases before <;> exact .itself _
    | true =>
      cases before with
      | false =>
        have operands : Operands name [.parameter name id] :=
          ⟨List.cons_ne_nil _ _, by simp [Token.kind], (unwords_singleton name).symm⟩
        exact operands.madeOf
      | true =>
        have same : asSubject catalog (asOperand (.parameter name id)) = .parameter name id :=
          lasting.parameter name id rfl
        simp only [if_true, same]
        exact .itself _
  | operator | logicalOperator | openParen | closeParen | unknown => cases behind <;> cases before <;> exact .itself _

theorem allMadeOf_reclassify (behind : Bool) (lasting : ∀ token ∈ raw, Lasting catalog token) :
    AllMadeOf catalog (reclassify catalog behind raw) raw := by
  induction raw generalizing behind with
  | nil => exact .nil
  | cons token raw ih =>
    obtain ⟨here, later⟩ := List.forall_mem_cons.mp lasting
    have made := madeOf_reclassified here behind (startsWithOperator raw)
    refine AllMadeOf.cons made ?_ (ih _ later)
    intro starts
    rw [if_pos starts]
    exact kind_asSubject _

theorem allMadeOf_mergeFactors (made : AllMadeOf catalog tokens raw) : AllMadeOf catalog (mergeFactors tokens) raw := by
  induction made with
  | nil => exact .nil
  | @cons token piece tokens raw made apart later ih =>
    cases token with
    | factor value =>
      unfold mergeFactors
      split
      next next later merged =>
        rw [merged] at ih
        cases ih with
        | cons second solid more =>
          rw [← List.append_assoc]
          exact .cons (made.operands.append second.operands).madeOf solid more
      next => exact .cons made apart ih
    | parameter | operator | logicalOperator | openParen | closeParen | unknown => exact .cons made apart ih

theorem Piece.unnamed (indexed : catalog.Indexed) {value : String}
    (piece : Piece catalog passed remaining taken (.factor value)) (spelled : ∀ word ∈ taken, Spelled word) :
    catalog.findParameter? value = none := by
  generalize same : Token.factor value = token at piece
  cases piece with
  | paren listed =>
    simp only [List.mem_cons, Prod.mk.injEq, List.not_mem_nil, or_false] at listed
    rcases listed with ⟨_, rfl⟩ | ⟨_, rfl⟩ <;> cases same
  | @phrase _ _ phrase => cases phrase <;> cases same
  | name => cases same
  | run nonempty unbroken stop unnamed kept closed =>
    obtain rfl := Token.factor.inj same
    rw [Option.eq_none_iff_forall_ne_some]
    intro parameter found
    obtain ⟨member, place⟩ := indexed.findParameter?_eq_some_iff.mp found
    rcases expressionWords_run unbroken spelled with ⟨whole, _⟩ | ⟨lower, upper, rfl, solid, joined, _⟩
    · have key : PhraseTrie.key (unwords taken) = taken.map lowercase := by
        rw [PhraseTrie.key, unwords_of_solid fun word inside => (spelled word inside).isWord]
      rw [whole, key] at place
      exact indexed.matchParameter?_eq_none.mp unnamed parameter member (place ▸ List.prefix_refl _)
    · have key : PhraseTrie.key (lower ++ "-" ++ upper) = [lowercase (lower ++ "-" ++ upper)] := by
        rw [PhraseTrie.key, words_of_isWord solid, List.map_singleton]
      rw [joined, key] at place
      exact (closed lower upper rfl).names parameter member (place ▸ List.mem_singleton_self _)

theorem text_asParameter {value : String}
    (named : ∀ other, catalog.findParameter? value = some other → other.name = value) :
    (asParameter catalog value).text = value := by
  unfold asParameter
  split
  next other found => exact named other found
  next => rfl

theorem Piece.lasting (indexed : catalog.Indexed) (piece : Piece catalog passed remaining taken token)
    (spelled : ∀ word ∈ taken, Spelled word) : Lasting catalog token where
  factor := by
    rintro value rfl
    apply text_asParameter
    intro other found
    rw [piece.unnamed indexed spelled] at found
    cases found
  parameter := by
    rintro name id rfl
    obtain ⟨parameter, listed, same, _⟩ := (piece.stands indexed).parameter rfl
    have found : catalog.findParameter? parameter.name = some parameter :=
      indexed.findParameter?_eq_some_iff.mpr ⟨listed, rfl⟩
    obtain ⟨rfl, rfl⟩ := Token.parameter.inj same
    rw [asParameter, found]

theorem Reread.lasting (indexed : catalog.Indexed) (reread : Reread catalog passed words shown tokens)
    (spelled : ∀ word ∈ words, Spelled word) : ∀ token ∈ tokens, Lasting catalog token := by
  induction reread with
  | nil => simp
  | listed known found longest steady offered later ih =>
    refine List.forall_mem_cons.mpr ⟨⟨?_, by simp⟩, ih fun word member => spelled word (by simp [member])⟩
    rintro _ ⟨⟩
    exact text_asParameter steady.named
  | kept formless piece later ih =>
    exact List.forall_mem_cons.mpr ⟨piece.lasting indexed fun word member => spelled word (by simp [member]),
      ih fun word member => spelled word (by simp [member])⟩

theorem Reread.listed_of_named (indexed : catalog.Indexed) {value : String}
    (reread : Reread catalog passed words shown (.factor value :: tokens)) (spelled : ∀ word ∈ words, Spelled word)
    {parameter : ParameterDef} (named : catalog.findParameter? value = some parameter) :
    ∃ symbol, ∃ subject : ParameterDef, ∃ earlier, passed = .operator symbol :: subject.token :: earlier := by
  cases reread with
  | listed => exact ⟨_, _, _, rfl⟩
  | kept formless piece later =>
    rw [piece.unnamed indexed fun word member => spelled word (by simp [member])] at named
    cases named

theorem Reread.expressionWords_ne_nil (indexed : catalog.Indexed)
    (reread : Reread catalog passed words shown (token :: tokens)) (spelled : ∀ word ∈ words, Spelled word) :
    expressionWords token.text ≠ [] := by
  cases reread with
  | listed known found longest steady offered later => exact spelling_ne_nil found (mem_forms offered).2
  | kept formless piece later => exact (piece.reread indexed spelled later).nonempty

/-- Showing some tokens as their words leaves it open how those behind them are shown. -/
theorem Reread.behind (reread : Reread catalog passed words shown (piece ++ tokens)) :
    ∃ remaining others, remaining <:+ words ∧ Reread catalog (piece.reverse ++ passed) remaining others tokens ∧
      ∀ others, Reread catalog (piece.reverse ++ passed) remaining others tokens →
        Reread catalog passed words ((piece.flatMap fun token => expressionWords token.text) ++ others)
          (piece ++ tokens) := by
  induction piece generalizing passed words shown with
  | nil => exact ⟨words, shown, List.suffix_refl _, reread, fun _ => id⟩
  | cons token piece ih =>
    rw [List.cons_append] at reread
    have swap : (token :: piece).reverse ++ passed = piece.reverse ++ token :: passed := by simp
    rw [swap]
    cases reread with
    | listed known found longest steady offered later =>
      obtain ⟨remaining, others, ends, rest, rebuild⟩ := ih later
      refine ⟨remaining, others, ends.trans (List.suffix_append _ _), rest, fun others again => ?_⟩
      rw [List.flatMap_cons, List.append_assoc]
      exact .listed known found longest steady (mem_forms offered).2 (rebuild others again)
    | kept formless step later =>
      obtain ⟨remaining, others, ends, rest, rebuild⟩ := ih later
      refine ⟨remaining, others, ends.trans (List.suffix_append _ _), rest, fun others again => ?_⟩
      rw [List.flatMap_cons, List.append_assoc]
      exact .kept formless step (rebuild others again)

/-- Behind a parameter and an operator, a factor that the parameter lists was read as that in one piece, and it may be
shown in another spelling. -/
theorem Reread.respell (indexed : catalog.Indexed) {symbol value : String} {subject : Token} {earlier : List Token}
    (operands : Operands value piece)
    (reread : Reread catalog (.operator symbol :: subject :: earlier) words shown (piece ++ tokens))
    (spelled : ∀ word ∈ words, Spelled word) (canonical : (expressionWords value, value) ∈ forms catalog subject)
    {spelling : List String} (offered : (spelling, value) ∈ forms catalog subject) :
    piece = [.factor value] ∧ ∃ remaining others, remaining <:+ words ∧
      Reread catalog (.factor value :: .operator symbol :: subject :: earlier) remaining others tokens ∧
        ∀ others, Reread catalog (.factor value :: .operator symbol :: subject :: earlier) remaining others tokens →
          Reread catalog (.operator symbol :: subject :: earlier) words (spelling ++ others)
            (.factor value :: tokens) := by
  have made : MadeOf catalog (.factor value) piece := operands.madeOf
  have text : expressionWords value = piece.flatMap fun token => expressionWords token.text :=
    made.expressionWords_text
  have resembles : Resembles catalog (expressionWords value) words := by
    obtain ⟨_, others, _, rest, rebuild⟩ := reread.behind
    exact ⟨_, (rebuild others rest).respelled indexed spelled, text ▸ List.prefix_append _ _⟩
  obtain ⟨first, more, rfl⟩ := List.exists_cons_of_ne_nil operands.nonempty
  rw [List.cons_append] at reread
  have nonempty : expressionWords value ≠ [] := by
    rw [text, List.flatMap_cons]
    exact List.append_ne_nil_of_left_ne_nil (reread.expressionWords_ne_nil indexed spelled) _
  cases reread with
  | @listed _ read _ _ _ taken remaining _ _ known found longest steady held later =>
    have same : value = read := by
      have closest := longest (expressionWords value, value) canonical
      dsimp only at closest
      rcases closest nonempty resembles with same | shorter
      · exact same
      · have whole := fold_unwords ((Token.factor read :: more).map Token.text)
        rw [← operands.text, List.map_cons, List.flatMap_cons, Token.text] at whole
        rw [whole, List.length_append] at shorter
        omega
    subst same
    have alone : more = [] := by
      cases more with
      | nil => rfl
      | cons next more =>
        have length := congrArg String.length operands.text
        rw [List.map_cons, List.map_cons, unwords_cons_cons, String.length_append, String.length_append,
          Token.text] at length
        have blank : " ".length = 1 := rfl
        omega
    subst alone
    refine ⟨rfl, remaining, _, List.suffix_append _ _, later, ?_⟩
    intro others again
    exact .listed known found longest steady offered again
  | kept formless =>
    have absent := formless symbol subject earlier rfl (expressionWords value, value) canonical
    dsimp only at absent
    exact absurd resembles (absent nonempty)

end Criteria.Reading
