import Criteria.Proofs.DisplayedTokens
/-!
Reading a whole display. It is read token by token, each in front of the display of the others, and repairing the first
reading gives the tokens back. A factor may come back with another text; how a single one is read is left open here.
-/

namespace Criteria

/-- The token, a factor with another text. -/
def Token.respell (spell : String → String) : Token → Token
  | .factor value => .factor (spell value)
  | token => token

theorem Token.respell_id : Token.respell id = id := by
  funext token
  cases token <;> rfl

@[simp] theorem Token.kind_respell (spell : String → String) (token : Token) :
    (token.respell spell).kind = token.kind := by
  cases token <;> rfl

theorem Catalog.Writes.respell {catalog : Catalog} {token : Token} (written : catalog.Writes token)
    (spell : String → String) : catalog.Writes (token.respell spell) := by
  cases written with
  | parameter listed => exact .parameter listed
  | factor value => exact .factor _
  | operator listed => exact .operator listed
  | logicalOperator listed => exact .logicalOperator listed
  | openParen => exact .openParen
  | closeParen => exact .closeParen

namespace Grammar

variable {catalog : Catalog} (spell : String → String)

theorem parenDepth_respell (tokens : List Token) :
    parenDepth (tokens.map (Token.respell spell)) = parenDepth tokens := by
  rw [parenDepth, List.foldl_map, parenDepth]
  congr 1
  funext depth token
  cases token <;> rfl

/-- The grammar does not look into the text of a factor. -/
theorem position_respell (tokens : List Token) :
    position catalog (tokens.map (Token.respell spell)) = position catalog tokens := by
  have free (token : Token) : isFreeText catalog (token.respell spell) = isFreeText catalog token := by
    cases token <;> rfl
  simp only [position, GrammarState.ofTail, parenDepth_respell, List.getLast?_map]
  cases tokens.getLast? with
  | none => rfl
  | some token => simp [free]

theorem LegalAfter.respell {passed tokens : List Token} (legal : LegalAfter catalog passed tokens) :
    LegalAfter catalog (passed.map (Token.respell spell)) (tokens.map (Token.respell spell)) := by
  induction legal with
  | nil => exact .nil
  | @cons passed token rest first _ ih =>
    refine .cons ?_ ?_
    · rw [Token.kind_respell, position_respell]
      exact first
    · rwa [List.map_append] at ih

end Grammar

namespace Reading

open Text Grammar

variable {catalog : Catalog} {spaced : Bool}

/-- The words of a display. -/
def shown (catalog : Catalog) (spaced : Bool) (governing : Option Token) (tokens : List Token) : List String :=
  (Rendering.displayParts catalog spaced governing tokens).flatMap expressionWords

theorem expressionWords_display (tokens : List Token) :
    expressionWords (Rendering.display catalog spaced tokens) = shown catalog spaced none tokens :=
  expressionWords_unwords _

theorem governing?_concat (before : List Token) (token : Token) :
    governing? (before ++ [token]) = if token.isParameter then some token else governing? before := by
  rw [governing?, List.reverse_append, List.reverse_singleton, List.singleton_append, List.find?_cons]
  cases token.isParameter <;> rfl

theorem shown_cons (governing : Option Token) (token : Token) (rest : List Token) :
    shown catalog spaced governing (token :: rest) =
      expressionWords (Rendering.displayPart catalog spaced governing token) ++
        shown catalog spaced (if token.isParameter then some token else governing) rest := by
  rw [shown, Rendering.displayParts, List.flatMap_cons, shown]

theorem expressionWords_openParen (governing : Option Token) :
    expressionWords (Rendering.displayPart catalog spaced governing .openParen) = ["("] := by
  have words : expressionWords "(" = ["("] := by decide
  rw [Rendering.displayPart, Token.text, words]
  simp

theorem expressionWords_closeParen (governing : Option Token) :
    expressionWords (Rendering.displayPart catalog spaced governing .closeParen) = [")"] := by
  have words : expressionWords ")" = [")"] := by decide
  rw [Rendering.displayPart, Token.text, words]
  simp

section Boundaries

variable {governing : Option Token} {phrase : Phrase} {rest : List Token}

theorem expressionWords_phrase (separate : catalog.Separate) (member : phrase ∈ catalog.phraseList) :
    expressionWords (Rendering.displayPart catalog spaced governing phrase.token) = words phrase.text := by
  have part : Rendering.displayPart catalog spaced governing phrase.token = phrase.token.text := by cases phrase <;> rfl
  rw [part, Catalog.text_token member]
  exact expressionWords_of_plain (plain_phrase separate member)

theorem isBoundary_shown_phrase (indexed : catalog.Indexed) (separate : catalog.Separate)
    (member : phrase ∈ catalog.phraseList) :
    isBoundary catalog (shown catalog spaced governing (phrase.token :: rest)) = true := by
  rw [shown_cons, expressionWords_phrase separate member]
  exact isBoundary_of_match (Option.isSome_of_eq_some (matchPhrase?_words indexed separate member _))

theorem isBoundary_after_parameter (indexed : catalog.Indexed) (separate : catalog.Separate) {before : List Token}
    {name : String} {id : Option ParameterId} (legal : LegalAfter catalog (before ++ [.parameter name id]) rest)
    (written : ∀ token ∈ rest, catalog.Writes token) :
    isBoundary catalog (shown catalog spaced governing rest) = true := by
  cases rest with
  | nil => rfl
  | cons token later =>
    have here := written token List.mem_cons_self
    have next := legal.next_of_parameter here.known
    cases here with
    | @operator symbol listed =>
      have member : Phrase.operator symbol ∈ catalog.phraseList := Catalog.operator_mem_phraseList.mpr listed
      have boundary := @isBoundary_shown_phrase catalog spaced governing _ later indexed separate member
      rwa [Phrase.token] at boundary
    | openParen =>
      rw [shown_cons, expressionWords_openParen]
      simp [isBoundary]
    | parameter | factor | logicalOperator | closeParen => simp [Token.kind] at next

theorem endsFactor_cons {next : String} (known : next ∈ factorEnds) (remaining : List String) :
    EndsFactor ([next] ++ remaining) := by
  intro word later same
  exact (List.cons.inj same).1 ▸ known

theorem endsFactor_shown {before : List Token} {value : String} (separate : catalog.Separate)
    (legal : LegalAfter catalog (before ++ [.factor value]) rest) (written : ∀ token ∈ rest, catalog.Writes token) :
    EndsFactor (shown catalog spaced governing rest) := by
  cases rest with
  | nil =>
    intro next later same
    cases same
  | cons token later =>
    have here := written token List.mem_cons_self
    have next := legal.next_of_factor here.known
    cases here with
    | @logicalOperator symbol listed =>
      have single : ∀ symbol ∈ Catalog.logicalOperators, words symbol = [symbol] ∧ symbol ∈ factorEnds := by decide
      have member : Phrase.logical symbol ∈ catalog.phraseList := Catalog.logical_mem_phraseList.mpr listed
      have spoken := @expressionWords_phrase _ spaced governing _ separate member
      rw [Phrase.token, Catalog.writes_logical listed, Phrase.text, (single symbol listed).1] at spoken
      rw [shown_cons, spoken]
      exact endsFactor_cons (single symbol listed).2 _
    | closeParen =>
      rw [shown_cons, expressionWords_closeParen]
      exact endsFactor_cons (by decide) _
    | parameter | factor | operator | openParen => simp [Token.kind] at next

end Boundaries

/-- What reading on after `before` needs of the tokens read so far, the last one first: they end in the same subject
and operator, and in no other operator. -/
structure Aligned (catalog : Catalog) (before passed : List Token) : Prop where
  placed : GrammarState.ofTail before ≠ .afterUnknown
  apart : GrammarState.ofTail before ≠ .afterOperator → ∀ symbol earlier, passed ≠ .operator symbol :: earlier
  subject : GrammarState.ofTail before = .afterParameter →
    ∃ parameter ∈ catalog.parameters, ∃ earlier,
      passed = parameter.token :: earlier ∧ governing? before = some parameter.token
  operand : GrammarState.ofTail before = .afterOperator →
    ∃ symbol, ∃ parameter ∈ catalog.parameters, ∃ earlier,
      passed = .operator symbol :: parameter.token :: earlier ∧ governing? before = some parameter.token

theorem aligned_nil (catalog : Catalog) : Aligned catalog [] [] where
  placed := by simp [GrammarState.ofTail]
  apart := fun _ symbol earlier same => by cases same
  subject := fun state => by cases state
  operand := fun state => by cases state

variable {before passed rest piece : List Token} {token : Token} {spell : String → String}

theorem Aligned.concat (aligned : Aligned catalog before passed) (legal : LegalAfter catalog before (token :: rest))
    (written : catalog.Writes token) (read : ReadAs (token.respell spell) piece) :
    Aligned catalog (before ++ [token]) (piece.reverse ++ passed) where
  placed := ofTail_concat_ne_afterUnknown before written.known
  apart := by
    intro state symbol earlier same
    rw [ofTail_concat, ← Token.kind_respell spell] at state
    generalize token.respell spell = token at read state
    cases read with
    | itself =>
      obtain ⟨rfl, _⟩ := List.cons.inj same
      exact state rfl
    | named | begun => cases same
  subject := by
    intro state
    rw [ofTail_concat] at state
    cases written with
    | @parameter parameter listed =>
      simp only [Token.respell] at read
      cases read with
      | itself =>
        refine ⟨parameter, listed, passed, rfl, ?_⟩
        rw [governing?_concat]
        rfl
    | factor | operator | logicalOperator | openParen | closeParen => cases state
  operand := by
    intro state
    rw [ofTail_concat] at state
    cases written with
    | @operator symbol listed =>
      obtain ⟨parameter, known, earlier, same, governs⟩ := aligned.subject (legal.state_of_operator aligned.placed)
      simp only [Token.respell] at read
      cases read with
      | itself =>
        refine ⟨symbol, parameter, known, earlier, by rw [same]; rfl, ?_⟩
        rw [governing?_concat]
        exact governs
    | factor | parameter | logicalOperator | openParen | closeParen => cases state

/-- Behind the subject and an operator, the display of a factor is read as a factor with this text, whatever may stand
behind it. -/
def ReadsBack (catalog : Catalog) (spaced : Bool) (subject : Token) (value text : String) : Prop :=
  ∀ symbol earlier remaining, EndsFactor remaining →
    ∃ piece, ReadAs (.factor text) piece ∧
      scanFrom catalog (.operator symbol :: subject :: earlier) 0
        (expressionWords (Rendering.displayPart catalog spaced (some subject) (.factor value)) ++ remaining) =
      scanFrom catalog (piece.reverse ++ .operator symbol :: subject :: earlier) 0 remaining

/-- Whatever token comes next, it is read and nothing behind it is. -/
theorem scan_token (indexed : catalog.Indexed) (separate : catalog.Separate) (governing : Option Token)
    (aligned : Aligned catalog before passed) (legal : LegalAfter catalog before (token :: rest))
    (here : catalog.Writes token) (written : ∀ other ∈ rest, catalog.Writes other)
    (reads : ∀ value, ∀ parameter ∈ catalog.parameters, token = .factor value →
      governing? before = some parameter.token → ReadsBack catalog spaced parameter.token value (spell value)) :
    ∃ piece, ReadAs (token.respell spell) piece ∧
      scanFrom catalog passed 0
        (expressionWords (Rendering.displayPart catalog spaced (governing? before) token) ++
          shown catalog spaced governing rest) =
      scanFrom catalog (piece.reverse ++ passed) 0 (shown catalog spaced governing rest) := by
  have later := (legalAfter_cons.mp legal).2
  have apart (notFactor : token.kind ≠ .factor) :=
    aligned.apart (legal.state_ne_afterOperator here.known notFactor)
  cases here with
  | factor value =>
    obtain ⟨symbol, parameter, known, earlier, rfl, governs⟩ := aligned.operand (legal.state_of_factor aligned.placed)
    rw [governs]
    have ends : EndsFactor (shown catalog spaced governing rest) := endsFactor_shown separate later written
    exact reads value parameter known rfl governs symbol earlier _ ends
  | @parameter parameter listed =>
    have part : Rendering.displayPart catalog spaced (governing? before)
        (.parameter parameter.name (some parameter.id)) = parameter.name := rfl
    rw [part, expressionWords_of_plain (separate.plainNames parameter listed)]
    exact ⟨_, .itself _, scan_name indexed separate listed (apart (by simp [Token.kind]))
      (isBoundary_after_parameter indexed separate later written)⟩
  | @operator symbol listed =>
    have member : Phrase.operator symbol ∈ catalog.phraseList := Catalog.operator_mem_phraseList.mpr listed
    have spoken := @expressionWords_phrase catalog spaced (governing? before) _ separate member
    rw [Phrase.token] at spoken
    rw [spoken]
    exact ⟨_, .itself _, scan_phrase indexed separate member (apart (by simp [Token.kind])) _⟩
  | @logicalOperator symbol listed =>
    have member : Phrase.logical symbol ∈ catalog.phraseList := Catalog.logical_mem_phraseList.mpr listed
    have spoken := @expressionWords_phrase catalog spaced (governing? before) _ separate member
    have scanned := scan_phrase indexed separate member (apart (by simp [Token.kind]))
      (shown catalog spaced governing rest)
    rw [Phrase.token, Catalog.writes_logical listed] at spoken scanned
    rw [spoken]
    exact ⟨_, .itself _, scanned⟩
  | openParen =>
    rw [expressionWords_openParen]
    exact ⟨_, .itself _, scan_openParen (apart (by simp [Token.kind])) _⟩
  | closeParen =>
    rw [expressionWords_closeParen]
    exact ⟨_, .itself _, scan_closeParen (apart (by simp [Token.kind])) _⟩

/-- The first reading of a display shows every token of it, one after another. -/
theorem scanFrom_shown (indexed : catalog.Indexed) (separate : catalog.Separate) {after : List Token}
    (legal : LegalAfter catalog before after) (aligned : Aligned catalog before passed)
    (written : ∀ token ∈ after, catalog.Writes token)
    (reads : ∀ first value rest, ∀ parameter ∈ catalog.parameters, after = first ++ .factor value :: rest →
      governing? (before ++ first) = some parameter.token →
        ReadsBack catalog spaced parameter.token value (spell value)) :
    ∃ raw, AllReadAs (after.map (Token.respell spell)) raw ∧
      scanFrom catalog passed 0 (shown catalog spaced (governing? before) after) = passed.reverse ++ raw := by
  induction legal generalizing passed with
  | nil => exact ⟨[], .nil, by simp [shown, Rendering.displayParts, scanFrom]⟩
  | @cons before token rest first later ih =>
    have here := written token List.mem_cons_self
    have others : ∀ other ∈ rest, catalog.Writes other :=
      fun other member => written other (List.mem_cons_of_mem _ member)
    have legal : LegalAfter catalog before (token :: rest) := .cons first later
    have readsHere : ∀ value, ∀ parameter ∈ catalog.parameters, token = .factor value →
        governing? before = some parameter.token →
          ReadsBack catalog spaced parameter.token value (spell value) := by
      intro value parameter known same governs
      apply reads [] value rest parameter known
      · rw [same, List.nil_append]
      · rwa [List.append_nil]
    obtain ⟨piece, read, scanned⟩ := scan_token indexed separate (governing? (before ++ [token])) aligned legal here
      others readsHere
    have readsLater : ∀ first value last, ∀ parameter ∈ catalog.parameters, rest = first ++ .factor value :: last →
        governing? (before ++ [token] ++ first) = some parameter.token →
          ReadsBack catalog spaced parameter.token value (spell value) := by
      intro first value last parameter known same governs
      apply reads (token :: first) value last parameter known
      · rw [same, List.cons_append]
      · rwa [List.append_cons]
    obtain ⟨raw, allRead, shownRest⟩ := ih (aligned.concat legal here read) others readsLater
    refine ⟨piece ++ raw, .cons read allRead, ?_⟩
    rw [shown_cons, ← governing?_concat, scanned, shownRest, List.reverse_append, List.reverse_reverse,
      List.append_assoc]

/-- A display is read as its tokens, each factor with the text that it is read back with. -/
theorem parse_display_respelled (indexed : catalog.Indexed) (separate : catalog.Separate) {tokens : List Token}
    (legal : Legal catalog tokens) (written : ∀ token ∈ tokens, catalog.Writes token)
    (reads : ∀ before value after, ∀ parameter ∈ catalog.parameters, tokens = before ++ .factor value :: after →
      governing? before = some parameter.token → ReadsBack catalog spaced parameter.token value (spell value)) :
    parse catalog (Rendering.display catalog spaced tokens) = tokens.map (Token.respell spell) := by
  obtain ⟨raw, read, scanned⟩ := @scanFrom_shown catalog spaced [] [] spell indexed separate tokens legal
    (aligned_nil catalog) written reads
  have scanned : scanFrom catalog [] 0 (shown catalog spaced none tokens) = raw := scanned
  have respelled : Legal catalog (tokens.map (Token.respell spell)) := LegalAfter.respell spell legal
  have known : ∀ token ∈ tokens.map (Token.respell spell), token.kind ≠ .unknown := by
    intro token member
    obtain ⟨original, inside, rfl⟩ := List.mem_map.mp member
    exact ((written original inside).respell spell).known
  have repaired : mergeFactors (reclassify catalog false raw) = tokens.map (Token.respell spell) :=
    mergeFactors_reclassify read respelled (aligned_nil catalog).placed known
  have marked : markFrom catalog .start (tokens.map (Token.respell spell)) = tokens.map (Token.respell spell) :=
    markFrom_of_legalAfter respelled
  unfold parse
  rw [expressionWords_display, scan, scanned, repaired, marked]

end Reading

end Criteria
