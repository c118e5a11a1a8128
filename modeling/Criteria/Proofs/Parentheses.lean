import Criteria.Proofs.SettledReading
/-!
Where the parentheses of a text end up. Reading keeps them all and in order, since it keeps the whole text up to letter
case, and letter case does not touch them. When no text of the catalog has one, every parenthesis becomes a token of
its own: it stands for itself, or it is unknown text because it is illegal where it stands.
-/

namespace Criteria

namespace Text

instance : DecidablePred IsParen := fun c => inferInstanceAs (Decidable (c = '(' ∨ c = ')'))

/-- The parentheses of a text, in order. -/
def parens (text : String) : List Char := text.toList.filter (IsParen ·)

theorem parens_append (left right : String) : parens (left ++ right) = parens left ++ parens right := by
  simp [parens]

theorem parens_eq_nil_iff {text : String} : parens text = [] ↔ Reading.Plain text := by
  simp only [parens, List.filter_eq_nil_iff, decide_eq_true_eq]
  exact forall₂_congr fun c _ => not_or

theorem isBlank_of_isParen {c : Char} (paren : IsParen c) : isBlank c = false := by
  rcases paren with rfl | rfl <;> decide

theorem filter_foldCharacter (c : Char) : (foldCharacter c).filter (IsParen ·) = [c].filter (IsParen ·) := by
  by_cases paren : IsParen c
  · rcases paren with rfl | rfl <;> decide
  · rw [List.filter_cons_of_neg (by simpa using paren), List.filter_nil, List.filter_eq_nil_iff]
    intro folded among inside
    have inside : IsParen folded := by simpa using inside
    obtain ⟨lowered, member, rfl⟩ := List.mem_map.mp among
    have same : plainSigma lowered = lowered := by
      unfold plainSigma at inside ⊢
      split
      next sigma =>
        rw [if_pos sigma] at inside
        exact absurd inside (by decide)
      next => rfl
    rw [same] at inside
    exact paren ((mem_lowerCharacter_of_isParen inside).mp member ▸ inside)

theorem filter_fold (text : String) : (fold text).filter (IsParen ·) = parens text := by
  unfold fold parens
  induction text.toList with
  | nil => rfl
  | cons c cs ih =>
    by_cases blank : isBlank c = true
    · have other : ¬ IsParen c := fun paren => by simp [isBlank_of_isParen paren] at blank
      rw [List.filter_cons_of_neg (by simpa using blank), ih, List.filter_cons_of_neg (by simpa using other)]
    · rw [List.filter_cons_of_pos (by simpa using blank), List.flatMap_cons, List.filter_append, ih,
        filter_foldCharacter, ← List.filter_append]
      rfl

theorem parens_unwords (parts : List String) : parens (unwords parts) = parts.flatMap parens :=
  filter_unwords (by decide) parts

end Text

open Text

/-- The parenthesis that a token is, unknown text being one as well. -/
def Token.paren? : Token → Option Char
  | .openParen | .unknown "(" => some '('
  | .closeParen | .unknown ")" => some ')'
  | _ => none

/-- No name, operator or factor of the catalog has a parenthesis in it. -/
structure Catalog.ParenFree (catalog : Catalog) : Prop where
  names : ∀ parameter ∈ catalog.parameters, Reading.Plain parameter.name
  operators : ∀ symbol ∈ catalog.operators, Reading.Plain symbol
  factors : ∀ parameter ∈ catalog.parameters, ∀ factor ∈ catalog.factorsFor parameter.id,
    Reading.Plain factor.canonical

namespace Reading

variable {catalog : Catalog} {passed : List Token} {word : String} {rest : List String}

theorem filter_foldTokens (tokens : List Token) :
    (foldTokens tokens).filter (IsParen ·) = tokens.flatMap fun token => parens token.text := by
  rw [foldTokens, List.filter_flatMap]
  exact List.flatMap_congr fun token _ => filter_fold token.text

/-- Whatever the catalog, the tokens hold the parentheses of the text they are read from. -/
theorem flatMap_parens_parse (indexed : catalog.Indexed) (text : String) :
    ((parse catalog text).flatMap fun token => parens token.text) = parens text := by
  rw [← filter_foldTokens, foldTokens_parse indexed, filter_fold]

theorem ne_paren_of_mem_untilBoundary {words : List String} (member : word ∈ untilBoundary catalog words) :
    word ≠ "(" ∧ word ≠ ")" := by
  induction words with
  | nil => cases member
  | cons first words ih =>
    unfold untilBoundary at member
    split at member
    next => cases member
    next inside =>
      rcases List.mem_cons.mp member with rfl | later
      · obtain ⟨notOpen, notClose, _⟩ := isBoundary_eq_false.mp (Bool.eq_false_iff.mpr inside)
        exact ⟨notOpen, notClose⟩
      · exact ih later

theorem plain_runTokens {run : String} (plain : Plain run) :
    ∀ token ∈ runTokens catalog passed run, Plain token.text := by
  have whole := filter_foldTokens (runTokens catalog passed run)
  rw [foldTokens_runTokens, filter_fold, parens_eq_nil_iff.mpr plain, eq_comm, List.flatMap_eq_nil_iff] at whole
  exact fun token member => parens_eq_nil_iff.mp (whole token member)

/-- The catalog's own spelling, with no parenthesis in a factor. -/
structure SpellsPlain (catalog : Catalog) (token : Token) : Prop where
  spells : catalog.Spells token
  plain : ∀ value, token = .factor value → Plain value

theorem plain_of_catalogFactor? (parenFree : catalog.ParenFree)
    (earlier : ∀ token ∈ passed, SpellsPlain catalog token) {words : List String} {count : Nat} {value : String}
    (found : catalogFactor? catalog passed words = some (count, value)) : Plain value := by
  obtain ⟨symbol, subject, before, rfl, isParameter, listed, _, _⟩ := catalogFactor?_shape found
  have spells := (earlier subject (by simp)).spells.written
  cases spells with
  | @parameter parameter known =>
    obtain ⟨factor, offered, form⟩ := List.mem_flatMap.mp listed
    have same : value = factor.canonical := by
      simp only [factorForms, List.mem_cons, Prod.mk.injEq, List.not_mem_nil, or_false] at form
      exact form.elim And.right And.right
    exact same ▸ parenFree.factors parameter known factor offered
  | factor | operator | logicalOperator | openParen | closeParen => cases isParameter

theorem spellsPlain_tokensAt (indexed : catalog.Indexed) (parenFree : catalog.ParenFree)
    (earlier : ∀ token ∈ passed, SpellsPlain catalog token) (spelled : ∀ other ∈ word :: rest, Spelled other) :
    ∀ token ∈ (tokensAt catalog passed word rest).1, SpellsPlain catalog token := by
  have spells : ∀ token ∈ (tokensAt catalog passed word rest).1, catalog.Spells token :=
    spells_tokensAt indexed passed (spelled word List.mem_cons_self).isWord
  refine fun token member => ⟨spells token member, ?_⟩
  rintro value rfl
  unfold tokensAt at member
  split at member
  next found =>
    obtain rfl := Token.factor.inj (List.mem_singleton.mp member)
    exact plain_of_catalogFactor? parenFree earlier found
  next =>
    split at member
    · simp at member
    next notOpen =>
      split at member
      · simp at member
      next notClose =>
        split at member
        · simp at member
        · simp [Token.logical] at member
        · dsimp only at member
          split at member
          · simp at member
          · refine plain_runTokens ?_ (.factor value) member
            rw [← parens_eq_nil_iff, parens_unwords, List.flatMap_eq_nil_iff]
            intro other inside
            have apart : other ≠ "(" ∧ other ≠ ")" := by
              rcases List.mem_cons.mp inside with rfl | later
              · exact ⟨notOpen, notClose⟩
              · exact ne_paren_of_mem_untilBoundary later
            have source : other ∈ word :: rest := by
              rcases List.mem_cons.mp inside with rfl | later
              · exact List.mem_cons_self
              · have begins : untilBoundary catalog rest <+: rest := untilBoundary_prefix rest
                exact List.mem_cons_of_mem _ (begins.subset later)
            obtain ⟨text, within⟩ := spelled other source
            rcases paren_or_plain within with rfl | rfl | plain
            · exact absurd rfl apart.1
            · exact absurd rfl apart.2
            · exact parens_eq_nil_iff.mpr plain

/-- A known token which, unless it is a parenthesis, has none in it. -/
structure Clear (token : Token) : Prop where
  known : token.kind ≠ .unknown
  plain : token ≠ .openParen → token ≠ .closeParen → Plain token.text

theorem SpellsPlain.clear (parenFree : catalog.ParenFree) {token : Token} (spells : SpellsPlain catalog token) :
    Clear token where
  known := spells.spells.written.known
  plain := by
    intro notOpen notClose
    cases spells.spells.written with
    | parameter listed => exact parenFree.names _ listed
    | factor value => exact spells.plain value rfl
    | operator listed => exact parenFree.operators _ listed
    | logicalOperator listed =>
      have plain : ∀ symbol ∈ Catalog.logicalOperators, Plain symbol := by decide
      exact plain _ listed
    | openParen => exact absurd rfl notOpen
    | closeParen => exact absurd rfl notClose

theorem Clear.asOperand {token : Token} (clear : Clear token) : Clear (asOperand token) := by
  cases token with
  | parameter name id => exact ⟨by simp [Reading.asOperand, Token.kind], fun _ _ => clear.plain (by simp) (by simp)⟩
  | factor | operator | logicalOperator | openParen | closeParen | unknown => exact clear

theorem Clear.asSubject (indexed : catalog.Indexed) {token : Token} (clear : Clear token) :
    Clear (asSubject catalog token) := by
  have same := congrArg (List.filter (IsParen ·)) (fold_asSubject indexed token)
  rw [filter_fold, filter_fold] at same
  cases token with
  | factor value =>
    have plain : Plain value := clear.plain (by simp) (by simp)
    refine ⟨?_, fun _ _ => parens_eq_nil_iff.mp (same.trans (parens_eq_nil_iff.mpr plain))⟩
    simp only [Reading.asSubject, asParameter]
    split <;> simp [Token.kind]
  | parameter | operator | logicalOperator | openParen | closeParen | unknown => exact clear

theorem clear_repaired (indexed : catalog.Indexed) (parenFree : catalog.ParenFree) (text : String) :
    ∀ token ∈ mergeFactors (reclassify catalog false (scan catalog (expressionWords text))), Clear token := by
  have scanned : ∀ token ∈ scan catalog (expressionWords text), SpellsPlain catalog token :=
    forall_scanFrom 0 (by simp) (fun word member => ⟨text, member⟩) fun _ _ _ => spellsPlain_tokensAt indexed parenFree
  have clear : ∀ token ∈ scan catalog (expressionWords text), Clear token :=
    fun token member => (scanned token member).clear parenFree
  have reclassified := forall_reclassify false clear (fun _ => Clear.asOperand) (fun _ => Clear.asSubject indexed)
    fun _ => id
  refine forall_mergeFactors reclassified fun first second front rear => ?_
  have front : Plain first := front.plain (by simp) (by simp)
  have rear : Plain second := rear.plain (by simp) (by simp)
  refine ⟨by simp [Token.kind], fun _ _ => ?_⟩
  rw [← parens_eq_nil_iff] at front rear ⊢
  rw [Token.text, parens_append, parens_append, front, rear]
  rfl

/-- Behind the last pass a token is clear still, or it is unknown text in the place of a clear token that is illegal
there. -/
theorem clear_or_marked (indexed : catalog.Indexed) (parenFree : catalog.ParenFree) {text : String} {index : Nat}
    {token : Token} (found : (parse catalog text)[index]? = some token) :
    Clear token ∨ ∃ original, Clear original ∧ token = .unknown original.text ∧
      ¬ (Grammar.analyze catalog ((parse catalog text).take index)).legalNext.contains original.kind = true := by
  unfold parse at found ⊢
  rw [← @Grammar.position_nil catalog] at found ⊢
  rw [getElem?_markFrom, Option.map_eq_some_iff] at found
  obtain ⟨original, source, rfl⟩ := found
  have clear := clear_repaired indexed parenFree text original (List.mem_of_getElem? source)
  rcases markedAfter_cases catalog _ original with ⟨same, _⟩ | ⟨same, illegal⟩
  · exact .inl (same.symm ▸ clear)
  · exact .inr ⟨original, clear, same, Bool.eq_false_iff.mp illegal⟩

theorem Clear.parens {token : Token} (clear : Clear token) : parens token.text = token.paren?.toList := by
  by_cases opens : token = .openParen
  · rw [opens]
    decide
  by_cases closes : token = .closeParen
  · rw [closes]
    decide
  rw [parens_eq_nil_iff.mpr (clear.plain opens closes)]
  cases token with
  | unknown => exact absurd rfl clear.known
  | openParen => exact absurd rfl opens
  | closeParen => exact absurd rfl closes
  | parameter | factor | operator | logicalOperator => rfl

theorem Clear.paren?_marked {token : Token} (clear : Clear token) :
    (Token.unknown token.text).paren? = token.paren? := by
  cases token with
  | openParen | closeParen => rfl
  | unknown => exact absurd rfl clear.known
  | parameter | factor | operator | logicalOperator =>
    have plain := clear.plain (by simp) (by simp)
    unfold Token.paren?
    split
    next same => cases same
    next same => exact absurd (Token.unknown.inj same ▸ plain) (by decide)
    next same => cases same
    next same => exact absurd (Token.unknown.inj same ▸ plain) (by decide)
    next => rfl

theorem parens_of_mem_parse (indexed : catalog.Indexed) (parenFree : catalog.ParenFree) {text : String} {token : Token}
    (member : token ∈ parse catalog text) : parens token.text = token.paren?.toList := by
  obtain ⟨index, found⟩ := List.mem_iff_getElem?.mp member
  rcases clear_or_marked indexed parenFree found with clear | ⟨original, clear, rfl, _⟩
  · exact clear.parens
  · rw [clear.paren?_marked]
    exact clear.parens

theorem Clear.eq_of_text_eq {token paren : Token} (clear : Clear token)
    (listed : paren = .openParen ∨ paren = .closeParen) (same : token.text = paren.text) : token = paren := by
  by_cases opens : token = .openParen
  · rcases listed with rfl | rfl
    · exact opens
    · exact absurd (opens ▸ same) (by decide)
  by_cases closes : token = .closeParen
  · rcases listed with rfl | rfl
    · exact absurd (closes ▸ same) (by decide)
    · exact closes
  have plain := clear.plain opens closes
  rw [same] at plain
  rcases listed with rfl | rfl <;> exact absurd plain (by decide)

/-- No parenthesis is swallowed. When the catalog's texts have none, the tokens that are one, or unknown text that is
one, are the parentheses of the text in order, and no other token has one in it. Such an unknown text stands where
the parenthesis would be illegal. -/
theorem filterMap_paren?_parse {parameters : List ParameterDef} {factors : FactorTable} {operators : List String}
    {catalog : Catalog} (built : Catalog.build parameters factors operators = .ok catalog)
    (parenFree : catalog.ParenFree) (text : String) :
    let tokens := parse catalog text
    tokens.filterMap Token.paren? = text.toList.filter (IsParen ·) ∧
    (∀ token ∈ tokens, token.paren? = none → ∀ c ∈ token.text.toList, ¬ IsParen c) ∧
    ∀ index, ∀ paren : Token, paren = .openParen ∨ paren = .closeParen →
      tokens[index]? = some (.unknown paren.text) →
      ¬ (Grammar.analyze catalog (tokens.take index)).legalNext.contains paren.kind = true := by
  intro tokens
  have indexed := Catalog.indexed_of_build built
  have single (token : Token) (member : token ∈ tokens) := parens_of_mem_parse indexed parenFree member
  refine ⟨?_, ?_, ?_⟩
  · rw [List.filterMap_eq_flatMap_toList, ← List.flatMap_congr single]
    exact flatMap_parens_parse indexed text
  · intro token member other c inside paren
    have none : parens token.text = [] := by rw [single token member, other, Option.toList_none]
    have kept : c ∈ parens token.text := List.mem_filter.mpr ⟨inside, by simpa using paren⟩
    rw [none] at kept
    cases kept
  · intro index paren listed found
    rcases clear_or_marked indexed parenFree found with clear | ⟨original, clear, same, illegal⟩
    · exact absurd rfl clear.known
    · rw [clear.eq_of_text_eq listed (Token.unknown.inj same).symm] at illegal
      exact illegal

private def townText : String := "(loan amount(Home City not in list New York)and ((New)York)) )"

/-- Parentheses stick to words and stand among the words of a factor, and three of them are illegal. -/
theorem filterMap_paren?_parse_townText :
    ∃ catalog, Catalog.build [⟨9, "Loan Amount"⟩, ⟨12, "Home City"⟩] (.ofList [(12, [.single "New York"])])
        [">", "Not In List"] = .ok catalog ∧ catalog.ParenFree ∧
      let tokens := parse catalog townText
      tokens =
        [.openParen, .parameter "Loan Amount" (some 9), .openParen, .parameter "Home City" (some 12),
          .operator "Not In List", .factor "New York", .closeParen, .logicalOperator "AND", .openParen, .unknown "(",
          .factor "New", .closeParen, .unknown "York", .closeParen, .unknown ")", .unknown ")"] ∧
      tokens.filterMap Token.paren? = townText.toList.filter (IsParen ·) ∧
      ¬ (Grammar.analyze catalog (tokens.take 9)).legalNext.contains .openParen = true ∧
      ¬ (Grammar.analyze catalog (tokens.take 14)).legalNext.contains .closeParen = true := by
  obtain ⟨catalog, built, names, operators, factors, tokens⟩ : ∃ catalog,
      Catalog.build [⟨9, "Loan Amount"⟩, ⟨12, "Home City"⟩] (.ofList [(12, [.single "New York"])])
        [">", "Not In List"] = .ok catalog ∧
      (∀ parameter ∈ catalog.parameters, Plain parameter.name) ∧ (∀ symbol ∈ catalog.operators, Plain symbol) ∧
      (∀ parameter ∈ catalog.parameters, ∀ factor ∈ catalog.factorsFor parameter.id, Plain factor.canonical) ∧
      parse catalog townText =
        [.openParen, .parameter "Loan Amount" (some 9), .openParen, .parameter "Home City" (some 12),
          .operator "Not In List", .factor "New York", .closeParen, .logicalOperator "AND", .openParen, .unknown "(",
          .factor "New", .closeParen, .unknown "York", .closeParen, .unknown ")", .unknown ")"] :=
    ⟨_, rfl, by decide, by decide, by decide, by decide +kernel⟩
  have parenFree : catalog.ParenFree := ⟨names, operators, factors⟩
  obtain ⟨kept, _, illegal⟩ := filterMap_paren?_parse built parenFree townText
  exact ⟨catalog, built, parenFree, tokens, kept, illegal 9 .openParen (.inl rfl) (by rw [tokens]; rfl),
    illegal 14 .closeParen (.inr rfl) (by rw [tokens]; rfl)⟩

end Reading

end Criteria
