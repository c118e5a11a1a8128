import Criteria.Proofs.RunReading
import Criteria.Proofs.TextFolding
import Criteria.Rendering
import Criteria.Reading.Basic
import Mathlib.Data.List.SplitBy
/-!
Reading a text and displaying the tokens loses nothing and invents nothing: up to white space and letter case the
display is the text. Every pass of reading keeps the folded texts of its tokens, in their order.
-/

namespace Criteria.Reading

open Text

def foldTokens (tokens : List Token) : List Char := tokens.flatMap fun token => fold token.text

theorem foldTokens_append (first rest : List Token) :
    foldTokens (first ++ rest) = foldTokens first ++ foldTokens rest := List.flatMap_append

/-- The letters of the two logical operators. -/
def logicalLetters : List Char := ['a', 'n', 'd', 'o', 'r', 'A', 'N', 'D', 'O', 'R']

private theorem mem_logicalLetters {c lower : Char} (same : c.toLower = lower)
    (letter : lower ∈ ['a', 'n', 'd', 'o', 'r']) : c ∈ logicalLetters := by
  have code (upper : Char) (shifted : lower.toNat = c.toNat + 32) (above : upper.toNat + 32 = lower.toNat) :
      c = upper :=
    Char.toNat_inj.mp (by omega)
  simp only [List.mem_cons, List.not_mem_nil, or_false] at letter
  rcases toLower_cases c with kept | ⟨_, _, shifted⟩
  · obtain rfl := kept.symm.trans same
    rcases letter with rfl | rfl | rfl | rfl | rfl <;> decide
  · rw [same] at shifted
    rcases letter with rfl | rfl | rfl | rfl | rfl
    · rw [code 'A' shifted rfl]; decide
    · rw [code 'N' shifted rfl]; decide
    · rw [code 'D' shifted rfl]; decide
    · rw [code 'O' shifted rfl]; decide
    · rw [code 'R' shifted rfl]; decide

private theorem mem_logicalLetters_of_map {block : List Char} {letters : List Char}
    (same : block.map Char.toLower = letters) (known : letters ⊆ ['a', 'n', 'd', 'o', 'r']) :
    ∀ c ∈ block, c ∈ logicalLetters := by
  intro c inside
  have lowered : c.toLower ∈ letters := same ▸ List.mem_map_of_mem inside
  exact mem_logicalLetters rfl (known lowered)

theorem mem_logicalLetters_of_isLogicalWord {block : List Char} (logical : isLogicalWord block = true) :
    ∀ c ∈ block, c ∈ logicalLetters := by
  simp only [isLogicalWord, Bool.or_eq_true, beq_iff_eq] at logical
  rcases logical with same | same
  · exact mem_logicalLetters_of_map same (by simp)
  · exact mem_logicalLetters_of_map same (by simp)

theorem lowercase_of_isLogicalWord {block : List Char} (logical : isLogicalWord block = true) :
    lowercase (String.ofList block) = "and" ∨ lowercase (String.ofList block) = "or" := by
  have letter : logicalLetters.all (fun c => c != 'Σ' && lowerCharacter c == [c.toLower]) = true := by decide
  have lowered (before rest : List Char) (letters : ∀ c ∈ rest, c ∈ logicalLetters) :
      lowerAfter before rest = rest.map Char.toLower := by
    induction rest generalizing before with
    | nil => rfl
    | cons c rest ih =>
      obtain ⟨here, later⟩ := List.forall_mem_cons.mp letters
      have first := List.all_eq_true.mp letter c here
      simp only [Bool.and_eq_true, bne_iff_ne, beq_iff_eq] at first
      rw [lowerAfter, if_neg first.1, first.2, ih _ later]
      rfl
  rw [lowercase, String.toList_ofList, lowered [] block (mem_logicalLetters_of_isLogicalWord logical)]
  simp only [isLogicalWord, Bool.or_eq_true, beq_iff_eq] at logical
  rcases logical with same | same
  · rw [same]; exact .inl rfl
  · rw [same]; exact .inr rfl

private theorem fold_uppercase_of_letters {block : List Char} (letters : ∀ c ∈ block, c ∈ logicalLetters) :
    fold (uppercase (String.ofList block)) = fold (String.ofList block) := by
  have letters_fold : logicalLetters.all (fun c => ((upperCharacter c).filter (!isBlank ·)).flatMap foldCharacter ==
      ([c].filter (!isBlank ·)).flatMap foldCharacter) = true := by decide
  simp only [fold, toList_uppercase, String.toList_ofList]
  induction block with
  | nil => rfl
  | cons c block ih =>
    have first := beq_iff_eq.mp (List.all_eq_true.mp letters_fold c (letters c List.mem_cons_self))
    have rest := ih fun other inside => letters other (List.mem_cons_of_mem _ inside)
    rw [List.flatMap_cons, List.filter_append, List.flatMap_append, first, rest, ← List.flatMap_append,
      ← List.filter_append]
    rfl

theorem foldTokens_factorPart (part : List Char) : foldTokens (factorPart part) = fold (String.ofList part) := by
  have trimmed : fold (String.ofList (trimBlank part)) = fold (String.ofList part) :=
    fold_eq_of_filter_eq (by simp only [String.toList_ofList, filter_trimBlank])
  simp only [factorPart]
  split
  next empty =>
    rw [← trimmed, List.isEmpty_iff.mp empty]
    rfl
  next => simp only [foldTokens, List.flatMap_singleton, Token.text, fold_normalizeFactor, trimmed]

theorem foldTokens_cutBlocks (pending : List Char) (pieces : List (List Char)) :
    foldTokens (cutBlocks pending pieces) = fold (String.ofList (pending ++ pieces.flatten)) := by
  induction pieces generalizing pending with
  | nil => simpa [cutBlocks] using foldTokens_factorPart pending
  | cons block pieces ih =>
    unfold cutBlocks
    split
    next logical =>
      have raised := fold_uppercase_of_letters (mem_logicalLetters_of_isLogicalWord logical)
      have cut : foldTokens (.logical (String.ofList block) :: cutBlocks [] pieces) =
          fold (String.ofList block) ++ fold (String.ofList pieces.flatten) := by
        rw [← raised, ← List.nil_append pieces.flatten, ← ih []]
        rfl
      rw [foldTokens_append, foldTokens_factorPart, cut, List.flatten_cons, String.ofList_append, String.ofList_append,
        fold_append, fold_append]
    next => rw [ih, List.append_assoc, List.flatten_cons]

theorem foldTokens_cutRun (run : String) : foldTokens (cutRun run) = fold run := by
  rw [cutRun, foldTokens_cutBlocks, List.nil_append, blocks, List.flatten_splitBy, String.ofList_toList]

variable {catalog : Catalog}

theorem foldTokens_runTokens (passed : List Token) (run : String) :
    foldTokens (runTokens catalog passed run) = fold run := by
  simp only [runTokens]
  split
  · simp only [foldTokens, List.flatMap_singleton, Token.text, fold_normalizeFactor]
  · exact foldTokens_cutRun run

/-- The range spelled with spaces and the one without differ in white space only. -/
theorem filter_spaced (factor : FactorDef) :
    factor.spaced.toList.filter (!isBlank ·) = factor.canonical.toList.filter (!isBlank ·) := by
  unfold FactorDef.spaced FactorDef.canonical
  split
  next =>
    have hyphens : " - ".toList.filter (!isBlank ·) = "-".toList.filter (!isBlank ·) := by decide
    simp only [String.toList_append, List.filter_append, hyphens]
  next => rfl

theorem fold_spaced (factor : FactorDef) : fold factor.spaced = fold factor.canonical :=
  fold_eq_of_filter_eq (filter_spaced factor)

/-- A form has the characters of its factor that are not white space. -/
theorem flatMap_toList_of_mem_forms {taken : List String} {value : String} {subject : Token}
    (member : (taken, value) ∈ forms catalog subject) :
    taken.flatMap String.toList = value.toList.filter (!isBlank ·) := by
  obtain ⟨factor, _, spelled⟩ := List.mem_flatMap.mp member
  simp only [factorForms, List.mem_cons, Prod.mk.injEq, List.not_mem_nil, or_false] at spelled
  rcases spelled with ⟨shown, canonical⟩ | ⟨shown, canonical⟩
  · rw [shown, canonical, flatMap_toList_expressionWords]
  · rw [shown, canonical, flatMap_toList_expressionWords, filter_spaced]

/-- A factor taken whole accounts for the words it takes. -/
theorem catalogFactor?_spec {passed : List Token} {words : List String} {count : Nat} {value : String}
    (found : catalogFactor? catalog passed words = some (count, value)) :
    0 < count ∧ count ≤ words.length ∧ fold value = (words.take count).flatMap fold := by
  unfold catalogFactor? at found
  split at found
  next subject _ =>
    split at found
    next =>
      obtain ⟨form, longest, pair⟩ := Option.map_eq_some_iff.mp found
      obtain ⟨rfl, rfl⟩ := Prod.mk.inj pair
      obtain ⟨member, fits⟩ := List.mem_filter.mp (longestForm_mem longest)
      simp only [Bool.and_eq_true, Bool.not_eq_true', List.isEmpty_eq_false_iff, List.isPrefixOf_iff_prefix] at fits
      obtain ⟨factor, _, spelled⟩ := List.mem_flatMap.mp member
      refine ⟨List.length_pos_iff.mpr fits.1, fits.2.length_le, ?_⟩
      rw [← List.prefix_iff_eq_take.mp fits.2]
      simp only [factorForms, List.mem_cons, List.not_mem_nil, or_false] at spelled
      rcases spelled with rfl | rfl
      · rw [flatMap_fold_expressionWords]
      · rw [flatMap_fold_expressionWords, fold_spaced]
    next => cases found
  next => cases found

/-- The text of a phrase or a name folds as the words that were matched with it. -/
theorem fold_of_longestMatch {α : Type} {trie : PhraseTrie α} {text : α → String} {members : List α}
    (keyed : trie.Keyed text members) {words : List String} (solid : ∀ word ∈ words, IsWord word) {count : Nat}
    {value : α} (matched : trie.longestMatch words = some (count, value)) :
    0 < count ∧ count ≤ words.length ∧ fold (text value) = (words.take count).flatMap fold := by
  obtain ⟨_, positive, within, place⟩ := keyed.of_longestMatch matched
  refine ⟨positive, within, ?_⟩
  rw [← flatMap_fold_words (text value)]
  exact flatMap_fold_eq_of_lowercase_eq (fun _ member => isWord_of_mem_words member)
    (fun _ member => solid _ (List.mem_of_mem_take member)) place.symm

theorem fold_of_matchParameter? (indexed : catalog.Indexed) {words : List String} (solid : ∀ word ∈ words, IsWord word)
    {count : Nat} {parameter : ParameterDef} (matched : catalog.matchParameter? words = some (count, parameter)) :
    0 < count ∧ count ≤ words.length ∧ fold parameter.name = (words.take count).flatMap fold := by
  obtain ⟨index, held, rfl⟩ := Catalog.matchParameter?_eq_some.mp matched
  exact fold_of_longestMatch indexed.parameters.names solid held

theorem untilBoundary_prefix (words : List String) : untilBoundary catalog words <+: words := by
  induction words with
  | nil => exact List.prefix_refl _
  | cons word rest ih =>
    unfold untilBoundary
    split
    · exact List.nil_prefix
    · exact List.cons_prefix_cons.mpr ⟨rfl, ih⟩

/-- The text of a phrase's token is the phrase, logical operators being written in capitals already. -/
private theorem fold_logical {symbol : String} (member : symbol ∈ Catalog.logicalOperators) :
    fold (Token.logical symbol).text = fold symbol := by
  simp only [Catalog.logicalOperators, List.mem_cons, List.not_mem_nil, or_false] at member
  rcases member with rfl | rfl <;> decide

/-- The tokens read at a word account for the words that they take. -/
theorem tokensAt_spec (indexed : catalog.Indexed) (passed : List Token) {word : String} {rest : List String}
    (solid : ∀ other ∈ word :: rest, IsWord other) :
    0 < (tokensAt catalog passed word rest).2 ∧
      foldTokens (tokensAt catalog passed word rest).1 =
        ((word :: rest).take (tokensAt catalog passed word rest).2).flatMap fold := by
  unfold tokensAt
  split
  next count value found =>
    obtain ⟨positive, _, same⟩ := catalogFactor?_spec found
    exact ⟨positive, by simpa [foldTokens, Token.text] using same⟩
  next =>
    split
    next paren => subst paren; exact ⟨Nat.one_pos, rfl⟩
    next =>
      split
      next paren => subst paren; exact ⟨Nat.one_pos, rfl⟩
      next =>
        split
        next count symbol matched =>
          obtain ⟨positive, _, same⟩ := fold_of_longestMatch indexed.phrases solid matched
          exact ⟨positive, by simpa [foldTokens, Token.text, Phrase.text] using same⟩
        next count symbol matched =>
          obtain ⟨positive, _, same⟩ := fold_of_longestMatch indexed.phrases solid matched
          have listed : symbol ∈ Catalog.logicalOperators := by
            have member := (indexed.phrases.of_longestMatch matched).1
            simpa [Catalog.phraseList] using member
          refine ⟨positive, ?_⟩
          rw [← same, foldTokens, List.flatMap_singleton, fold_logical listed]
          rfl
        next =>
          have begins : word :: untilBoundary catalog rest <+: word :: rest :=
            List.cons_prefix_cons.mpr ⟨rfl, untilBoundary_prefix rest⟩
          dsimp only
          split
          next count parameter matched =>
            obtain ⟨positive, within, same⟩ := fold_of_matchParameter? indexed
              (fun other member => solid other (begins.subset member)) matched
            refine ⟨positive, ?_⟩
            rw [foldTokens, List.flatMap_singleton]
            refine same.trans ?_
            rw [List.prefix_iff_eq_take.mp begins, List.take_take, Nat.min_eq_left within]
          next =>
            refine ⟨by simp, ?_⟩
            rw [foldTokens_runTokens, fold_unwords, ← List.prefix_iff_eq_take.mp begins]

theorem foldTokens_scanFrom (indexed : catalog.Indexed) (passed : List Token) (taken : Nat) {words : List String}
    (solid : ∀ word ∈ words, IsWord word) :
    foldTokens (scanFrom catalog passed taken words) =
      foldTokens passed.reverse ++ (words.drop taken).flatMap fold := by
  induction words generalizing passed taken with
  | nil => simp [scanFrom]
  | cons word rest ih =>
    have later : ∀ other ∈ rest, IsWord other := fun other member => solid other (List.mem_cons_of_mem _ member)
    cases taken with
    | succ taken => simpa [scanFrom] using ih passed taken later
    | zero =>
      obtain ⟨positive, same⟩ := tokensAt_spec indexed passed solid
      unfold scanFrom
      dsimp only
      rw [ih _ _ later, List.reverse_append, List.reverse_reverse, foldTokens_append, same, List.append_assoc,
        ← List.flatMap_append, List.drop_zero]
      obtain ⟨count, next⟩ := Nat.exists_eq_add_one.mpr positive
      rw [next, List.take_succ_cons, Nat.add_sub_cancel, List.cons_append, List.take_append_drop]

theorem fold_asSubject (indexed : catalog.Indexed) (token : Token) :
    fold (asSubject catalog token).text = fold token.text := by
  cases token with
  | factor value =>
    simp only [asSubject, asParameter]
    split
    next parameter found =>
      obtain ⟨_, same⟩ := indexed.findParameter?_eq_some_iff.mp found
      show fold parameter.name = fold value
      rw [← flatMap_fold_words, ← flatMap_fold_words value]
      exact flatMap_fold_eq_of_lowercase_eq (fun _ member => isWord_of_mem_words member)
        (fun _ member => isWord_of_mem_words member) same
    next => rfl
  | parameter | operator | logicalOperator | openParen | closeParen | unknown => rfl

theorem foldTokens_reclassify (indexed : catalog.Indexed) (afterOperator : Bool) (tokens : List Token) :
    foldTokens (reclassify catalog afterOperator tokens) = foldTokens tokens := by
  induction tokens generalizing afterOperator with
  | nil => rfl
  | cons token rest ih =>
    have operand : fold (if afterOperator then asOperand token else token).text = fold token.text := by
      split
      · cases token <;> rfl
      · rfl
    simp only [reclassify, foldTokens, List.flatMap_cons]
    refine congrArg₂ (· ++ ·) ?_ (ih _)
    split
    · exact (fold_asSubject indexed _).trans operand
    · exact operand

theorem foldTokens_mergeFactors (tokens : List Token) : foldTokens (mergeFactors tokens) = foldTokens tokens := by
  induction tokens with
  | nil => rfl
  | cons token rest ih =>
    cases token with
    | factor value =>
      unfold mergeFactors
      split
      next next later merged =>
        have space : fold " " = [] := by decide
        rw [merged] at ih
        simp only [foldTokens, List.flatMap_cons, Token.text, fold_append, space, List.append_nil] at ih ⊢
        rw [List.append_assoc, ih]
      next => exact congrArg (fold value ++ ·) ih
    | parameter | operator | logicalOperator | openParen | closeParen | unknown => exact congrArg (_ ++ ·) ih

theorem foldTokens_markFrom (position : GrammarPosition) (tokens : List Token) :
    foldTokens (markFrom catalog position tokens) = foldTokens tokens := by
  induction tokens generalizing position with
  | nil => rfl
  | cons token rest ih =>
    simp only [markFrom, foldTokens, List.flatMap_cons]
    refine congrArg₂ (· ++ ·) ?_ (ih _)
    split <;> rfl

theorem foldTokens_parse (indexed : catalog.Indexed) (text : String) :
    foldTokens (parse catalog text) = fold text := by
  have solid : ∀ word ∈ expressionWords text, IsWord word := fun _ member => isWord_of_mem_expressionWords member
  have scanned := foldTokens_scanFrom indexed [] 0 solid
  rw [List.drop_zero, flatMap_fold_expressionWords] at scanned
  rw [parse, foldTokens_markFrom, foldTokens_mergeFactors, foldTokens_reclassify indexed, scan, scanned]
  rfl

theorem fold_displayPart (spaced : Bool) (governing : Option Token) (token : Token) :
    fold (Rendering.displayPart catalog spaced governing token) = fold token.text := by
  cases token with
  | factor value =>
    rcases Rendering.displayPart_factor catalog spaced governing value with
      asItself | ⟨_, _, factor, _, _, rfl, asRange⟩
    · rw [asItself]
      rfl
    · rw [asRange]
      exact fold_spaced factor
  | parameter | operator | logicalOperator | openParen | closeParen | unknown => rfl

theorem fold_display (spaced : Bool) (tokens : List Token) :
    fold (Rendering.display catalog spaced tokens) = foldTokens tokens := by
  have parts (governing : Option Token) :
      (Rendering.displayParts catalog spaced governing tokens).flatMap fold = foldTokens tokens := by
    induction tokens generalizing governing with
    | nil => rfl
    | cons token rest ih =>
      rw [Rendering.displayParts, List.flatMap_cons, fold_displayPart, ih]
      rfl
  rw [Rendering.display, fold_unwords, parts]

/-- The display of what was read is the text itself, up to white space and letter case. -/
theorem fold_display_parse {parameters : List ParameterDef} {factors : FactorTable} {operators : List String}
    {catalog : Catalog} (built : Catalog.build parameters factors operators = .ok catalog) (spaced : Bool)
    (text : String) : fold (Rendering.display catalog spaced (parse catalog text)) = fold text := by
  rw [fold_display, foldTokens_parse (Catalog.indexed_of_build built)]

/-- Names, phrases and a range in other spellings, and a parenthesis too many. -/
theorem fold_display_parse_respelled :
    ∃ catalog, Catalog.build [⟨9, "Loan  Amount"⟩] (.ofList [(9, [.range "20" "30"])]) [">", "Not  In List"] =
        .ok catalog ∧
      fold (Rendering.display catalog true (parse catalog "( loan amount NOT in list 20-30 and (x) ) )")) =
        fold "( loan amount NOT in list 20-30 and (x) ) )" := by
  obtain ⟨catalog, built⟩ : ∃ catalog, Catalog.build [⟨9, "Loan  Amount"⟩] (.ofList [(9, [.range "20" "30"])])
      [">", "Not  In List"] = .ok catalog := ⟨_, rfl⟩
  exact ⟨catalog, built, fold_display_parse built true _⟩

end Criteria.Reading
