import Criteria.Proofs.DisplayedTokens
import Criteria.Proofs.ReadingSteps
import Criteria.Proofs.TextConservation
import Criteria.Proofs.TokenPasses
import Criteria.Proofs.TypedRanges
/-!
Listed factors in other letter case. Behind a parameter and an operator a listed factor is taken whole before anything
else is looked for, but only as the catalog spells it. Letter case is ignored later, when the text is cut already at
parentheses, phrases and names. So in another spelling a factor stays whole just when it is read as one run or as a name
with a run behind it.
-/

namespace Criteria

open Text

namespace Text

theorem isBlank_of_visible {c : Char} (visible : 65 ≤ c.toNat ∧ c.toNat ≤ 122) : isBlank c = false := by
  simp only [isBlank, Bool.or_eq_false_iff, Bool.and_eq_false_iff, decide_eq_false_iff_not, beq_eq_false_iff_ne]
  omega

theorem eq_or_solid_of_toLower_eq {c d : Char} (same : c.toLower = d.toLower) :
    c = d ∨ isBlank c = false ∧ isBlank d = false := by
  have codes := congrArg Char.toNat same
  rcases toLower_cases c with first | ⟨least, most, shifted⟩ <;>
    rcases toLower_cases d with second | ⟨least', most', shifted'⟩
  · exact .inl (first.symm.trans (same.trans second))
  · rw [first] at codes
    exact .inr ⟨isBlank_of_visible (by omega), isBlank_of_visible (by omega)⟩
  · rw [second] at codes
    exact .inr ⟨isBlank_of_visible (by omega), isBlank_of_visible (by omega)⟩
  · exact .inl (Char.toNat_inj.mp (by omega))

theorem filter_of_map_toLower_eq {left right : List Char} (same : left.map Char.toLower = right.map Char.toLower) :
    (left.filter (!isBlank ·)).length = (right.filter (!isBlank ·)).length ∧
      (left.filter (!isBlank ·) = right.filter (!isBlank ·) → left = right) := by
  induction left generalizing right with
  | nil => simp [List.map_eq_nil_iff.mp same.symm]
  | cons c left ih =>
    cases right with
    | nil => cases same
    | cons d right =>
      obtain ⟨here, later⟩ := List.cons.inj same
      obtain ⟨lengths, whole⟩ := ih later
      rcases eq_or_solid_of_toLower_eq here with rfl | ⟨first, second⟩
      · cases blank : isBlank c <;> simpa [blank] using ⟨lengths, whole⟩
      · simpa [first, second] using ⟨lengths, fun head rest => ⟨head, whole rest⟩⟩

end Text

namespace Reading

open Grammar

variable {catalog : Catalog} {passed tokens raw : List Token} {token subject : Token} {taken words : List String}
  {text value : String}

/-- A form that begins the text of its factor in other letter case is all of it, and the letter case is the same. -/
theorem eq_of_form_begins (same : sameIgnoringAsciiCase value text = true)
    (member : (taken, value) ∈ forms catalog subject) (begins : taken <+: expressionWords text) :
    text = value ∧ taken = expressionWords text := by
  obtain ⟨lengths, whole⟩ := filter_of_map_toLower_eq (sameIgnoringAsciiCase_iff.mp same)
  obtain ⟨rest, split⟩ := begins
  have chars := flatMap_toList_expressionWords text
  rw [← split, List.flatMap_append, flatMap_toList_of_mem_forms member] at chars
  have none_left : rest.flatMap String.toList = [] := by
    have total := congrArg List.length chars
    rw [List.length_append, lengths] at total
    exact List.length_eq_zero_iff.mp (by omega)
  have nothing : rest = [] := by
    cases rest with
    | nil => rfl
    | cons word rest =>
      have inside : word ∈ expressionWords text := split ▸ List.mem_append_right _ List.mem_cons_self
      rw [List.flatMap_cons, List.append_eq_nil_iff] at none_left
      exact absurd none_left.1 (isWord_of_mem_expressionWords inside).1
  rw [none_left, List.append_nil] at chars
  refine ⟨String.toList_inj.mp (whole chars).symm, ?_⟩
  rw [← split, nothing, List.append_nil]

theorem expressionWords_ne_nil_of_same (nonblank : Text.words value ≠ [])
    (same : sameIgnoringAsciiCase value text = true) : expressionWords text ≠ [] := by
  intro empty
  have chars := flatMap_toList_expressionWords text
  have lengths := (filter_of_map_toLower_eq (sameIgnoringAsciiCase_iff.mp same)).1
  rw [← chars, empty, List.flatMap_nil, List.length_nil] at lengths
  obtain ⟨c, inside, solid⟩ := words_ne_nil_iff.mp nonblank
  have kept : c ∈ value.toList.filter (!isBlank ·) := List.mem_filter.mpr ⟨inside, by simp [solid]⟩
  exact List.ne_nil_of_mem kept (List.length_eq_zero_iff.mp lengths)

/-- The words are one run for the governing parameter: no name begins them, and no logical operator lies in them unless
they are a listed factor. -/
structure OneRun (catalog : Catalog) (governing : Token) (words : List String) : Prop where
  nonempty : words ≠ []
  unnamed : catalog.matchParameter? words = none
  uncut : ((parameterId? catalog governing).bind (catalog.findFactor? · (normalizeFactor (unwords words)))).isSome =
    true ∨ ∀ block ∈ blocks (unwords words).toList, isLogicalWord block = false

/-- Without a parenthesis or a phrase in them the words are one factor of the subject: a run, a name in place of a
factor, or a name with a run behind it, which is judged as a factor of that name. -/
inductive OneOperand (catalog : Catalog) (subject : Token) : List String → String → Prop
  | run {words : List String} (whole : OneRun catalog subject words) :
      OneOperand catalog subject words (normalizeFactor (unwords words))
  | named {words : List String} {parameter : ParameterDef}
      (matched : catalog.matchParameter? words = some (words.length, parameter)) :
      OneOperand catalog subject words parameter.name
  | begun {name rest : List String} {parameter : ParameterDef}
      (matched : catalog.matchParameter? (name ++ rest) = some (name.length, parameter))
      (whole : OneRun catalog parameter.token rest) :
      OneOperand catalog subject (name ++ rest) (parameter.name ++ " " ++ normalizeFactor (unwords rest))

theorem logical_mem_cutBlocks {block : List Char} {pieces : List (List Char)} (member : block ∈ pieces)
    (logical : isLogicalWord block = true) (pending : List Char) :
    .logical (String.ofList block) ∈ cutBlocks pending pieces := by
  induction pieces generalizing pending with
  | nil => cases member
  | cons first rest ih =>
    rw [cutBlocks]
    rcases List.mem_cons.mp member with rfl | later
    · rw [if_pos logical]
      exact List.mem_append_right _ List.mem_cons_self
    · split
      · exact List.mem_append_right _ (List.mem_cons_of_mem _ (ih later []))
      · exact ih later _

theorem OneRun.runTokens {governing : Token} (whole : OneRun catalog governing words)
    (solid : ∀ word ∈ words, IsWord word) (governs : passed.find? Token.isParameter = some governing) :
    runTokens catalog passed (unwords words) = [.factor (normalizeFactor (unwords words))] := by
  apply runTokens_of_uncut
  · rw [unwords_of_solid solid]
    exact whole.nonempty
  · rw [governs]
    exact whole.uncut

/-- Words that no name begins are one run, or a logical operator is read in them. -/
theorem oneRun_or_logical {governing : Token} (nonempty : words ≠ [])
    (unnamed : catalog.matchParameter? words = none) (governs : passed.find? Token.isParameter = some governing) :
    OneRun catalog governing words ∨ ∃ symbol, .logical symbol ∈ runTokens catalog passed (unwords words) := by
  by_cases whole : OneRun catalog governing words
  · exact .inl whole
  · simp only [Reading.runTokens, governs]
    split
    next known => exact absurd ⟨nonempty, unnamed, .inl known⟩ whole
    next =>
      have cut : ¬ ∀ block ∈ blocks (unwords words).toList, isLogicalWord block = false :=
        fun uncut => whole ⟨nonempty, unnamed, .inr uncut⟩
      simp only [not_forall, Bool.not_eq_false] at cut
      obtain ⟨block, member, logical⟩ := cut
      exact .inr ⟨_, logical_mem_cutBlocks member logical []⟩

theorem mem_reclassify (member : token ∈ raw) (subject : token.kind ≠ .factor) (operand : token.kind ≠ .parameter)
    (behind : Bool) : token ∈ reclassify catalog behind raw := by
  induction raw generalizing behind with
  | nil => cases member
  | cons first rest ih =>
    rw [reclassify]
    rcases List.mem_cons.mp member with rfl | later
    · have kept : asOperand token = token ∧ asSubject catalog token = token := by
        cases token with
        | parameter => exact absurd rfl operand
        | factor => exact absurd rfl subject
        | operator | logicalOperator | openParen | closeParen | unknown => exact ⟨rfl, rfl⟩
      simp [kept.1, kept.2]
    · exact List.mem_cons_of_mem _ (ih later _)

theorem mem_mergeFactors (member : token ∈ tokens) (apart : token.kind ≠ .factor) : token ∈ mergeFactors tokens := by
  induction tokens with
  | nil => cases member
  | cons first rest ih =>
    cases first with
    | factor value =>
      have later : token ∈ rest := by
        rcases List.mem_cons.mp member with rfl | later
        · exact absurd rfl apart
        · exact later
      have merged := ih later
      unfold mergeFactors
      split
      next next behind same =>
        rw [same] at merged
        rcases List.mem_cons.mp merged with rfl | behind
        · exact absurd rfl apart
        · exact List.mem_cons_of_mem _ behind
      next => exact List.mem_cons_of_mem _ merged
    | parameter | operator | logicalOperator | openParen | closeParen | unknown =>
      unfold mergeFactors
      rcases List.mem_cons.mp member with rfl | later
      · exact List.mem_cons_self
      · exact List.mem_cons_of_mem _ (ih later)

theorem Scanned.eq_nil (scanned : Scanned catalog passed words tokens) (empty : words = []) : tokens = [] := by
  cases scanned with
  | nil => rfl
  | listed found =>
    obtain ⟨_, _, _, _, _, _, positive, _⟩ := catalogFactor?_shape found
    exact absurd (List.append_eq_nil_iff.mp empty).1 (List.length_pos_iff.mp positive)
  | stretch _ stretch => exact absurd (List.append_eq_nil_iff.mp empty).1 stretch.nonempty

theorem Scanned.unbroken (scanned : Scanned catalog passed words tokens)
    (unclaimed : catalogFactor? catalog passed words = none)
    (governs : ∃ governing, passed.find? Token.isParameter = some governing) (solid : ∀ word ∈ words, IsWord word)
    (signless : ∀ token ∈ tokens, token.kind = .factor ∨ token.kind = .parameter) : Unbroken catalog words [] := by
  induction scanned with
  | nil => exact fun suffix ends nonempty => absurd (List.suffix_nil.mp ends) nonempty
  | listed found =>
    rw [found] at unclaimed
    cases unclaimed
  | @stretch passed piece tokens taken remaining _ stretch _ ih =>
    obtain ⟨here, behind⟩ := List.forall_mem_append.mp signless
    obtain ⟨first, rest⟩ := List.forall_mem_append.mp solid
    cases stretch with
    | paren listed =>
      simp only [List.mem_cons, Prod.mk.injEq, List.not_mem_nil, or_false] at listed
      rcases listed with ⟨_, rfl⟩ | ⟨_, rfl⟩ <;> simp [Token.kind] at here
    | @phrase _ _ phrase => cases phrase <;> simp [Phrase.token, Token.logical, Token.kind] at here
    | @name _ parameter _ unbroken =>
      have apart := @catalogFactor?_of_apart catalog (parameter.token :: passed) remaining
        fun symbol earlier same => by cases same
      have later := ih apart ⟨parameter.token, rfl⟩ rest behind
      exact Unbroken.append (by rwa [List.append_nil]) later
    | run nonempty unbroken _ unnamed =>
      obtain ⟨governing, governs⟩ := governs
      rcases oneRun_or_logical nonempty unnamed governs with whole | ⟨symbol, spoken⟩
      · rw [whole.runTokens first governs] at ih
        have apart := @catalogFactor?_of_apart catalog
          (.factor (normalizeFactor (unwords taken)) :: passed) remaining fun symbol earlier same => by cases same
        have later := ih apart ⟨governing, governs⟩ rest behind
        exact Unbroken.append (by rwa [List.append_nil]) later
      · simpa [Token.logical, Token.kind] using here _ spoken

theorem Scanned.unbroken_cases (scanned : Scanned catalog passed words tokens) (nonempty : words ≠ [])
    (unclaimed : catalogFactor? catalog passed words = none) (unbroken : Unbroken catalog words []) :
    (∃ parameter name rest later, words = name ++ rest ∧
      catalog.matchParameter? words = some (name.length, parameter) ∧ tokens = parameter.token :: later ∧
        Scanned catalog (parameter.token :: passed) rest later) ∨
      catalog.matchParameter? words = none ∧ tokens = runTokens catalog passed (unwords words) := by
  cases scanned with
  | nil => exact absurd rfl nonempty
  | listed found =>
    rw [found] at unclaimed
    cases unclaimed
  | @stretch _ piece later taken remaining _ stretch behind =>
    have starts : isBoundary catalog (taken ++ remaining) = false := by
      simpa using unbroken (taken ++ remaining) (List.suffix_refl _) nonempty
    have inside : Unbroken catalog remaining [] := unbroken.of_suffix (List.suffix_append taken remaining)
    cases stretch with
    | paren listed =>
      simp only [List.mem_cons, Prod.mk.injEq, List.not_mem_nil, or_false] at listed
      rcases listed with ⟨rfl, _⟩ | ⟨rfl, _⟩ <;> simp [isBoundary] at starts
    | phrase _ _ matched =>
      rw [isBoundary_of_match (Option.isSome_of_eq_some matched)] at starts
      cases starts
    | @name _ parameter _ _ matched =>
      have whole : untilBoundary catalog remaining = remaining := by
        simpa using untilBoundary_append inside rfl
      rw [whole] at matched
      exact .inl ⟨parameter, taken, remaining, later, rfl, matched, rfl, behind⟩
    | run _ _ stop unnamed =>
      have last : remaining = [] := by
        by_contra more
        have open_ := inside remaining (List.suffix_refl _) more
        rw [List.append_nil, stop] at open_
        cases open_
      rw [behind.eq_nil last, last]
      exact .inr ⟨by rwa [List.append_nil], by rw [List.append_nil, List.append_nil]⟩

theorem kinds_of_merged {afterOperator : Bool}
    (merged : mergeFactors (reclassify catalog afterOperator tokens) = [.factor value]) :
    ∀ token ∈ tokens, token.kind = .factor ∨ token.kind = .parameter := by
  intro token member
  by_contra other
  obtain ⟨noFactor, noParameter⟩ := not_or.mp other
  have kept := mem_mergeFactors (@mem_reclassify catalog _ _ member noFactor noParameter afterOperator) noFactor
  rw [merged, List.mem_singleton] at kept
  exact noFactor (kept ▸ rfl)

theorem catalogFactor?_behind_name (named : ParameterDef) (passed : List Token) (rest : List String) :
    catalogFactor? catalog (named.token :: passed) rest = none :=
  catalogFactor?_of_apart _ fun _ _ same => by cases same

theorem find?_name (named : ParameterDef) (passed : List Token) :
    (named.token :: passed).find? Token.isParameter = some named.token := rfl

theorem oneOperand_of_name {named : ParameterDef} {name rest : List String} {later : List Token}
    (matched : catalog.matchParameter? (name ++ rest) = some (name.length, named))
    (behind : Scanned catalog (named.token :: passed) rest later) (solid : ∀ word ∈ rest, IsWord word)
    (unbroken : Unbroken catalog rest [])
    (merged : mergeFactors (reclassify catalog true (named.token :: later)) = [.factor value]) :
    OneOperand catalog subject (name ++ rest) value := by
  by_cases last : rest = []
  · rw [behind.eq_nil last, reclassify_name named rfl] at merged
    cases merged
    rw [last, List.append_nil] at matched ⊢
    exact .named matched
  rcases behind.unbroken_cases last (catalogFactor?_behind_name named _ rest) unbroken with
    ⟨other, _, _, more, _, _, rfl, _⟩ | ⟨unnamed, rfl⟩
  · -- Only the first of two names is taken for a factor.
    have second : other.token ∈ mergeFactors (.factor named.name :: reclassify catalog false (other.token :: more)) :=
      mem_mergeFactors (by simp [reclassify_parameter]) (by simp [ParameterDef.token, Token.kind])
    rw [← reclassify_name named rfl, merged, List.mem_singleton] at second
    cases second
  · rcases oneRun_or_logical last unnamed (find?_name named _) with whole | ⟨spoken, inside⟩
    · rw [whole.runTokens solid (find?_name named _), reclassify_name named rfl] at merged
      cases merged
      exact .begun matched whole
    · simpa [Token.logical, Token.kind] using kinds_of_merged merged _ (List.mem_cons_of_mem _ inside)

section Operand

variable {symbol : String} {earlier : List Token} (parameter : subject.isParameter = true)
  (scanned : Scanned catalog (.operator symbol :: subject :: earlier) words tokens) (nonempty : words ≠ [])
  (solid : ∀ word ∈ words, IsWord word)
  (unclaimed : catalogFactor? catalog (.operator symbol :: subject :: earlier) words = none)

include parameter scanned nonempty solid unclaimed

theorem oneOperand_of_merged (merged : mergeFactors (reclassify catalog true tokens) = [.factor value]) :
    Unbroken catalog words [] ∧ OneOperand catalog subject words value := by
  have governs := @find?_operator symbol _ earlier parameter
  have kinds := kinds_of_merged merged
  have unbroken := scanned.unbroken unclaimed ⟨subject, governs⟩ solid kinds
  refine ⟨unbroken, ?_⟩
  rcases scanned.unbroken_cases nonempty unclaimed unbroken with
    ⟨named, name, rest, later, rfl, matched, rfl, behind⟩ | ⟨unnamed, rfl⟩
  · exact oneOperand_of_name matched behind (List.forall_mem_append.mp solid).2
      (unbroken.of_suffix (List.suffix_append name rest)) merged
  · rcases oneRun_or_logical nonempty unnamed governs with whole | ⟨spoken, inside⟩
    · rw [whole.runTokens solid governs] at merged
      obtain rfl : normalizeFactor (unwords words) = value := by simpa [reclassify, mergeFactors,
        startsWithOperator, asOperand] using merged
      exact .run whole
    · simpa [Token.logical, Token.kind] using kinds _ inside

theorem mergeFactors_of_oneOperand (unbroken : Unbroken catalog words [])
    (one : OneOperand catalog subject words value) :
    mergeFactors (reclassify catalog true tokens) = [.factor value] := by
  rcases scanned.unbroken_cases nonempty unclaimed unbroken with
    ⟨named, name, rest, later, rfl, matched, rfl, behind⟩ | ⟨unnamed, rfl⟩
  · have within := unbroken.of_suffix (List.suffix_append name rest)
    generalize shape : name ++ rest = words at one matched
    cases one with
    | run whole =>
      rw [whole.unnamed] at matched
      cases matched
    | named other =>
      rw [other] at matched
      obtain ⟨long, rfl⟩ := Prod.mk.inj (Option.some.inj matched)
      have last : rest = [] := by
        rw [← shape, List.length_append] at long
        exact List.length_eq_zero_iff.mp (by omega)
      rw [behind.eq_nil last, reclassify_name _ rfl]
      rfl
    | @begun front rest' _ other whole =>
      rw [other] at matched
      obtain ⟨long, rfl⟩ := Prod.mk.inj (Option.some.inj matched)
      obtain ⟨rfl, rfl⟩ := List.append_inj shape long.symm
      rcases behind.unbroken_cases whole.nonempty (catalogFactor?_behind_name _ _ rest) within with
        ⟨_, _, _, _, _, matched, _, _⟩ | ⟨_, rfl⟩
      · rw [whole.unnamed] at matched
        cases matched
      · rw [whole.runTokens (fun word member => solid word (List.mem_append_right _ member)) (find?_name _ _),
          reclassify_name _ rfl]
        rfl
  · cases one with
    | run whole =>
      rw [whole.runTokens solid (find?_operator parameter)]
      rfl
    | named matched | begun matched =>
      rw [unnamed] at matched
      cases matched

/-- What is read behind an operator becomes one factor just when no parenthesis and no phrase lie in the words and they
are one operand. -/
theorem mergeFactors_operand : mergeFactors (reclassify catalog true tokens) = [.factor value] ↔
    Unbroken catalog words [] ∧ OneOperand catalog subject words value :=
  ⟨oneOperand_of_merged parameter scanned nonempty solid unclaimed,
    fun ⟨unbroken, one⟩ => mergeFactors_of_oneOperand parameter scanned nonempty solid unclaimed unbroken one⟩

end Operand

theorem Scanned.of_found (scanned : Scanned catalog passed words tokens)
    (found : catalogFactor? catalog passed words = some (words.length, value)) : tokens = [.factor value] := by
  cases scanned with
  | nil =>
    obtain ⟨_, _, _, _, _, _, positive, _⟩ := catalogFactor?_shape found
    cases positive
  | listed here later =>
    rw [here] at found
    obtain ⟨long, rfl⟩ := Prod.mk.inj (Option.some.inj found)
    rw [List.length_append] at long
    rw [later.eq_nil (List.length_eq_zero_iff.mp (by omega))]
  | stretch unclaimed =>
    rw [unclaimed] at found
    cases found

theorem markFrom_eq_factor {before : List Token} (legal : (position catalog before).legalNext.contains .factor = true) :
    markFrom catalog (position catalog before) tokens = [.factor value] ↔ tokens = [.factor value] := by
  cases tokens with
  | nil => simp [markFrom]
  | cons token rest =>
    rw [markFrom_cons]
    constructor
    · intro same
      obtain ⟨here, later⟩ := List.cons.inj same
      rcases markedAfter_cases catalog before token with ⟨kept, _⟩ | ⟨unknown, _⟩
      · cases rest with
        | nil => rw [← kept, here]
        | cons next rest =>
          rw [markFrom_cons] at later
          cases later
      · rw [unknown] at here
        cases here
    · intro same
      obtain ⟨rfl, rfl⟩ := List.cons.inj same
      rw [markedAfter, Token.kind, if_pos legal]
      rfl

section Comparison

variable {parameter : ParameterDef} {symbol : String}

theorem parse_comparison (indexed : catalog.Indexed) (separate : catalog.Separate)
    (known : parameter ∈ catalog.parameters) (sign : symbol ∈ catalog.operators) (text : String) :
    ∃ tokens, Scanned catalog [.operator symbol, parameter.token] (expressionWords text) tokens ∧
      parse catalog (parameter.name ++ " " ++ symbol ++ " " ++ text) =
        parameter.token :: .operator symbol :: markFrom catalog
          (position catalog [parameter.token, .operator symbol]) (mergeFactors (reclassify catalog true tokens)) := by
  obtain ⟨tokens, scanned, read⟩ :=
    exists_scanned indexed [.operator symbol, parameter.token] (expressionWords text)
  refine ⟨tokens, scanned, ?_⟩
  have member : Phrase.operator symbol ∈ catalog.phraseList := Catalog.operator_mem_phraseList.mpr sign
  have split : expressionWords (parameter.name ++ " " ++ symbol ++ " " ++ text) =
      words parameter.name ++ (words symbol ++ expressionWords text) := by
    have joined : parameter.name ++ " " ++ symbol ++ " " ++ text = unwords [parameter.name, symbol, text] := by
      simp only [unwords_cons_cons, unwords_singleton, String.append_assoc]
    rw [joined, expressionWords_unwords]
    simp only [List.flatMap_cons, List.flatMap_nil, List.append_nil,
      expressionWords_of_plain (separate.plainNames parameter known),
      expressionWords_of_plain (separate.plainOperators symbol sign)]
  have stop : isBoundary catalog (words symbol ++ expressionWords text) = true :=
    isBoundary_of_match (Option.isSome_of_eq_some (matchPhrase?_words indexed separate member _))
  have name := @scan_name catalog [] _ parameter indexed separate known (fun _ _ same => by cases same) stop
  have phrase := @scan_phrase catalog [parameter.token] _ indexed separate member (fun _ _ same => by cases same)
    (expressionWords text)
  have scanned : scan catalog (words parameter.name ++ (words symbol ++ expressionWords text)) =
      parameter.token :: .operator symbol :: tokens := name.trans (phrase.trans read)
  have start : markedAfter catalog [] parameter.token = parameter.token :=
    if_pos (GrammarPosition.parameter_legal.mpr (.inl rfl))
  have operator : markedAfter catalog [parameter.token] (.operator symbol) = .operator symbol :=
    if_pos (GrammarPosition.operator_legal.mpr (.inl rfl))
  have repaired : mergeFactors (reclassify catalog false (parameter.token :: .operator symbol :: tokens)) =
      parameter.token :: .operator symbol :: mergeFactors (reclassify catalog true tokens) := by
    rw [reclassify_parameter, reclassify_operator]
    rfl
  rw [parse, split, scanned, repaired, ← @position_nil catalog, markFrom_cons, start, markFrom_cons, List.nil_append,
    operator]
  rfl

theorem exists_operand_reading (indexed : catalog.Indexed) (separate : catalog.Separate)
    (known : parameter ∈ catalog.parameters) (sign : symbol ∈ catalog.operators) (text : String)
    (shown : String → Prop) :
    ∃ tokens, Scanned catalog [.operator symbol, parameter.token] (expressionWords text) tokens ∧
      ((∃ first second value, parse catalog (parameter.name ++ " " ++ symbol ++ " " ++ text) =
          [first, second, .factor value] ∧ shown value ∧
          ambiguities (parse catalog (parameter.name ++ " " ++ symbol ++ " " ++ text)) = []) ↔
        ∃ value, shown value ∧ mergeFactors (reclassify catalog true tokens) = [.factor value]) := by
  have legal : (position catalog [parameter.token, .operator symbol]).legalNext.contains .factor = true :=
    GrammarPosition.factor_legal.mpr (.inl rfl)
  obtain ⟨tokens, scanned, parsed⟩ := parse_comparison indexed separate known sign text
  have one (value : String) : parse catalog (parameter.name ++ " " ++ symbol ++ " " ++ text) =
      [parameter.token, .operator symbol, .factor value] ↔
        mergeFactors (reclassify catalog true tokens) = [.factor value] := by
    rw [parsed, ← markFrom_eq_factor legal]
    simp
  refine ⟨tokens, scanned, ?_⟩
  constructor
  · rintro ⟨first, second, value, shape, spelled, _⟩
    refine ⟨value, spelled, (one value).mp ?_⟩
    rw [parsed] at shape ⊢
    obtain ⟨rfl, rest⟩ := List.cons.inj shape
    obtain ⟨rfl, rest⟩ := List.cons.inj rest
    rw [rest]
  · rintro ⟨value, spelled, merged⟩
    have shape := (one value).mpr merged
    exact ⟨_, _, value, shape, spelled, by rw [shape]; rfl⟩

/-- A listed factor in whatever letter case, behind its parameter and an operator, is read as one factor in its own or
in the catalog's spelling if it is spelled as in the catalog. In other letters it is if no parenthesis and no phrase
lie in it and it is one operand of that value, and only then. -/
theorem parse_known_factor {parameters : List ParameterDef} {factors : FactorTable} {operators : List String}
    (built : Catalog.build parameters factors operators = .ok catalog) (separate : catalog.Separate)
    (known : parameter ∈ catalog.parameters) (sign : symbol ∈ catalog.operators) {factor : FactorDef}
    (offered : factor ∈ factorsOf catalog parameter.token) (tidy : Tidy factor.canonical)
    (same : sameIgnoringAsciiCase factor.canonical text = true)
    (alone : ∀ form ∈ forms catalog parameter.token, form.2 ≠ factor.canonical → form.1 ≠ [] →
      ¬ form.1 <+: expressionWords text) :
    let tokens := parse catalog (parameter.name ++ " " ++ symbol ++ " " ++ text)
    (∃ first second value, tokens = [first, second, .factor value] ∧ (value = text ∨ value = factor.canonical) ∧
        ambiguities tokens = []) ↔
      text = factor.canonical ∨ Unbroken catalog (expressionWords text) [] ∧
        ∃ value, (value = text ∨ value = factor.canonical) ∧
          OneOperand catalog parameter.token (expressionWords text) value := by
  have indexed := Catalog.indexed_of_build built
  have isParameter : parameter.token.isParameter = true := rfl
  have canonical : (expressionWords factor.canonical, factor.canonical) ∈ forms catalog parameter.token :=
    List.mem_flatMap.mpr ⟨factor, offered, List.mem_cons_self⟩
  have fits (form : List String × String) (member : form ∈ forms catalog parameter.token) (nonempty : form.1 ≠ [])
      (begins : form.1 <+: expressionWords text) : text = factor.canonical ∧ form = (expressionWords text, text) := by
    obtain ⟨taken, value⟩ := form
    obtain rfl : value = factor.canonical := by
      by_contra other
      exact alone _ member other nonempty begins
    obtain ⟨spelled, whole⟩ := eq_of_form_begins same member begins
    exact ⟨spelled, by rw [← whole, spelled]⟩
  have nonempty : expressionWords text ≠ [] := expressionWords_ne_nil_of_same tidy.words_ne_nil same
  dsimp only
  obtain ⟨tokens, scanned, read⟩ := exists_operand_reading indexed separate known sign text fun value =>
    value = text ∨ value = factor.canonical
  rw [read]
  by_cases spelled : text = factor.canonical
  · have found : catalogFactor? catalog [.operator symbol, parameter.token] (expressionWords text) =
        some ((expressionWords text).length, text) := by
      have whole := @catalogFactor?_eq_some catalog symbol parameter.token [] (expressionWords text) text isParameter
        (by rwa [spelled]) nonempty []
      rw [List.append_nil] at whole
      exact whole fun form member occupied begins => .inl (fits form member occupied begins).2
    rw [scanned.of_found found]
    exact ⟨fun _ => .inl spelled, fun _ => ⟨text, .inl rfl, rfl⟩⟩
  · have unclaimed : catalogFactor? catalog [.operator symbol, parameter.token] (expressionWords text) = none :=
      catalogFactor?_eq_none fun form member nonempty begins => spelled (fits form member nonempty begins).1
    have operand (value : String) := @mergeFactors_operand catalog tokens parameter.token _ value symbol [] isParameter
      scanned nonempty (fun word => isWord_of_mem_expressionWords) unclaimed
    simp only [operand, spelled, false_or]
    constructor
    · rintro ⟨value, shown, unbroken, one⟩
      exact ⟨unbroken, value, shown, one⟩
    · rintro ⟨unbroken, value, shown, one⟩
      exact ⟨value, shown, unbroken, one⟩

end Comparison

instance (words remaining : List String) : Decidable (Unbroken catalog words remaining) :=
  decidable_of_iff (∀ suffix ∈ words.tails, suffix ≠ [] → isBoundary catalog (suffix ++ remaining) = false)
    (by simp [Unbroken])

instance (text : String) : Decidable (Tidy text) :=
  decidable_of_iff (text ≠ "" ∧ collapse text = text)
    ⟨fun both => ⟨both.1, both.2⟩, fun tidy => ⟨tidy.occupied, tidy.collapsed⟩⟩

private def cardFactors : List FactorDef :=
  [.single "Gold Card", .single "Gold OR Silver", .single "Tier (1)", .single "a - b", .single "Loan Plan"]

private def cardForm : Except CatalogError Catalog :=
  Catalog.build [⟨7, "Salary"⟩, ⟨11, "Loan"⟩] (.ofList [(7, cardFactors)]) ["In List"]

/-- In other letters as one run, and as the catalog spells it with a logical operator in it. -/
theorem parse_known_factor_goldCard :
    ∃ catalog, cardForm = .ok catalog ∧
      (let tokens := parse catalog ("Salary" ++ " " ++ "In List" ++ " " ++ "gold card")
        ∃ first second value, tokens = [first, second, .factor value] ∧
          (value = "gold card" ∨ value = (FactorDef.single "Gold Card").canonical) ∧ ambiguities tokens = []) ∧
      (let tokens := parse catalog ("Salary" ++ " " ++ "In List" ++ " " ++ "Gold OR Silver")
        ∃ first second value, tokens = [first, second, .factor value] ∧
          (value = "Gold OR Silver" ∨ value = (FactorDef.single "Gold OR Silver").canonical) ∧
            ambiguities tokens = []) := by
  have normal : normalizeFactor (unwords (expressionWords "gold card")) = "gold card" := by decide
  obtain ⟨catalog, built, separate, salary, sign, card, silver, cardAlone, silverAlone, unbroken, one⟩ :
      ∃ catalog, cardForm = .ok catalog ∧ catalog.Separate ∧ ⟨7, "Salary"⟩ ∈ catalog.parameters ∧
        "In List" ∈ catalog.operators ∧
        .single "Gold Card" ∈ factorsOf catalog (ParameterDef.mk 7 "Salary").token ∧
        .single "Gold OR Silver" ∈ factorsOf catalog (ParameterDef.mk 7 "Salary").token ∧
        (∀ form ∈ forms catalog (ParameterDef.mk 7 "Salary").token,
          form.2 ≠ (FactorDef.single "Gold Card").canonical → form.1 ≠ [] →
            ¬ form.1 <+: expressionWords "gold card") ∧
        (∀ form ∈ forms catalog (ParameterDef.mk 7 "Salary").token,
          form.2 ≠ (FactorDef.single "Gold OR Silver").canonical → form.1 ≠ [] →
            ¬ form.1 <+: expressionWords "Gold OR Silver") ∧
        Unbroken catalog (expressionWords "gold card") [] ∧
        OneRun catalog (ParameterDef.mk 7 "Salary").token (expressionWords "gold card") :=
    ⟨_, rfl, ⟨by decide, by decide, by decide, by decide⟩, by decide, by decide, by decide, by decide, by decide,
      by decide, by decide, ⟨by decide, by decide, .inl (by decide)⟩⟩
  refine ⟨catalog, built, ?_, ?_⟩
  · have whole : OneOperand catalog (ParameterDef.mk 7 "Salary").token _ _ := .run one
    rw [normal] at whole
    exact (parse_known_factor built separate salary sign card (by decide) (by decide) cardAlone).mpr
      (.inr ⟨unbroken, _, .inl rfl, whole⟩)
  · exact (parse_known_factor built separate salary sign silver (by decide) (by decide) silverAlone).mpr
      (.inl (by decide))

/-- A phrase, a parenthesis, the spaces around a hyphen and the letters of a name each break a listed factor that is not
spelled as in the catalog. -/
theorem parse_known_factor_respelled :
    ∃ catalog, cardForm = .ok catalog ∧ catalog.Separate ∧
      ⟨7, "Salary"⟩ ∈ catalog.parameters ∧ "In List" ∈ catalog.operators ∧
      (∀ factor ∈ cardFactors, factor ∈ factorsOf catalog (.parameter "Salary" (some 7)) ∧ Tidy factor.canonical) ∧
      (∀ pair ∈ [(FactorDef.single "Gold OR Silver", "gold or silver"), (.single "Tier (1)", "tier (1)"),
          (.single "a - b", "A - b"), (.single "Loan Plan", "loan plan")],
        pair.1 ∈ cardFactors ∧ sameIgnoringAsciiCase pair.1.canonical pair.2 = true ∧
        ∀ form ∈ forms catalog (.parameter "Salary" (some 7)), form.2 ≠ pair.1.canonical →
          ¬ form.1 <+: expressionWords pair.2 ∧ ¬ expressionWords pair.2 <+: form.1) ∧
      parse catalog "Salary In List gold or silver" =
        [.parameter "Salary" (some 7), .operator "In List", .factor "gold", .logicalOperator "OR", .unknown "silver"] ∧
      parse catalog "Salary In List tier (1)" =
        [.parameter "Salary" (some 7), .operator "In List", .factor "tier", .unknown "(", .factor "1", .unknown ")"] ∧
      parse catalog "Salary In List A - b" = [.parameter "Salary" (some 7), .operator "In List", .factor "A-b"] ∧
      parse catalog "Salary In List loan plan" =
        [.parameter "Salary" (some 7), .operator "In List", .factor "Loan plan"] :=
  ⟨_, rfl, ⟨by decide, by decide, by decide, by decide⟩, by decide, by decide, by decide, by decide, by decide,
    by decide, by decide, by decide⟩

end Reading

end Criteria
