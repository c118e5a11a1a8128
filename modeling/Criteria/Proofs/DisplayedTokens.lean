import Criteria.Proofs.FactorRepair
import Criteria.Proofs.RunReading
import Mathlib.Data.List.Infix
/-!
Reading one displayed token in front of whatever follows it. A condition on the catalog keeps names, phrases and the
spellings of factors apart, and a condition on its text keeps a factor that the catalog does not list in one piece.
-/

namespace Criteria

open Text

/-- Nothing that the catalog writes can be taken for something else: parentheses stand for themselves, no phrase begins
inside a name, and no phrase and no spelling of a factor is the beginning of another one. -/
structure Catalog.Unambiguous (catalog : Catalog) : Prop where
  plainNames : ∀ parameter ∈ catalog.parameters, Reading.Plain parameter.name
  plainOperators : ∀ symbol ∈ catalog.operators, Reading.Plain symbol
  namesApart : ∀ parameter ∈ catalog.parameters, ∀ word ∈ PhraseTrie.key parameter.name,
    ∀ phrase ∈ catalog.phraseList, (PhraseTrie.key phrase.text).head? ≠ some word
  phrasesApart : ∀ first ∈ catalog.phraseList, ∀ second ∈ catalog.phraseList,
    PhraseTrie.key first.text <+: PhraseTrie.key second.text → PhraseTrie.key first.text = PhraseTrie.key second.text
  formsApart : ∀ parameter ∈ catalog.parameters, ∀ first ∈ Reading.forms catalog parameter.token,
    ∀ second ∈ Reading.forms catalog parameter.token, first.1 <+: second.1 → first = second

/-- Parentheses stand for themselves, no phrase begins inside a name, and none is the beginning of another one. -/
structure Catalog.Separate (catalog : Catalog) : Prop where
  plainNames : ∀ parameter ∈ catalog.parameters, Reading.Plain parameter.name
  plainOperators : ∀ symbol ∈ catalog.operators, Reading.Plain symbol
  namesApart : ∀ parameter ∈ catalog.parameters, ∀ word ∈ PhraseTrie.key parameter.name,
    ∀ phrase ∈ catalog.phraseList, (PhraseTrie.key phrase.text).head? ≠ some word
  phrasesApart : ∀ first ∈ catalog.phraseList, ∀ second ∈ catalog.phraseList,
    PhraseTrie.key first.text <+: PhraseTrie.key second.text → PhraseTrie.key first.text = PhraseTrie.key second.text

theorem Catalog.Unambiguous.separate {catalog : Catalog} (unambiguous : catalog.Unambiguous) : catalog.Separate :=
  { unambiguous with }

namespace Reading

/-- The words that may stand behind a factor. -/
def factorEnds : List String := [")", "AND", "OR"]

/-- The ways in which a text is read as one factor: as a run, as the name of a parameter, or as such a name with a run
behind it, which is then judged as a factor of that parameter. -/
inductive OneFactor (catalog : Catalog) (subject : Token) : String → Prop where
  | run {text : String} (whole : Whole catalog subject text) : OneFactor catalog subject text
  | named {parameter : ParameterDef} (listed : parameter ∈ catalog.parameters) :
      OneFactor catalog subject parameter.name
  | begun {parameter : ParameterDef} {rest : String}
      (matched : catalog.matchParameter? (words parameter.name ++ words rest) =
        some ((words parameter.name).length, parameter))
      (whole : Whole catalog parameter.token rest) : OneFactor catalog subject (parameter.name ++ " " ++ rest)

/-- A text that is read as one factor of the subject, although the catalog does not list it: no spelling of a listed
factor and no phrase begins in it, not even with the word that may follow. -/
structure FreeText (catalog : Catalog) (subject : Token) (value : String) : Prop where
  plain : Plain value
  formless : ∀ form ∈ forms catalog subject, form.1 ≠ [] →
    ¬ form.1 <+: words value ∧ ∀ next ∈ factorEnds, ¬ words value ++ [next] <+: form.1
  phraseless : ∀ suffix ∈ (words value).tails, suffix ≠ [] → ∀ phrase ∈ catalog.phraseList,
    ¬ PhraseTrie.key phrase.text <+: suffix.map lowercase ∧
      ∀ next ∈ factorEnds, ¬ (suffix ++ [next]).map lowercase <+: PhraseTrie.key phrase.text
  one : OneFactor catalog subject value

/-- The factors that survive being displayed and read. -/
inductive Readable (catalog : Catalog) (subject : Token) : String → Prop where
  | listed {factor : FactorDef} (offered : factor ∈ Grammar.factorsOf catalog subject)
      (nonblank : words factor.canonical ≠ []) : Readable catalog subject factor.canonical
  | free {value : String} (text : FreeText catalog subject value) : Readable catalog subject value

variable {catalog : Catalog} {passed earlier : List Token} {remaining : List String}

section Phrases

variable {phrase : Phrase}

theorem plain_phrase (separate : catalog.Separate) (member : phrase ∈ catalog.phraseList) :
    Plain phrase.text := by
  cases phrase with
  | operator symbol => exact separate.plainOperators symbol (Catalog.operator_mem_phraseList.mp member)
  | logical symbol =>
    have plain : ∀ symbol ∈ Catalog.logicalOperators, Plain symbol := by decide
    exact plain symbol (Catalog.logical_mem_phraseList.mp member)

theorem matchPhrase?_words (indexed : catalog.Indexed) (separate : catalog.Separate)
    (member : phrase ∈ catalog.phraseList) (remaining : List String) :
    catalog.matchPhrase? (words phrase.text ++ remaining) = some ((words phrase.text).length, phrase) := by
  have begins : PhraseTrie.key phrase.text <+: (words phrase.text ++ remaining).map lowercase := by
    rw [List.map_append]
    exact List.prefix_append _ _
  obtain ⟨count, stored, matched, long⟩ := indexed.phrases.exists_longestMatch member begins
  obtain ⟨listed, _, within, place⟩ := indexed.phrases.of_longestMatch matched
  have inside : PhraseTrie.key phrase.text <+: PhraseTrie.key stored.text := by
    rw [← place, List.map_take]
    exact List.prefix_take_iff.mpr ⟨begins, long⟩
  have same := separate.phrasesApart phrase member stored listed inside
  obtain rfl := indexed.phrases.eq_of_key_eq member listed same
  have length := congrArg List.length place
  rw [List.length_map, List.length_take, Nat.min_eq_left within] at length
  rw [Catalog.matchPhrase?, matched, length, PhraseTrie.key, List.length_map]

theorem scan_phrase (indexed : catalog.Indexed) (separate : catalog.Separate)
    (member : phrase ∈ catalog.phraseList) (apart : ∀ symbol earlier, passed ≠ .operator symbol :: earlier)
    (remaining : List String) :
    scanFrom catalog passed 0 (words phrase.text ++ remaining) =
      scanFrom catalog (phrase.token :: passed) 0 remaining := by
  have matched := matchPhrase?_words indexed separate member remaining
  have plain := fun word => @ne_paren_of_mem_words phrase.text word (plain_phrase separate member)
  have nonempty := words_ne_nil_of_key (indexed.phrases.stored phrase member).1
  obtain ⟨word, rest, shape⟩ := List.exists_cons_of_ne_nil nonempty
  rw [shape] at matched plain ⊢
  obtain ⟨notOpen, notClose⟩ := plain word List.mem_cons_self
  exact scanFrom_step remaining (tokensAt_of_phrase (catalogFactor?_of_apart _ apart) notOpen notClose matched)

end Phrases

theorem scan_openParen (apart : ∀ symbol earlier, passed ≠ .operator symbol :: earlier) (remaining : List String) :
    scanFrom catalog passed 0 (["("] ++ remaining) = scanFrom catalog (.openParen :: passed) 0 remaining := by
  have read : tokensAt catalog passed "(" ([] ++ remaining) = ([.openParen], 1) := by
    unfold tokensAt
    rw [catalogFactor?_of_apart _ apart]
    rfl
  exact scanFrom_step remaining read

theorem scan_closeParen (apart : ∀ symbol earlier, passed ≠ .operator symbol :: earlier) (remaining : List String) :
    scanFrom catalog passed 0 ([")"] ++ remaining) = scanFrom catalog (.closeParen :: passed) 0 remaining := by
  have read : tokensAt catalog passed ")" ([] ++ remaining) = ([.closeParen], 1) := by
    unfold tokensAt
    rw [catalogFactor?_of_apart _ apart]
    rfl
  exact scanFrom_step remaining read

section Names

variable {parameter : ParameterDef}

theorem unbroken_name (indexed : catalog.Indexed) (separate : catalog.Separate)
    (member : parameter ∈ catalog.parameters) (remaining : List String) :
    Unbroken catalog (words parameter.name) remaining := by
  intro suffix ends nonempty
  obtain ⟨word, rest, rfl⟩ := List.exists_cons_of_ne_nil nonempty
  have inside : word ∈ words parameter.name := ends.subset List.mem_cons_self
  obtain ⟨notOpen, notClose⟩ := ne_paren_of_mem_words (separate.plainNames parameter member) inside
  rw [List.cons_append]
  refine isBoundary_eq_false.mpr ⟨notOpen, notClose, ?_⟩
  cases matched : catalog.matchPhrase? (word :: (rest ++ remaining)) with
  | none => rfl
  | some found =>
    obtain ⟨count, phrase⟩ := found
    obtain ⟨listed, positive, _, place⟩ := indexed.phrases.of_longestMatch matched
    obtain ⟨count, rfl⟩ := Nat.exists_eq_add_one.mpr positive
    have head : (PhraseTrie.key phrase.text).head? = some (lowercase word) := by
      rw [← place]
      rfl
    exact absurd head (separate.namesApart parameter member _ (List.mem_map_of_mem inside) phrase listed)

theorem matchParameter?_words (indexed : catalog.Indexed) (member : parameter ∈ catalog.parameters) :
    catalog.matchParameter? (words parameter.name) = some ((words parameter.name).length, parameter) := by
  refine indexed.matchParameter?_eq_some_iff.mpr ⟨⟨member, List.prefix_refl _, ?_⟩, by rw [PhraseTrie.key, List.length_map]⟩
  exact fun other _ begins => begins.length_le

theorem scan_name (indexed : catalog.Indexed) (separate : catalog.Separate)
    (member : parameter ∈ catalog.parameters) (apart : ∀ symbol earlier, passed ≠ .operator symbol :: earlier)
    (stop : isBoundary catalog remaining = true) :
    scanFrom catalog passed 0 (words parameter.name ++ remaining) =
      scanFrom catalog (parameter.token :: passed) 0 remaining := by
  have unbroken := unbroken_name indexed separate member remaining
  have matched := matchParameter?_words indexed member
  have nonempty := words_ne_nil_of_key (indexed.key_name_ne_nil member)
  obtain ⟨word, rest, shape⟩ := List.exists_cons_of_ne_nil nonempty
  rw [shape] at unbroken matched ⊢
  exact scanFrom_step remaining (tokensAt_of_name (catalogFactor?_of_apart _ apart) unbroken stop matched)

end Names

section Factors

variable {subject : Token} {symbol value : String}

/-- A spelling of a listed factor is taken as that factor, whatever follows. -/
theorem scan_listed (unambiguous : ∀ first ∈ forms catalog subject, ∀ second ∈ forms catalog subject,
      first.1 <+: second.1 → first = second) (parameter : subject.isParameter = true) {spelling : List String}
    (nonempty : spelling ≠ []) (member : (spelling, value) ∈ forms catalog subject) (remaining : List String) :
    scanFrom catalog (.operator symbol :: subject :: earlier) 0 (spelling ++ remaining) =
      scanFrom catalog (.factor value :: .operator symbol :: subject :: earlier) 0 remaining := by
  have only : ∀ form ∈ forms catalog subject, form.1 <+: spelling ++ remaining → form = (spelling, value) := by
    intro form listed begins
    rcases List.prefix_or_prefix_of_prefix begins (List.prefix_append spelling remaining) with inside | beyond
    · exact unambiguous form listed _ member inside
    · exact (unambiguous _ member form listed beyond).symm
  have found := @catalogFactor?_eq_some catalog symbol subject earlier spelling value parameter member nonempty
    remaining fun form listed _ begins => .inl (only form listed begins)
  obtain ⟨word, rest, rfl⟩ := List.exists_cons_of_ne_nil nonempty
  exact scanFrom_step remaining (tokensAt_of_factor found)

/-- Nothing follows, or a word that may stand behind a factor does. -/
def EndsFactor (remaining : List String) : Prop := ∀ next later, remaining = next :: later → next ∈ factorEnds

theorem FreeText.unclaimed (text : FreeText catalog subject value) (ends : EndsFactor remaining) :
    catalogFactor? catalog (.operator symbol :: subject :: earlier) (words value ++ remaining) = none := by
  apply catalogFactor?_eq_none
  intro form listed nonempty begins
  obtain ⟨apart, apartNext⟩ := text.formless form listed nonempty
  rcases prefix_append_cases begins with inside | ⟨next, later, same, beyond⟩
  · exact apart inside
  · exact apartNext next (ends next later same) beyond

theorem FreeText.unbroken (indexed : catalog.Indexed) (text : FreeText catalog subject value)
    (ends : EndsFactor remaining) : Unbroken catalog (words value) remaining := by
  intro suffix inValue nonempty
  have phraseless := text.phraseless suffix ((List.mem_tails _ _).mpr inValue) nonempty
  obtain ⟨word, rest, rfl⟩ := List.exists_cons_of_ne_nil nonempty
  obtain ⟨notOpen, notClose⟩ := ne_paren_of_mem_words text.plain (inValue.subset List.mem_cons_self)
  refine isBoundary_eq_false.mpr ⟨notOpen, notClose, ?_⟩
  cases matched : catalog.matchPhrase? (word :: rest ++ remaining) with
  | none => exact matched
  | some found =>
    obtain ⟨count, phrase⟩ := found
    obtain ⟨listed, _, _, place⟩ := indexed.phrases.of_longestMatch matched
    obtain ⟨apart, apartNext⟩ := phraseless phrase listed
    have begins := List.take_prefix count (word :: rest ++ remaining)
    rcases prefix_append_cases begins with inside | ⟨next, later, same, beyond⟩
    · exact absurd (place ▸ inside.map lowercase) apart
    · exact absurd (place ▸ beyond.map lowercase) (apartNext next (ends next later same))

theorem EndsFactor.isBoundary (indexed : catalog.Indexed) (separate : catalog.Separate)
    (ends : EndsFactor remaining) : isBoundary catalog remaining = true := by
  cases remaining with
  | nil => rfl
  | cons next later =>
    have logical (symbol : String) (listed : symbol ∈ Catalog.logicalOperators) (single : words symbol = [symbol]) :
        Reading.isBoundary catalog (symbol :: later) = true := by
      have matched := matchPhrase?_words indexed separate (Catalog.logical_mem_phraseList.mpr listed) later
      rw [Phrase.text, single] at matched
      exact isBoundary_of_match (Option.isSome_of_eq_some matched)
    have known := ends next later rfl
    simp only [factorEnds, List.mem_cons, List.not_mem_nil, or_false] at known
    rcases known with rfl | rfl | rfl
    · rfl
    · exact logical "AND" (by decide) (by decide)
    · exact logical "OR" (by decide) (by decide)

theorem scan_run {text : String}
    (unclaimed : catalogFactor? catalog passed (words text ++ remaining) = none)
    (unbroken : Unbroken catalog (words text) remaining) (stop : isBoundary catalog remaining = true)
    (governs : passed.find? Token.isParameter = some subject) (whole : Whole catalog subject text) :
    scanFrom catalog passed 0 (words text ++ remaining) = scanFrom catalog (.factor text :: passed) 0 remaining := by
  have factor := whole.runTokens governs
  have unnamed := whole.unnamed
  obtain ⟨word, rest, shape⟩ := List.exists_cons_of_ne_nil whole.nonblank
  rw [shape] at unclaimed unbroken factor unnamed ⊢
  have read : tokensAt catalog passed word (rest ++ remaining) = ([.factor text], (word :: rest).length) := by
    rw [tokensAt_of_run unclaimed unbroken stop unnamed, factor]
  exact scanFrom_step remaining read

/-- The name that begins the words is read first, in front of the words behind it. -/
theorem scan_begun {name rest : List String} {parameter : ParameterDef}
    (unclaimed : catalogFactor? catalog passed (name ++ rest ++ remaining) = none)
    (unbroken : Unbroken catalog (name ++ rest) remaining) (stop : isBoundary catalog remaining = true)
    (nonempty : name ≠ []) (matched : catalog.matchParameter? (name ++ rest) = some (name.length, parameter)) :
    scanFrom catalog passed 0 (name ++ (rest ++ remaining)) =
      scanFrom catalog (parameter.token :: passed) 0 (rest ++ remaining) := by
  obtain ⟨word, more, rfl⟩ := List.exists_cons_of_ne_nil nonempty
  have read : tokensAt catalog passed word (more ++ (rest ++ remaining)) =
      ([parameter.token], (word :: more).length) := by
    simp only [List.cons_append] at unclaimed unbroken matched
    rw [← List.append_assoc]
    exact tokensAt_of_name unclaimed unbroken stop matched
  exact scanFrom_step (rest ++ remaining) read

theorem scan_free (indexed : catalog.Indexed) (separate : catalog.Separate)
    (text : FreeText catalog subject value) (parameter : subject.isParameter = true) (ends : EndsFactor remaining) :
    ∃ piece, ReadAs (.factor value) piece ∧
      scanFrom catalog (.operator symbol :: subject :: earlier) 0 (words value ++ remaining) =
        scanFrom catalog (piece.reverse ++ .operator symbol :: subject :: earlier) 0 remaining := by
  have stop := ends.isBoundary indexed separate
  have unbroken := text.unbroken indexed ends
  have unclaimed := @FreeText.unclaimed catalog earlier remaining subject symbol value text ends
  cases text.one with
  | run whole =>
    exact ⟨_, .itself _, scan_run unclaimed unbroken stop (find?_operator parameter) whole⟩
  | @named begun listed =>
    have matched := matchParameter?_words indexed listed
    have nonempty := words_ne_nil_of_key (indexed.key_name_ne_nil listed)
    rw [← List.append_nil (words begun.name)] at unclaimed unbroken matched
    exact ⟨_, .named begun.name (some begun.id),
      scan_begun unclaimed unbroken stop nonempty (by simpa using matched)⟩
  | @begun begun rest matched whole =>
    have nonempty : words begun.name ≠ [] := List.length_pos_iff.mp (indexed.of_matchParameter? matched).2.1
    have apart (other : String) (later : List Token) :
        begun.token :: .operator symbol :: subject :: earlier ≠ .operator other :: later := by
      intro same
      cases same
    have governs : List.find? Token.isParameter (begun.token :: .operator symbol :: subject :: earlier) =
        some begun.token := rfl
    rw [words_append_space] at unclaimed unbroken ⊢
    have name := scan_begun unclaimed unbroken stop nonempty matched
    have behind := unbroken.of_suffix (List.suffix_append (words begun.name) (words rest))
    have run := scan_run (catalogFactor?_of_apart _ apart) behind stop governs whole
    refine ⟨_, .begun begun.name (some begun.id) rest, ?_⟩
    rw [List.append_assoc]
    exact name.trans run

end Factors

end Reading

end Criteria
