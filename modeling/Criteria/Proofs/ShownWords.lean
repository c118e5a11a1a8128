import Criteria.Proofs.SettledReading
/-!
Words that were shown are read as the tokens that they were shown for. Names and phrases that begin at shown words begin
at the words that were read, and a listed factor that begins there is resembled there. So each step finds the same.
-/

namespace Criteria

open Text

namespace Reading

variable {catalog : Catalog} {passed tokens : List Token} {token : Token}
  {taken remaining front others words shown : List String}

theorem expressionWords_of_key {text : String} (spelled : ∀ word ∈ taken, Spelled word)
    (same : taken.map lowercase = PhraseTrie.key text) : expressionWords text = Text.words text := by
  have single : ∀ word ∈ Text.words text, expressionWords word = [word] := by
    intro word member
    have lowered : lowercase word ∈ taken.map lowercase := same ▸ List.mem_map_of_mem member
    obtain ⟨other, inside, alike⟩ := List.mem_map.mp lowered
    obtain ⟨source, found⟩ := spelled other inside
    exact expressionWords_of_lowercase_eq found (isWord_of_mem_words member) alike.symm
  rw [expressionWords_eq_flatMap, List.flatMap_congr single, List.flatMap_singleton']

theorem expressionWords_name {parameter : ParameterDef} (spelled : ∀ word ∈ taken, Spelled word)
    (same : taken.map lowercase = PhraseTrie.key parameter.name) :
    (expressionWords parameter.token.text).map lowercase = taken.map lowercase := by
  rw [same, ParameterDef.token, Token.text, expressionWords_of_key spelled same, PhraseTrie.key]

theorem expressionWords_phrase_token {phrase : Phrase} (member : phrase ∈ catalog.phraseList)
    (spelled : ∀ word ∈ taken, Spelled word) (same : taken.map lowercase = PhraseTrie.key phrase.text) :
    (expressionWords phrase.token.text).map lowercase = taken.map lowercase := by
  rw [Catalog.text_token member, same, expressionWords_of_key spelled same, PhraseTrie.key]

theorem not_paren_of_unbroken (unbroken : Unbroken catalog taken remaining) {word : String} (member : word ∈ taken) :
    word ≠ "(" ∧ word ≠ ")" := by
  obtain ⟨before, after, shape⟩ := List.append_of_mem member
  have inside := unbroken (word :: after) ⟨before, shape.symm⟩ (List.cons_ne_nil _ _)
  rw [List.cons_append] at inside
  obtain ⟨notOpen, notClose, _⟩ := isBoundary_eq_false.mp inside
  exact ⟨notOpen, notClose⟩

theorem expressionWords_run (unbroken : Unbroken catalog taken remaining) (spelled : ∀ word ∈ taken, Spelled word) :
    normalizeFactor (unwords taken) = unwords taken ∧ expressionWords (normalizeFactor (unwords taken)) = taken ∨
      ∃ lower upper, taken = [lower, "-", upper] ∧ IsWord (lower ++ "-" ++ upper) ∧
        normalizeFactor (unwords taken) = lower ++ "-" ++ upper ∧
        expressionWords (normalizeFactor (unwords taken)) = [lower ++ "-" ++ upper] := by
  rcases normalizeFactor_unwords fun word member => (spelled word member).isWord with same | ⟨lower, upper, rfl, same⟩
  · refine .inl ⟨same, ?_⟩
    rw [same, expressionWords_unwords]
    refine (List.flatMap_congr fun word member => ?_).trans (List.flatMap_singleton' taken)
    exact expressionWords_of_mem (spelled word member).choose_spec
  · right
    have plain {word : String} (member : word ∈ [lower, "-", upper]) : Plain word := by
      obtain ⟨notOpen, notClose⟩ := not_paren_of_unbroken unbroken member
      rcases paren_or_plain (spelled word member).choose_spec with opens | closes | plain
      · exact absurd opens notOpen
      · exact absurd closes notClose
      · exact plain
    have solid {word : String} (member : word ∈ [lower, "-", upper]) : IsWord word := (spelled word member).isWord
    have joined : IsWord (lower ++ "-" ++ upper) ∧ Plain (lower ++ "-" ++ upper) := by
      have parts (c : Char) (inside : c ∈ (lower ++ "-" ++ upper).toList) :
          ∃ word ∈ [lower, "-", upper], c ∈ word.toList := by
        simpa [or_assoc] using inside
      refine ⟨⟨by simp, ?_⟩, ?_⟩
      · intro c inside
        obtain ⟨word, member, here⟩ := parts c inside
        exact (solid member).2 c here
      · intro c inside
        obtain ⟨word, member, here⟩ := parts c inside
        exact plain member c here
    refine ⟨lower, upper, rfl, joined.1, same, ?_⟩
    rw [same, expressionWords_of_plain joined.2, words_of_isWord joined.1]

/-- The words of a token are the words it was read from, up to letter case or closed up. -/
theorem Piece.shows (indexed : catalog.Indexed) (piece : Piece catalog passed remaining taken token)
    (spelled : ∀ word ∈ taken, Spelled word) :
    (expressionWords token.text).map lowercase = taken.map lowercase ∨
      ∃ lower upper, taken = [lower, "-", upper] ∧ expressionWords token.text = [lower ++ "-" ++ upper] ∧
        Unkeyed catalog (lower ++ "-" ++ upper) ∧ token.kind = .factor := by
  cases piece with
  | paren listed =>
    simp only [List.mem_cons, Prod.mk.injEq, List.not_mem_nil, or_false] at listed
    rcases listed with ⟨rfl, rfl⟩ | ⟨rfl, rfl⟩ <;> exact .inl (by decide)
  | phrase _ _ matched =>
    obtain ⟨member, _, _, place⟩ := indexed.phrases.of_longestMatch matched
    rw [List.take_left] at place
    exact .inl (expressionWords_phrase_token member spelled place)
  | name _ _ matched =>
    obtain ⟨_, _, _, place⟩ := indexed.of_matchParameter? matched
    rw [List.take_left] at place
    exact .inl (expressionWords_name spelled place)
  | run _ unbroken _ _ _ closed =>
    rcases expressionWords_run unbroken spelled with ⟨_, same⟩ | ⟨lower, upper, rfl, _, _, same⟩
    · exact .inl (congrArg (List.map lowercase) same)
    · exact .inr ⟨lower, upper, rfl, same, closed lower upper rfl, rfl⟩

/-- A key that begins at the words behind a common front begins at the others if the rest of it does. -/
theorem prefix_of_alike {key : List String} (same : front.map lowercase = taken.map lowercase)
    (later : ∀ rest, key = front.map lowercase ++ rest → rest <+: others.map lowercase →
      rest <+: remaining.map lowercase)
    (begins : key <+: (front ++ others).map lowercase) : key <+: (taken ++ remaining).map lowercase := by
  rw [List.map_append] at begins ⊢
  rw [← same]
  rcases List.prefix_or_prefix_of_prefix begins (List.prefix_append _ _) with inside | ⟨rest, rfl⟩
  · exact inside.trans (List.prefix_append _ _)
  · exact (List.prefix_append_right_inj _).mpr (later rest rfl ((List.prefix_append_right_inj _).mp begins))

/-- The longest match is found again at words alike if no other one reaches further there. -/
theorem longestMatch_of_alike {α : Type} {trie : PhraseTrie α} {text : α → String} {members : List α} {value : α}
    (keyed : trie.Keyed text members) (matched : trie.longestMatch (taken ++ remaining) = some (taken.length, value))
    (same : front.map lowercase = taken.map lowercase)
    (later : ∀ other ∈ members, ∀ rest, PhraseTrie.key (text other) = front.map lowercase ++ rest →
      rest <+: others.map lowercase → rest <+: remaining.map lowercase) :
    trie.longestMatch (front ++ others) = some (front.length, value) := by
  obtain ⟨longest, _⟩ := keyed.longestMatch_eq_some.mp matched
  obtain ⟨member, _, _, place⟩ := keyed.of_longestMatch matched
  rw [List.take_left, ← same] at place
  refine keyed.longestMatch_eq_some.mpr ⟨⟨member, ?_, ?_⟩, ?_⟩
  · rw [List.map_append, place]
    exact List.prefix_append _ _
  · exact fun other known begins => longest.longest other known (prefix_of_alike same (later other known) begins)
  · rw [← place, List.length_map]

theorem matchParameter?_of_alike (indexed : catalog.Indexed) {parameter : ParameterDef}
    (matched : catalog.matchParameter? (taken ++ remaining) = some (taken.length, parameter))
    (same : front.map lowercase = taken.map lowercase)
    (later : ∀ other ∈ catalog.parameters, ∀ rest, PhraseTrie.key other.name = front.map lowercase ++ rest →
      rest <+: others.map lowercase → rest <+: remaining.map lowercase) :
    catalog.matchParameter? (front ++ others) = some (front.length, parameter) := by
  obtain ⟨index, held, rfl⟩ := Catalog.matchParameter?_eq_some.mp matched
  refine Catalog.matchParameter?_eq_some.mpr ⟨index, ?_, rfl⟩
  exact longestMatch_of_alike indexed.parameters.names held same fun other _ => later _ (List.get_mem ..)

theorem nil_of_unkeyed {key : List String} {word : String} (unkeyed : lowercase word ∉ key)
    (begins : key <+: (word :: others).map lowercase) : key = [] := by
  cases key with
  | nil => rfl
  | cons first rest =>
    obtain ⟨rfl, _⟩ := List.cons_prefix_cons.mp begins
    exact absurd List.mem_cons_self unkeyed

theorem solid_of_mem_forms {subject : Token} {form : List String × String} (member : form ∈ forms catalog subject) :
    ∀ word ∈ form.1, IsWord word := by
  obtain ⟨factor, _, spelled⟩ := List.mem_flatMap.mp member
  have shape : ∃ text, form.1 = expressionWords text := by
    simp only [factorForms, List.mem_cons, List.not_mem_nil, or_false] at spelled
    rcases spelled with same | same
    · exact ⟨factor.canonical, by rw [same]⟩
    · exact ⟨factor.spaced, by rw [same]⟩
  obtain ⟨text, same⟩ := shape
  intro word inside
  rw [same] at inside
  exact isWord_of_mem_expressionWords inside

theorem flatMap_fold_ne_nil (solid : ∀ word ∈ words, IsWord word) (nonempty : words ≠ []) :
    words.flatMap fold ≠ [] := by
  obtain ⟨word, rest, rfl⟩ := List.exists_cons_of_ne_nil nonempty
  rw [List.flatMap_cons]
  exact List.append_ne_nil_of_left_ne_nil (fold_ne_nil_iff.mpr (solid word List.mem_cons_self).nonblank) _

section Listed

variable {symbol value : String} {subject : Token} {earlier : List Token}

theorem mem_forms_of_found (found : catalogFactor? catalog (.operator symbol :: subject :: earlier)
    (taken ++ remaining) = some (taken.length, value)) : (taken, value) ∈ forms catalog subject ∧ taken ≠ [] := by
  obtain ⟨_, _, _, shape, _, held, positive, _⟩ := catalogFactor?_shape found
  obtain ⟨_, rest⟩ := List.cons.inj shape
  obtain ⟨rfl, _⟩ := List.cons.inj rest
  rw [List.take_left] at held
  exact ⟨held, List.length_pos_iff.mp positive⟩

theorem spelling_ne_nil (found : catalogFactor? catalog (.operator symbol :: subject :: earlier)
    (taken ++ remaining) = some (taken.length, value)) (offered : (shown, value) ∈ forms catalog subject) :
    shown ≠ [] := by
  rintro rfl
  obtain ⟨held, nonempty⟩ := mem_forms_of_found found
  apply flatMap_fold_ne_nil (solid_of_mem_forms held) nonempty
  rw [(mem_forms held).1, ← (mem_forms offered).1]
  rfl

end Listed

theorem phrase_begins (indexed : catalog.Indexed) (spelled : ∀ word ∈ words, Spelled word)
    (reread : Reread catalog passed words shown tokens) {phrase : Phrase} (member : phrase ∈ catalog.phraseList)
    {key : List String} (part : key ⊆ PhraseTrie.key phrase.text) (begins : key <+: shown.map lowercase) :
    key <+: words.map lowercase := by
  induction reread generalizing key with
  | nil => exact begins
  | @listed symbol value parameter earlier tokens taken remaining shown others known found longest steady offered
      later ih =>
    by_cases same : shown = taken
    · subst same
      refine prefix_of_alike rfl (fun rest shape => ih (fun word inside => spelled word (by simp [inside])) ?_) begins
      exact fun word inside => part (shape ▸ List.mem_append_right _ inside)
    · cases shown with
      | nil => exact absurd rfl (spelling_ne_nil found offered)
      | cons word shown =>
        have unkeyed := steady.unspoken _ offered same word rfl phrase member
        exact nil_of_unkeyed (fun inside => unkeyed (part inside)) begins ▸ List.nil_prefix
  | @kept passed tokens taken remaining others token formless piece later ih =>
    have front : ∀ word ∈ taken, Spelled word := fun word inside => spelled word (List.mem_append_left _ inside)
    rcases piece.shows indexed front with same | ⟨lower, upper, rfl, same, unkeyed, _⟩
    · refine prefix_of_alike same (fun rest shape => ih (fun word inside => spelled word (by simp [inside])) ?_) begins
      exact fun word inside => part (shape ▸ List.mem_append_right _ inside)
    · rw [same] at begins
      exact nil_of_unkeyed (fun inside => unkeyed.phrases phrase member (part inside)) begins ▸ List.nil_prefix

theorem paren_of_lowercase_eq {word paren : String} (spelled : Spelled word) (listed : paren ∈ ["(", ")"])
    (same : lowercase word = lowercase paren) : word = paren := by
  have other : lowercase "(" ≠ lowercase ")" := by decide
  have held (c : Char) (is_paren : IsParen c) : c ∈ word.toList ↔ c ∈ paren.toList := by
    rw [← mem_lowercase_of_isParen is_paren, same, mem_lowercase_of_isParen is_paren]
  obtain ⟨text, member⟩ := spelled
  simp only [List.mem_cons, List.not_mem_nil, or_false] at listed
  rcases paren_or_plain member with rfl | rfl | plain
  · rcases listed with rfl | rfl
    · rfl
    · exact absurd same other
  · rcases listed with rfl | rfl
    · exact absurd same.symm other
    · rfl
  · rcases listed with rfl | rfl
    · exact absurd rfl (plain '(' ((held '(' (.inl rfl)).mpr (by decide))).1
    · exact absurd rfl (plain ')' ((held ')' (.inr rfl)).mpr (by decide))).2

theorem untilBoundary_of_isBoundary (stop : isBoundary catalog words = true) : untilBoundary catalog words = [] := by
  cases words with
  | nil => rfl
  | cons word rest => rw [untilBoundary, if_pos stop]

theorem Piece.unbroken (piece : Piece catalog passed remaining taken token)
    (inside : isBoundary catalog (taken ++ remaining) = false) :
    Unbroken catalog taken remaining ∧ token.kind ≠ .operator := by
  cases piece with
  | paren listed =>
    simp only [List.mem_cons, Prod.mk.injEq, List.not_mem_nil, or_false] at listed
    rcases listed with ⟨rfl, rfl⟩ | ⟨rfl, rfl⟩ <;> cases inside
  | phrase _ _ matched =>
    rw [isBoundary_of_match (by rw [matched]; rfl)] at inside
    cases inside
  | name _ unbroken => exact ⟨unbroken, by simp [ParameterDef.token, Token.kind]⟩
  | run _ unbroken => exact ⟨unbroken, by simp [Token.kind]⟩

section Steps

variable (indexed : catalog.Indexed)

include indexed

/-- Where no boundary lies among the words that were read, none lies among those shown for them. -/
theorem Unbroken.shows (unbroken : Unbroken catalog taken remaining) (spelled : ∀ word ∈ taken, Spelled word)
    (spelledLater : ∀ word ∈ remaining, Spelled word) (later : Reread catalog passed remaining others tokens)
    (same : front.map lowercase = taken.map lowercase) : Unbroken catalog front others := by
  intro suffix ends nonempty
  obtain ⟨count, rfl⟩ : ∃ count, suffix = front.drop count := ⟨_, List.suffix_iff_eq_drop.mp ends⟩
  have alike : (front.drop count).map lowercase = (taken.drop count).map lowercase := by
    rw [List.map_drop, same, List.map_drop]
  have solid : taken.drop count ≠ [] := by
    intro empty
    rw [empty] at alike
    exact nonempty (List.map_eq_nil_iff.mp alike)
  have before := unbroken (taken.drop count) (List.drop_suffix ..) solid
  obtain ⟨word, rest, shape⟩ := List.exists_cons_of_ne_nil nonempty
  obtain ⟨other, more, shape'⟩ := List.exists_cons_of_ne_nil solid
  have first : lowercase word = lowercase other := by
    rw [shape, shape'] at alike
    exact (List.cons.inj alike).1
  have inside : other ∈ taken := List.mem_of_mem_drop (shape' ▸ List.mem_cons_self)
  rw [shape', List.cons_append] at before
  obtain ⟨notOpen, notClose, unmatched⟩ := isBoundary_eq_false.mp before
  rw [shape, List.cons_append]
  refine isBoundary_eq_false.mpr ⟨?_, ?_, ?_⟩
  · rintro rfl
    exact notOpen (paren_of_lowercase_eq (spelled other inside) (by simp) first.symm)
  · rintro rfl
    exact notClose (paren_of_lowercase_eq (spelled other inside) (by simp) first.symm)
  · rw [Catalog.matchPhrase?, indexed.phrases.longestMatch_eq_none] at unmatched ⊢
    intro phrase member begins
    apply unmatched phrase member
    rw [← List.cons_append, ← shape] at begins
    rw [← List.cons_append, ← shape']
    refine prefix_of_alike alike (fun rest split => phrase_begins indexed spelledLater later member ?_) begins
    exact fun word inside => split ▸ List.mem_append_right _ inside

theorem Reread.isBoundary (reread : Reread catalog passed words shown tokens) (spelled : ∀ word ∈ words, Spelled word)
    (apart : ∀ symbol earlier, passed ≠ .operator symbol :: earlier) (stop : isBoundary catalog words = true) :
    isBoundary catalog shown = true := by
  cases reread with
  | nil => rfl
  | listed => exact absurd rfl (apart _ _)
  | @kept _ _ taken remaining others token formless piece later =>
    have inside : ∀ word ∈ taken, Spelled word := fun word member => spelled word (List.mem_append_left _ member)
    have unstopped {taken : List String} (nonempty : taken ≠ []) (unbroken : Unbroken catalog taken remaining) :
        Reading.isBoundary catalog (taken ++ remaining) = false := unbroken taken (List.suffix_refl _) nonempty
    cases piece with
    | paren listed =>
      simp only [List.mem_cons, Prod.mk.injEq, List.not_mem_nil, or_false] at listed
      rcases listed with ⟨rfl, rfl⟩ | ⟨rfl, rfl⟩ <;> rfl
    | @phrase word rest phrase notOpen notClose matched =>
      obtain ⟨member, _, _, place⟩ := indexed.phrases.of_longestMatch matched
      rw [List.take_left] at place
      have begins : PhraseTrie.key phrase.text <+: (expressionWords phrase.token.text ++ others).map lowercase := by
        rw [List.map_append, expressionWords_phrase_token member inside place, place]
        exact List.prefix_append _ _
      obtain ⟨count, stored, found, _⟩ := indexed.phrases.exists_longestMatch member begins
      exact isBoundary_of_match (by rw [Catalog.matchPhrase?, found]; rfl)
    | name nonempty unbroken => rw [unstopped nonempty unbroken] at stop; cases stop
    | run nonempty unbroken => rw [unstopped nonempty unbroken] at stop; cases stop

/-- A name that begins at the shown words of a run, or goes on behind them, begins at the words that were read. -/
theorem name_begins (reread : Reread catalog passed words shown tokens) (spelled : ∀ word ∈ words, Spelled word)
    (apart : ∀ symbol earlier, passed ≠ .operator symbol :: earlier) {parameter : ParameterDef}
    (known : parameter ∈ catalog.parameters) {key : List String} (part : key ⊆ PhraseTrie.key parameter.name)
    (begins : key <+: (untilBoundary catalog shown).map lowercase) :
    key <+: (untilBoundary catalog words).map lowercase := by
  induction reread generalizing key with
  | nil => exact begins
  | listed => exact absurd rfl (apart _ _)
  | @kept passed tokens taken remaining others token formless piece later ih =>
    have front : ∀ word ∈ taken, Spelled word := fun word member => spelled word (List.mem_append_left _ member)
    have behind : ∀ word ∈ remaining, Spelled word := fun word member => spelled word (List.mem_append_right _ member)
    cases stop : Reading.isBoundary catalog (taken ++ remaining) with
    | true =>
      have shownStop := (Reread.kept formless piece later).isBoundary indexed spelled apart stop
      rw [untilBoundary_of_isBoundary shownStop] at begins
      rw [List.prefix_nil.mp begins]
      exact List.nil_prefix
    | false =>
      obtain ⟨unbroken, solid⟩ := piece.unbroken stop
      rw [untilBoundary_append_unbroken unbroken]
      rcases piece.shows indexed front with same | ⟨lower, upper, rfl, same, unkeyed, _⟩
      · rw [untilBoundary_append_unbroken (unbroken.shows indexed front behind later same)] at begins
        refine prefix_of_alike same (fun rest shape => ih behind ?_ ?_) begins
        · rintro symbol earlier shape
          obtain ⟨rfl, _⟩ := List.cons.inj shape
          exact solid rfl
        · exact fun word inside => part (shape ▸ List.mem_append_right _ inside)
      · rw [same] at begins
        have within : untilBoundary catalog ([lower ++ "-" ++ upper] ++ others) <+: [lower ++ "-" ++ upper] ++ others :=
          untilBoundary_prefix _
        have begins := begins.trans (within.map lowercase)
        exact nil_of_unkeyed (fun inside => unkeyed.names parameter known (part inside)) begins ▸ List.nil_prefix

end Steps

end Reading

end Criteria
