import Criteria.Proofs.CanonicalTokens
import Criteria.Proofs.WordSplitting
import Mathlib.Data.List.SplitBy
import Mathlib.Data.List.TakeWhile
/-!
How words are read in front of other words. Each lemma keeps the words that remain in view, since what stands behind
a text decides how far the longest match reaches and where a run ends.
-/

namespace Criteria.Reading

open Text

/-- A beginning of a joined list lies in its first part or goes on with the first word of the second. -/
theorem prefix_append_cases {first words remaining : List String} (begins : first <+: words ++ remaining) :
    first <+: words ∨ ∃ next later, remaining = next :: later ∧ words ++ [next] <+: first := by
  rcases List.prefix_or_prefix_of_prefix begins (List.prefix_append words remaining) with inside | beyond
  · exact .inl inside
  · obtain ⟨extra, rfl⟩ := beyond
    cases extra with
    | nil => exact .inl (by simp)
    | cons next more =>
      have begins : next :: more <+: remaining := (List.prefix_append_right_inj words).mp begins
      obtain ⟨later, rfl⟩ := begins
      exact .inr ⟨next, more ++ later, rfl, (List.prefix_append_right_inj words).mpr (by simp)⟩

theorem words_ne_nil_of_key {text : String} (keyed : PhraseTrie.key text ≠ []) : words text ≠ [] := by
  intro empty
  rw [PhraseTrie.key, empty] at keyed
  exact keyed rfl

variable {catalog : Catalog}

theorem longestForm_mem {forms : List (List String × String)} {form : List String × String}
    (longest : longestForm forms = some form) : form ∈ forms := by
  have inside : ∀ best, longestForm forms = some best → best ∈ forms := by
    unfold longestForm
    refine List.foldlRecOn (motive := fun found => ∀ best, found = some best → best ∈ forms) forms _ (by simp) ?_
    intro found known next member best same
    cases found with
    | none => exact Option.some.inj same ▸ member
    | some earlier =>
      dsimp only at same
      split at same
      · exact Option.some.inj same ▸ member
      · exact known best same
  exact inside form longest

theorem longestForm_isSome {forms : List (List String × String)} (nonempty : forms ≠ []) :
    (longestForm forms).isSome = true := by
  obtain ⟨first, rest, rfl⟩ := List.exists_cons_of_ne_nil nonempty
  unfold longestForm
  rw [List.foldl_cons]
  refine List.foldlRecOn (motive := fun found => Option.isSome found = true) rest _ rfl ?_
  intro found known next _
  cases found with
  | none => rfl
  | some earlier =>
    dsimp only
    split <;> rfl

/-- The spellings of a parameter's factors, each with the canonical one. -/
def forms (catalog : Catalog) (subject : Token) : List (List String × String) :=
  (Grammar.factorsOf catalog subject).flatMap factorForms

theorem catalogFactor?_of_apart {passed : List Token} (words : List String)
    (apart : ∀ symbol earlier, passed ≠ .operator symbol :: earlier) : catalogFactor? catalog passed words = none := by
  unfold catalogFactor?
  split
  next symbol subject earlier => exact absurd rfl (apart symbol (subject :: earlier))
  next => rfl

section Operand

variable {symbol : String} {subject : Token} {earlier : List Token} {words : List String}

theorem find?_operator (parameter : subject.isParameter = true) :
    List.find? Token.isParameter (.operator symbol :: subject :: earlier) = some subject := by
  rw [List.find?_cons_of_neg (by simp [Token.isParameter]), List.find?_cons_of_pos parameter]

theorem catalogFactor?_eq_none
    (formless : ∀ form ∈ forms catalog subject, form.1 ≠ [] → ¬ form.1 <+: words) :
    catalogFactor? catalog (.operator symbol :: subject :: earlier) words = none := by
  have missing : (forms catalog subject).filter (fun form => !form.1.isEmpty && form.1.isPrefixOf words) = [] := by
    rw [List.filter_eq_nil_iff]
    intro form member fits
    simp only [Bool.and_eq_true, Bool.not_eq_true', List.isEmpty_eq_false_iff, List.isPrefixOf_iff_prefix] at fits
    exact formless form member fits.1 fits.2
  unfold catalogFactor?
  dsimp only
  split
  next =>
    rw [forms] at missing
    rw [missing]
    rfl
  next => rfl

/-- The one taken is at least as long as each. -/
private theorem length_le_longestForm {forms : List (List String × String)} {best : List String × String}
    (longest : longestForm forms = some best) : ∀ form ∈ forms, form.1.length ≤ best.1.length := by
  obtain ⟨longer, folded, first, next⟩ : ∃ longer : Option (List String × String) → List String × String → _,
      longestForm forms = forms.foldl longer none ∧ (∀ form, longer none form = some form) ∧
      ∀ found form, longer (some found) form = if found.1.length ≤ form.1.length then some form else some found :=
    ⟨_, rfl, fun _ => rfl, fun _ _ => rfl⟩
  have kept (forms : List (List String × String)) (earlier : Option (List String × String))
      (longest : forms.foldl longer earlier = some best) :
      (∀ form ∈ earlier, form.1.length ≤ best.1.length) ∧ ∀ form ∈ forms, form.1.length ≤ best.1.length := by
    induction forms generalizing earlier with
    | nil =>
      obtain rfl : earlier = some best := longest
      simp
    | cons form forms ih =>
      rw [List.foldl_cons] at longest
      obtain ⟨here, later⟩ := ih _ longest
      cases earlier with
      | none =>
        rw [first] at here
        exact ⟨by simp, List.forall_mem_cons.mpr ⟨here form rfl, later⟩⟩
      | some found =>
        rw [next] at here
        split at here
        next shorter =>
          have last := here form rfl
          exact ⟨by simpa using shorter.trans last, List.forall_mem_cons.mpr ⟨last, later⟩⟩
        next longer =>
          have first := here found rfl
          exact ⟨by simpa using first, List.forall_mem_cons.mpr ⟨by omega, later⟩⟩
  exact (kept forms none (folded ▸ longest)).2

private theorem longestForm_of_longest {forms : List (List String × String)} {form : List String × String}
    (member : form ∈ forms) (longest : ∀ other ∈ forms, other = form ∨ other.1.length < form.1.length) :
    longestForm forms = some form := by
  obtain ⟨best, found⟩ := Option.isSome_iff_exists.mp (longestForm_isSome (List.ne_nil_of_mem member))
  rcases longest best (longestForm_mem found) with rfl | shorter
  · exact found
  · have reaches := length_le_longestForm found form member
    omega

/-- A spelling that reaches further than every other one that fits is taken whole. -/
theorem catalogFactor?_eq_some {value : String} (parameter : subject.isParameter = true)
    (member : (words, value) ∈ forms catalog subject) (nonempty : words ≠ []) {remaining : List String}
    (longest : ∀ form ∈ forms catalog subject, form.1 ≠ [] → form.1 <+: words ++ remaining →
      form = (words, value) ∨ form.1.length < words.length) :
    catalogFactor? catalog (.operator symbol :: subject :: earlier) (words ++ remaining) =
      some (words.length, value) := by
  have found : longestForm ((forms catalog subject).filter fun form =>
      !form.1.isEmpty && form.1.isPrefixOf (words ++ remaining)) = some (words, value) := by
    apply longestForm_of_longest
    · exact List.mem_filter.mpr ⟨member, by simp [nonempty]⟩
    · intro form kept
      obtain ⟨listed, fits⟩ := List.mem_filter.mp kept
      simp only [Bool.and_eq_true, Bool.not_eq_true', List.isEmpty_eq_false_iff, List.isPrefixOf_iff_prefix] at fits
      exact longest form listed fits.1 fits.2
  unfold catalogFactor?
  dsimp only
  rw [forms] at found
  rw [if_pos parameter, found]
  rfl

/-- If nothing more is listed at other words, and they begin with what is taken, then the same is taken there. -/
theorem catalogFactor?_of_fewer {others : List String}
    (fewer : ∀ form ∈ forms catalog subject, form.1 <+: others → form.1 <+: words)
    (kept : ∀ count value, catalogFactor? catalog (.operator symbol :: subject :: earlier) words = some (count, value) →
      words.take count <+: others) :
    catalogFactor? catalog (.operator symbol :: subject :: earlier) others =
      catalogFactor? catalog (.operator symbol :: subject :: earlier) words := by
  unfold catalogFactor? at kept ⊢
  dsimp only at kept ⊢
  rw [← forms] at kept ⊢
  split
  next parameter =>
    rw [if_pos parameter] at kept
    congr 2
    apply List.filter_congr
    intro form member
    rw [Bool.eq_iff_iff]
    simp only [Bool.and_eq_true, List.isPrefixOf_iff_prefix, and_congr_right_iff]
    intro nonempty
    refine ⟨fewer form member, fun begins => ?_⟩
    have fits : form ∈ (forms catalog subject).filter fun form => !form.1.isEmpty && form.1.isPrefixOf words :=
      List.mem_filter.mpr ⟨member, by simp [nonempty, List.isPrefixOf_iff_prefix.mpr begins]⟩
    obtain ⟨best, longest⟩ := Option.isSome_iff_exists.mp (longestForm_isSome (List.ne_nil_of_mem fits))
    have shorter := length_le_longestForm longest form fits
    refine List.IsPrefix.trans ?_ (kept _ _ (Option.map_eq_some_iff.mpr ⟨best, longest, rfl⟩))
    exact List.prefix_of_prefix_length_le begins (List.take_prefix _ _) (by
      rw [List.length_take]
      exact Nat.le_min.mpr ⟨shorter, begins.length_le⟩)
  next => rfl

end Operand

theorem isBoundary_eq_false {word : String} {rest : List String} :
    isBoundary catalog (word :: rest) = false ↔
      word ≠ "(" ∧ word ≠ ")" ∧ catalog.matchPhrase? (word :: rest) = none := by
  simp [isBoundary, and_assoc]

theorem isBoundary_of_match {words : List String} (matched : (catalog.matchPhrase? words).isSome = true) :
    isBoundary catalog words = true := by
  cases words with
  | nil => rfl
  | cons word rest => simp [isBoundary, matched]

/-- No boundary lies in these words when the others follow. -/
def Unbroken (catalog : Catalog) (words remaining : List String) : Prop :=
  ∀ suffix, suffix <:+ words → suffix ≠ [] → isBoundary catalog (suffix ++ remaining) = false

theorem Unbroken.of_suffix {words remaining suffix : List String} (unbroken : Unbroken catalog words remaining)
    (ends : suffix <:+ words) : Unbroken catalog suffix remaining :=
  fun shorter inside => unbroken shorter (inside.trans ends)

theorem untilBoundary_append {words remaining : List String} (unbroken : Unbroken catalog words remaining)
    (stop : isBoundary catalog remaining = true) : untilBoundary catalog (words ++ remaining) = words := by
  induction words with
  | nil =>
    cases remaining with
    | nil => rfl
    | cons word rest => rw [List.nil_append, untilBoundary, if_pos stop]
  | cons word words ih =>
    have inside := unbroken (word :: words) (List.suffix_refl _) (List.cons_ne_nil _ _)
    rw [List.cons_append] at inside ⊢
    rw [untilBoundary, inside, if_neg Bool.false_ne_true, ih (unbroken.of_suffix (List.suffix_cons _ _))]

section TokensAt

variable {passed : List Token} {word : String} {rest remaining : List String}

theorem tokensAt_of_factor {count : Nat} {value : String}
    (found : catalogFactor? catalog passed (word :: rest) = some (count, value)) :
    tokensAt catalog passed word rest = ([.factor value], count) := by
  unfold tokensAt
  rw [found]

theorem tokensAt_of_phrase (unclaimed : catalogFactor? catalog passed (word :: rest) = none)
    (notOpen : word ≠ "(") (notClose : word ≠ ")") {count : Nat} {phrase : Phrase}
    (matched : catalog.matchPhrase? (word :: rest) = some (count, phrase)) :
    tokensAt catalog passed word rest = ([phrase.token], count) := by
  unfold tokensAt
  rw [unclaimed]
  dsimp only
  rw [if_neg notOpen, if_neg notClose, matched]
  cases phrase <;> rfl

/-- Words without a boundary are a run, and nothing else takes the first of them. -/
private theorem Unbroken.run (unbroken : Unbroken catalog (word :: rest) remaining)
    (stop : isBoundary catalog remaining = true) :
    word ≠ "(" ∧ word ≠ ")" ∧ catalog.matchPhrase? (word :: (rest ++ remaining)) = none ∧
      untilBoundary catalog (rest ++ remaining) = rest := by
  have here := unbroken (word :: rest) (List.suffix_refl _) (List.cons_ne_nil _ _)
  rw [List.cons_append] at here
  obtain ⟨notOpen, notClose, unmatched⟩ := isBoundary_eq_false.mp here
  exact ⟨notOpen, notClose, unmatched, untilBoundary_append (unbroken.of_suffix (List.suffix_cons _ _)) stop⟩

theorem tokensAt_of_name (unclaimed : catalogFactor? catalog passed (word :: (rest ++ remaining)) = none)
    (unbroken : Unbroken catalog (word :: rest) remaining) (stop : isBoundary catalog remaining = true) {count : Nat}
    {parameter : ParameterDef} (matched : catalog.matchParameter? (word :: rest) = some (count, parameter)) :
    tokensAt catalog passed word (rest ++ remaining) = ([parameter.token], count) := by
  obtain ⟨notOpen, notClose, unmatched, run⟩ := unbroken.run stop
  simp only [tokensAt, unclaimed, notOpen, notClose, unmatched, run, matched, if_false, ParameterDef.token]

theorem tokensAt_of_run (unclaimed : catalogFactor? catalog passed (word :: (rest ++ remaining)) = none)
    (unbroken : Unbroken catalog (word :: rest) remaining) (stop : isBoundary catalog remaining = true)
    (unnamed : catalog.matchParameter? (word :: rest) = none) :
    tokensAt catalog passed word (rest ++ remaining) =
      (runTokens catalog passed (unwords (word :: rest)), (word :: rest).length) := by
  obtain ⟨notOpen, notClose, unmatched, run⟩ := unbroken.run stop
  simp only [tokensAt, unclaimed, notOpen, notClose, unmatched, run, unnamed, if_false]

end TokensAt

theorem blocks_of_forall {cs : List Char} (nonempty : cs ≠ []) (letters : ∀ c ∈ cs, isWordCharacter c = true) :
    blocks cs = [cs] := by
  unfold blocks
  apply List.splitBy_of_isChain nonempty
  apply List.Pairwise.isChain
  apply List.pairwise_of_forall_mem_list
  intro left first right second
  simp [letters left first, letters right second]

theorem cutBlocks_of_forall {pieces : List (List Char)} (plain : ∀ block ∈ pieces, isLogicalWord block = false)
    (pending : List Char) : cutBlocks pending pieces = factorPart (pending ++ pieces.flatten) := by
  induction pieces generalizing pending with
  | nil => rw [cutBlocks, List.flatten_nil, List.append_nil]
  | cons block pieces ih =>
    rw [cutBlocks, plain block List.mem_cons_self, if_neg Bool.false_ne_true,
      ih fun other member => plain other (List.mem_cons_of_mem _ member), List.append_assoc, List.flatten_cons]

theorem normalizeFactor_trim (text : String) : normalizeFactor (trim text) = normalizeFactor text := by
  simp only [normalizeFactor, collapse, words_trim]

theorem factorPart_of_nonblank {run : String} (nonblank : words run ≠ []) :
    factorPart run.toList = [.factor (normalizeFactor run)] := by
  have solid : trimBlank run.toList ≠ [] := by
    intro empty
    apply nonblank
    rw [← words_trim, words, toList_trim, empty, splitBlank_nil, List.map_nil]
  simp only [factorPart]
  rw [if_neg (by simpa using solid)]
  exact congrArg (fun value => [Token.factor value]) (normalizeFactor_trim run)

/-- A range that is closed up is a single word. -/
theorem closeRange_cases (text : List Char) :
    closeRange text = text ∨ closeRange text ≠ [] ∧ ∀ c ∈ closeRange text, isBlank c = false := by
  simp only [closeRange]
  split
  next rest _ =>
    split
    next joined =>
      simp only [Bool.and_eq_true, List.all_eq_true, Bool.not_eq_true'] at joined
      refine .inr ⟨by simp, ?_⟩
      intro c inside
      rcases List.mem_append.mp inside with lower | upper
      · simpa using List.all_eq_true.mp List.all_takeWhile c lower
      · rcases List.mem_cons.mp upper with rfl | upper
        · decide
        · exact joined.2 c upper
    next => exact .inl rfl
  next => exact .inl rfl

theorem unwords_words_of_normal {text : String} (normal : normalizeFactor text = text) :
    unwords (words text) = text := by
  rcases closeRange_cases (collapse text).toList with unchanged | ⟨nonempty, solid⟩
  · rw [normalizeFactor, unchanged, String.ofList_toList] at normal
    exact normal
  · have word : IsWord text := by
      rw [← normal, IsWord, normalizeFactor, String.toList_ofList]
      exact ⟨nonempty, solid⟩
    rw [words_of_isWord word, unwords_singleton]

theorem normalizeFactor_of_isWord {word : String} (solid : IsWord word) : normalizeFactor word = word := by
  have collapsed : collapse word = word := by
    rw [collapse, words_of_isWord solid, unwords_singleton]
  have passed : word.toList.dropWhile (!isBlank ·) = [] :=
    List.dropWhile_eq_nil_iff.mpr fun c inside => by simp [solid.2 c inside]
  rw [normalizeFactor, collapsed]
  simp only [closeRange]
  rw [passed]
  exact String.ofList_toList

/-- A run that is listed as a whole, or that has no logical operator in it, is one factor. -/
theorem runTokens_of_uncut {passed : List Token} {run : String} (nonblank : words run ≠ [])
    (uncut : ((passed.find? Token.isParameter).bind fun governing =>
        (Grammar.parameterId? catalog governing).bind (catalog.findFactor? · (normalizeFactor run))).isSome = true ∨
      ∀ block ∈ blocks run.toList, isLogicalWord block = false) :
    runTokens catalog passed run = [.factor (normalizeFactor run)] := by
  simp only [runTokens]
  split
  next => rfl
  next unknown =>
    have plain : ∀ block ∈ blocks run.toList, isLogicalWord block = false := uncut.resolve_left unknown
    rw [cutRun, cutBlocks_of_forall plain, List.nil_append, blocks, List.flatten_splitBy,
      factorPart_of_nonblank nonblank]

/-- Alone, the text is one run that reading keeps in one piece. -/
structure Whole (catalog : Catalog) (governing : Token) (text : String) : Prop where
  nonblank : words text ≠ []
  unnamed : catalog.matchParameter? (words text) = none
  normal : normalizeFactor text = text
  uncut : ((Grammar.parameterId? catalog governing).bind (catalog.findFactor? · text)).isSome = true ∨
    ∀ block ∈ blocks text.toList, isLogicalWord block = false

theorem Whole.runTokens {governing : Token} {text : String} (whole : Whole catalog governing text) {passed : List Token}
    (governs : passed.find? Token.isParameter = some governing) :
    runTokens catalog passed (unwords (words text)) = [.factor text] := by
  have read := @runTokens_of_uncut catalog passed text whole.nonblank
  rw [whole.normal, governs] at read
  rw [unwords_words_of_normal whole.normal]
  exact read whole.uncut

theorem scanFrom_taken (passed : List Token) (taken remaining : List String) :
    scanFrom catalog passed taken.length (taken ++ remaining) = scanFrom catalog passed 0 remaining := by
  induction taken with
  | nil => rfl
  | cons word taken ih =>
    rw [List.cons_append, List.length_cons, scanFrom, ih]

theorem scanFrom_step {passed tokens : List Token} {word : String} {rest : List String} (remaining : List String)
    (read : tokensAt catalog passed word (rest ++ remaining) = (tokens, (word :: rest).length)) :
    scanFrom catalog passed 0 (word :: rest ++ remaining) =
      scanFrom catalog (tokens.reverse ++ passed) 0 remaining := by
  rw [List.cons_append, scanFrom, read]
  dsimp only
  rw [List.length_cons, Nat.add_sub_cancel, scanFrom_taken]

end Criteria.Reading
