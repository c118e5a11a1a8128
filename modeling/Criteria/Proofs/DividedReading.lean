import Criteria.Proofs.DividedTexts
import Criteria.Proofs.LetterCase
/-!
Reading a divided text. Its steps are those of the text, but for the runs that were cut: these are read group by group,
and the names among the groups are recognized. Repairing makes the same of both readings, so the text and the divided
text are read as the same tokens.
-/

namespace Criteria.Reading

open Text

variable {catalog : Catalog} {passed tokens recognized piece : List Token} {words taken remaining rest : List String}
  {held : List Shard}

/-- The parts of a run, with other words behind it: factors and names between logical operators. -/
structure Groups (catalog : Catalog) (follows : Prop) (behind words : List String) : Prop where
  inner : ∀ word tail, word :: tail <:+ words → isLogicalWord word.toList = false →
    isBoundary catalog (word :: tail ++ behind) = false
  outer : ∀ word tail, word :: tail <:+ words → isLogicalWord word.toList = true →
    word ∈ Catalog.logicalOperators ∧ catalog.matchPhrase? (word :: tail ++ behind) = some (1, .logical word)
  silent : ∀ word ∈ words, isLogicalWord word.toList = false → IsWord word ∧ ¬ Spoken word.toList
  named : ∀ word tail, word :: tail <:+ words → isLogicalWord word.toList = true → untilLogical tail ≠ [] →
    Named catalog (tail = untilLogical tail ∧ follows) (untilLogical tail)

section Groups

variable {behind pending : List String} {follows ends : Prop}

theorem Groups.of_suffix (groups : Groups catalog follows behind words) (within : rest <:+ words) :
    Groups catalog follows behind rest where
  inner := fun word tail suffix => groups.inner word tail (suffix.trans within)
  outer := fun word tail suffix => groups.outer word tail (suffix.trans within)
  silent := fun word member => groups.silent word (within.subset member)
  named := fun word tail suffix => groups.named word tail (suffix.trans within)

/-- The words up to a boundary are read in one step, if there are any, and behind them no listed factor is read. -/
theorem read_group (stop : isBoundary catalog behind = true) (unbroken : Unbroken catalog pending behind)
    (silent : ∀ word ∈ pending, IsWord word ∧ ¬ Spoken word.toList)
    (named : pending ≠ [] → Named catalog ends pending)
    (unclaimed : catalogFactor? catalog passed (pending ++ behind) = none) :
    ∃ (read : List Step) (tokens : List Token), (∀ step ∈ read, step.1.length = 1) ∧
      read.flatMap Prod.fst = tokens ∧ tokens = (factorPart (unwords pending).toList).map (recognize catalog) ∧
      stepsFrom catalog passed 0 (pending ++ behind) =
        read ++ stepsFrom catalog (tokens.reverse ++ passed) 0 behind ∧
      catalogFactor? catalog (tokens.reverse ++ passed) behind = none := by
  by_cases nonempty : pending = []
  · subst nonempty
    exact ⟨[], [], by simp, rfl, rfl, rfl, unclaimed⟩
  have solid : ∀ word ∈ pending, IsWord word := fun word member => (silent word member).1
  have one : factorPart (unwords pending).toList = [.factor (normalizeFactor (unwords pending))] :=
    factorPart_of_nonblank (by rwa [unwords_of_solid solid])
  obtain ⟨token, same, solid', reads⟩ :
      ∃ token, token = recognize catalog (.factor (normalizeFactor (unwords pending))) ∧
        token.kind ≠ .operator ∧ Reads catalog passed behind pending [token] := by
    refine ⟨_, rfl, ?_⟩
    rcases named nonempty with ⟨unnamed, unknown⟩ | ⟨parameter, matched, found⟩
    · have run : Stretch catalog passed behind pending _ := .run nonempty unbroken stop unnamed
      rw [runTokens_of_kept nonempty solid (.inr fun word member => (silent word member).2)] at run
      rw [recognize, unknown]
      exact ⟨by simp [Token.kind], .stretch unclaimed run⟩
    · rw [recognize, found]
      refine ⟨by simp [ParameterDef.token, Token.kind], .stretch unclaimed (.name nonempty unbroken ?_)⟩
      rw [untilBoundary_of_isBoundary stop, List.append_nil, matched]
  refine ⟨[([token], pending)], [token], by simp, rfl, by simp [one, same], reads.steps, ?_⟩
  exact catalogFactor?_of_apart _ (apart_of_kinds (List.cons_ne_nil _ _) (List.forall_mem_singleton.mpr solid'))

theorem unbroken_of_inner (groups : Groups catalog follows behind (pending ++ rest))
    (plain : ∀ word ∈ pending, isLogicalWord word.toList = false) : Unbroken catalog pending (rest ++ behind) := by
  intro suffix ends nonempty
  obtain ⟨word, tail, rfl⟩ := List.exists_cons_of_ne_nil nonempty
  obtain ⟨front, rfl⟩ := ends
  have within : word :: (tail ++ rest) <:+ front ++ word :: tail ++ rest := ⟨front, by simp⟩
  have inside := groups.inner word (tail ++ rest) within (plain word (by simp))
  rwa [List.cons_append, List.append_assoc] at inside

/-- A divided run is read group by group. -/
theorem read_groups (pending rest : List String) (stop : isBoundary catalog behind = true)
    (groups : Groups catalog follows behind (pending ++ rest))
    (plain : ∀ word ∈ pending, isLogicalWord word.toList = false)
    (first : pending ++ untilLogical rest ≠ [] → Named catalog ends (pending ++ untilLogical rest))
    (unclaimed : catalogFactor? catalog passed (pending ++ rest ++ behind) = none) :
    ∃ read : List Step, (∀ step ∈ read, step.1.length = 1) ∧
      read.flatMap Prod.fst = (cutWords pending rest).map (recognize catalog) ∧
      stepsFrom catalog passed 0 (pending ++ rest ++ behind) =
        read ++ stepsFrom catalog (((cutWords pending rest).map (recognize catalog)).reverse ++ passed) 0 behind := by
  have silent : ∀ word ∈ pending, IsWord word ∧ ¬ Spoken word.toList :=
    fun word member => groups.silent word (List.mem_append_left _ member) (plain word member)
  induction rest generalizing pending passed ends with
  | nil =>
    have unbroken := unbroken_of_inner groups plain
    rw [List.append_nil] at unclaimed ⊢
    obtain ⟨read, _, singles, shown, rfl, steps, _⟩ :=
      read_group stop unbroken silent (by simpa [untilLogical] using first) unclaimed
    exact ⟨read, singles, shown, steps⟩
  | cons word rest ih =>
    cases logical : isLogicalWord word.toList with
    | false =>
      have onward : untilLogical (word :: rest) = word :: untilLogical rest := by simp [untilLogical, logical]
      rw [cutWords, logical, if_neg Bool.false_ne_true]
      rw [onward, List.append_cons] at first
      rw [List.append_cons pending word rest] at groups unclaimed ⊢
      refine ih _ groups ?_ first unclaimed (List.forall_mem_append.mpr ⟨silent, ?_⟩)
      · exact List.forall_mem_append.mpr ⟨plain, List.forall_mem_singleton.mpr logical⟩
      · exact List.forall_mem_singleton.mpr (groups.silent word (by simp) logical)
    | true =>
      have onward : untilLogical (word :: rest) = [] := by simp [untilLogical, logical]
      obtain ⟨listed, matched⟩ := groups.outer word rest (List.suffix_append ..) logical
      rw [onward, List.append_nil] at first
      rw [List.append_assoc] at unclaimed ⊢
      obtain ⟨before, tokens, singles, shown, same, read, onward⟩ := read_group
        (isBoundary_of_match (by rw [matched]; rfl)) (unbroken_of_inner groups plain) silent first unclaimed
      have phrase : ∀ symbol ∈ Catalog.logicalOperators, symbol ≠ "(" ∧ symbol ≠ ")" := by decide
      have here : Reads catalog (tokens.reverse ++ passed) (rest ++ behind) [word] [(Phrase.logical word).token] :=
        .stretch onward (.phrase (phrase word listed).1 (phrase word listed).2 matched)
      obtain ⟨after, laterSingles, laterShown, laterRead⟩ := @ih
        ([(Phrase.logical word).token].reverse ++ (tokens.reverse ++ passed)) _ []
        (groups.of_suffix ((List.suffix_cons _ _).trans (List.suffix_append ..))) (by simp)
        (groups.named word rest (List.suffix_append ..) logical)
        (catalogFactor?_of_apart _ (by simp [Phrase.token, Token.logical])) (by simp)
      refine ⟨before ++ ([(Phrase.logical word).token], [word]) :: after, ?_, ?_, ?_⟩
      · exact List.forall_mem_append.mpr ⟨singles, List.forall_mem_cons.mpr ⟨rfl, laterSingles⟩⟩
      · rw [cutWords, if_pos logical, List.flatMap_append, List.flatMap_cons, shown, laterShown, same]
        simp [Phrase.token, Token.logical, recognize]
      · have steps := here.steps
        rw [List.singleton_append, ← List.nil_append rest, laterRead] at steps
        rw [read, List.cons_append, ← List.nil_append rest, steps, cutWords, if_pos logical, same]
        simp [Phrase.token, Token.logical, recognize]

theorem isLogicalWord_of_lowercase {symbol word : String} (listed : symbol ∈ Catalog.logicalOperators)
    (same : lowercase word = lowercase symbol) : isLogicalWord word.toList = true := by
  have logical : ∀ symbol ∈ Catalog.logicalOperators,
      (lowercase symbol).toList = ['a', 'n', 'd'] ∨ (lowercase symbol).toList = ['o', 'r'] := by decide
  have spelled := logical symbol listed
  rw [← same] at spelled
  have plain : ∀ letter ∈ (lowercase word).toList, PlainLetter letter := by
    rcases spelled with letters | letters <;> simp [letters, PlainLetter]
  rw [isLogicalWord, ← lowercase_of_ascii (ascii_of_lowercase plain)]
  simpa using spelled

theorem suffix_append {less more : List Shard} (ends : less <:+ more) : less ++ held <:+ more ++ held := by
  obtain ⟨front, rfl⟩ := ends
  exact ⟨front, by rw [List.append_assoc]⟩

theorem key_of_logicalOperator {symbol : String} (listed : symbol ∈ Catalog.logicalOperators) :
    PhraseTrie.key symbol = [lowercase symbol] := by
  have keys : ∀ symbol ∈ Catalog.logicalOperators, PhraseTrie.key symbol = [lowercase symbol] := by decide
  exact keys symbol listed

theorem isWord_of_spelled (spelled : ∀ word ∈ words, Spelled word) : ∀ word ∈ words, IsWord word :=
  fun word member => (spelled word member).isWord

theorem exists_suffix_shards {word : String} {tail : List String} (within : word :: tail <:+ taken.flatMap parts) :
    ∃ (shard : Shard) (others : List Shard), shard :: others <:+ taken.flatMap shards ∧ word = shard.text ∧
      tail = others.map Shard.text := by
  rw [← text_shards] at within
  obtain ⟨suffix, ends, same⟩ := List.suffix_map_iff.mp within
  cases suffix with
  | nil => cases same
  | cons shard others =>
    obtain ⟨rfl, rfl⟩ := List.cons.inj same
    exact ⟨shard, others, ends, rfl, rfl⟩

theorem suffix_shards (solid : ∀ word ∈ taken, IsWord word) (plain : ∀ word ∈ taken, isLogicalWord word.toList = false)
    {shard : Shard} {tail : List Shard} (within : shard :: tail <:+ taken.flatMap shards) :
    (∃ (word : String) (later : List String),
        shard = ⟨word, false⟩ ∧ word :: later <:+ taken ∧ tail = later.flatMap shards) ∨
      shard.cut = true ∧ ∃ other ∈ taken, shard.text ∈ parts other := by
  induction taken with
  | nil => simp at within
  | cons first taken ih =>
    rw [List.forall_mem_cons] at solid plain
    rw [List.flatMap_cons] at within
    have onward (within : shard :: tail <:+ taken.flatMap shards) :=
      (ih solid.2 plain.2 within).imp
        (fun ⟨word, later, whole, ends, same⟩ => (⟨word, later, whole, ends.trans (List.suffix_cons first _), same⟩ :
          ∃ (word : String) (later : List String),
            shard = Shard.mk word false ∧ word :: later <:+ first :: taken ∧ tail = later.flatMap shards))
        fun ⟨cut, other, member, part⟩ => (⟨cut, other, List.mem_cons_of_mem first member, part⟩ :
          shard.cut = true ∧ ∃ other ∈ first :: taken, shard.text ∈ parts other)
    rcases List.suffix_or_suffix_of_suffix within (List.suffix_append ..) with inside | ⟨front, shape⟩
    · exact onward inside
    cases front with
    | nil => exact onward (shape ▸ List.suffix_refl _)
    | cons head front =>
      obtain ⟨before, same⟩ := within
      rw [List.cons_append] at shape
      obtain ⟨rfl, rfl⟩ := List.cons.inj shape
      have piece : before ++ head :: front = shards first :=
        List.append_cancel_right (by rw [List.append_assoc, List.cons_append, same])
      rcases shards_spec solid.1 plain.1 with whole | ⟨_, cut⟩
      · rw [whole, List.append_eq_singleton_iff] at piece
        obtain ⟨_, single⟩ := piece.resolve_right (by simp)
        obtain ⟨rfl, rfl⟩ := List.cons.inj single
        exact .inl ⟨first, taken, rfl, List.suffix_refl _, rfl⟩
      · have member : head ∈ shards first := piece ▸ by simp
        refine .inr ⟨cut head member, first, List.mem_cons_self, ?_⟩
        simpa [shards] using List.mem_map_of_mem (f := Shard.text) member

theorem isWord_of_mem_parts (solid : ∀ word ∈ taken, IsWord word) {word : String}
    (member : word ∈ taken.flatMap parts) : IsWord word := by
  obtain ⟨other, inside, part⟩ := List.mem_flatMap.mp member
  exact isWord_part (solid other inside).2 part

theorem plain_of_unbroken {word : String} (unbroken : Unbroken catalog taken remaining) (spelled : Spelled word)
    (member : word ∈ taken) : Plain word := by
  obtain ⟨notOpen, notClose⟩ := not_paren_of_unbroken unbroken member
  rcases paren_or_plain spelled.choose_spec with opens | closes | plain
  · exact absurd opens notOpen
  · exact absurd closes notClose
  · exact plain

variable (indexed : catalog.Indexed)

include indexed

/-- The key of a name that a run is read as: the words of the run, unless it is closed up to a word of no name. -/
theorem key_of_findParameter? {group : List String} {parameter : ParameterDef} (solid : ∀ word ∈ group, IsWord word)
    (ranges : ∀ lower upper, group = [lower, "-", upper] → Unkeyed catalog (lower ++ "-" ++ upper))
    (found : catalog.findParameter? (normalizeFactor (unwords group)) = some parameter) :
    parameter ∈ catalog.parameters ∧ PhraseTrie.key parameter.name = group.map lowercase := by
  obtain ⟨listed, same⟩ := indexed.findParameter?_eq_some_iff.mp found
  refine ⟨listed, ?_⟩
  rcases normalizeFactor_unwords solid with whole | ⟨lower, upper, rfl, closed⟩
  · rw [same, whole, PhraseTrie.key, unwords_of_solid solid]
  · have isWord : IsWord (lower ++ "-" ++ upper) := (solid lower (by simp)).hyphen (solid upper (by simp))
    have single : PhraseTrie.key (lower ++ "-" ++ upper) = [lowercase (lower ++ "-" ++ upper)] := by
      rw [PhraseTrie.key, words_of_isWord isWord, List.map_singleton]
    rw [closed, single] at same
    exact absurd (same ▸ List.mem_singleton_self _) ((ranges lower upper rfl).names parameter listed)

theorem unknown_of_unnamed {group : List String} (solid : ∀ word ∈ group, IsWord word)
    (ranges : ∀ lower upper, group = [lower, "-", upper] → Unkeyed catalog (lower ++ "-" ++ upper))
    (unnamed : catalog.matchParameter? group = none) :
    catalog.findParameter? (normalizeFactor (unwords group)) = none := by
  rw [Option.eq_none_iff_forall_ne_some]
  intro parameter found
  obtain ⟨listed, same⟩ := key_of_findParameter? indexed solid ranges found
  exact indexed.matchParameter?_eq_none.mp unnamed parameter listed (same ▸ List.prefix_refl _)

theorem Intact.isBoundary {shard : Shard} (intact : Intact catalog (shard :: held)) (cut : shard.cut = true)
    (plain : Plain shard.text) (unspoken : isLogicalWord shard.text.toList = false) :
    isBoundary catalog ((shard :: held).map Shard.text) = false := by
  refine isBoundary_eq_false.mpr ⟨?_, ?_, ?_⟩
  · intro opens
    exact (plain '(' (by rw [opens]; decide)).1 rfl
  · intro closes
    exact (plain ')' (by rw [closes]; decide)).2 rfl
  refine indexed.phrases.longestMatch_eq_none.mpr fun phrase listed begins => ?_
  cases phrase with
  | operator symbol =>
    exact (indexed.phrases.stored _ listed).1
      (intact.unmatched cut (Catalog.operator_mem_phraseList.mp listed) begins)
  | logical symbol =>
    have listed := Catalog.logical_mem_phraseList.mp listed
    rw [Phrase.text, key_of_logicalOperator listed] at begins
    rw [isLogicalWord_of_lowercase listed (List.cons_prefix_cons.mp begins).1.symm] at unspoken
    cases unspoken

section CutRun

variable (run : CutRun catalog follows passed remaining taken) (spelled : ∀ word ∈ taken, Spelled word)
  (intact : Intact catalog (taken.flatMap shards ++ held))

include run spelled intact

/-- In a divided run there is no boundary but at the logical operators. -/
theorem CutRun.inner (divides : Parted remaining held) {word : String} {tail : List String}
    (within : word :: tail <:+ taken.flatMap parts) (plain : isLogicalWord word.toList = false) :
    isBoundary catalog (word :: tail ++ held.map Shard.text) = false := by
  have solid := isWord_of_spelled spelled
  have unspoken : ∀ word ∈ taken, isLogicalWord word.toList = false := fun word => run.unbroken.plain indexed
  obtain ⟨shard, others, ends, rfl, rfl⟩ := exists_suffix_shards within
  have intact : Intact catalog (shard :: others ++ held) := intact.of_infix (suffix_append ends).isInfix
  rcases suffix_shards solid unspoken ends with ⟨word, later, rfl, tails, rfl⟩ | ⟨cut, other, member, part⟩
  · have here : Unbroken catalog [word] (later ++ remaining) := by
      intro suffix ends' nonempty
      rcases List.suffix_cons_iff.mp ends' with rfl | empty
      · exact run.unbroken (word :: later) tails (List.cons_ne_nil _ _)
      · exact absurd (List.suffix_nil.mp empty) nonempty
    have inside (other : String) (member : other ∈ later) : other ∈ taken :=
      tails.subset (List.mem_cons_of_mem _ member)
    have rest : Parted later (later.flatMap shards) :=
      parted_shards (fun other member => solid other (inside other member))
        fun other member => unspoken other (inside other member)
    have unbroken := @Parted.unbroken catalog [word] _ _ indexed (rest.append divides) intact here
    rw [List.map_append] at unbroken
    exact unbroken [word] (List.suffix_refl _) (List.cons_ne_nil _ _)
  · have whole : Plain other := plain_of_unbroken run.unbroken (spelled other member) member
    rw [← List.map_cons, ← List.map_append]
    exact intact.isBoundary indexed cut (whole.part (solid other member).2 part) plain

theorem CutRun.outer {word : String} {tail : List String} (within : word :: tail <:+ taken.flatMap parts)
    (logical : isLogicalWord word.toList = true) : word ∈ Catalog.logicalOperators ∧
      catalog.matchPhrase? (word :: tail ++ held.map Shard.text) = some (1, .logical word) := by
  have solid := isWord_of_spelled spelled
  have unspoken : ∀ word ∈ taken, isLogicalWord word.toList = false := fun word => run.unbroken.plain indexed
  obtain ⟨shard, others, ends, rfl, rfl⟩ := exists_suffix_shards within
  rcases suffix_shards solid unspoken ends with ⟨word, later, rfl, tails, rfl⟩ | ⟨cut, other, member, part⟩
  · rw [unspoken word (tails.subset List.mem_cons_self)] at logical
    cases logical
  have intact : Intact catalog (shard :: others ++ held) := intact.of_infix (suffix_append ends).isInfix
  rcases part_cases (solid _ member).2 part with listed | ⟨_, _, silent⟩
  · refine ⟨listed, indexed.phrases.longestMatch_eq_some.mpr
      ⟨⟨Catalog.logical_mem_phraseList.mpr listed, ?_, ?_⟩, ?_⟩⟩
    · rw [Phrase.text, key_of_logicalOperator listed]
      exact List.cons_prefix_cons.mpr ⟨rfl, List.nil_prefix⟩
    · intro other member begins
      rw [Phrase.text, key_of_logicalOperator listed, List.length_singleton]
      cases other with
      | logical symbol => rw [Phrase.text, key_of_logicalOperator (Catalog.logical_mem_phraseList.mp member)]; rfl
      | operator symbol =>
        exact absurd (intact.unmatched cut (Catalog.operator_mem_phraseList.mp member)
          (by simpa [Phrase.text] using begins))
          (indexed.phrases.stored _ member).1
    · rw [Phrase.text, key_of_logicalOperator listed]
      rfl
  · exact absurd (spoken_of_isLogicalWord logical) silent

omit intact in
/-- A name behind a logical operator of a run is all that stands there. -/
theorem CutRun.named
    (ranges : ∀ lower upper, [lower, "-", upper] <:+: taken.flatMap parts → Unkeyed catalog (lower ++ "-" ++ upper))
    {word : String} {tail : List String} (within : word :: tail <:+ taken.flatMap parts)
    (logical : isLogicalWord word.toList = true) :
    Named catalog (tail = untilLogical tail ∧ follows) (untilLogical tail) := by
  have solid := isWord_of_spelled spelled
  have ends : tail <:+ taken.flatMap parts := (List.suffix_cons _ _).trans within
  have begins : untilLogical tail <+: tail := List.takeWhile_prefix _
  have single {group : List String} (inside : group <:+: taken.flatMap parts) (lower upper : String)
      (same : group = [lower, "-", upper]) : Unkeyed catalog (lower ++ "-" ++ upper) :=
    ranges lower upper (same ▸ inside)
  have inside := begins.isInfix.trans ends.isInfix
  cases matched : catalog.matchParameter? (untilLogical tail) with
  | none =>
    refine .factor matched (unknown_of_unnamed indexed ?_ (single inside) matched)
    exact fun other member => isWord_of_mem_parts solid (inside.subset member)
  | some found =>
    obtain ⟨count, parameter⟩ := found
    obtain ⟨known, operator⟩ := run.names word tail within logical count parameter matched
    obtain ⟨_, key⟩ := key_of_findParameter? indexed
      (fun other member => isWord_of_mem_parts solid (ends.subset member)) (single ends.isInfix) known
    obtain ⟨_, _, reaches, place⟩ := indexed.of_matchParameter? matched
    -- The name takes as many words as stand there up to the end of the run.
    have length : count = tail.length := by
      have same := congrArg List.length (place.trans key)
      simpa [Nat.min_eq_left reaches] using same
    have whole : untilLogical tail = tail := begins.eq_of_length_le (length ▸ reaches)
    rw [whole] at matched ⊢
    exact .name parameter (length ▸ matched) known ⟨rfl, operator⟩

theorem CutRun.groups (divides : Parted remaining held)
    (ranges : ∀ lower upper, [lower, "-", upper] <:+: taken.flatMap parts → Unkeyed catalog (lower ++ "-" ++ upper)) :
    Groups catalog follows (held.map Shard.text) (taken.flatMap parts) where
  inner := fun _ _ => run.inner indexed spelled intact divides
  outer := fun _ _ => run.outer indexed spelled intact
  silent := by
    intro word member plain
    obtain ⟨other, inside, part⟩ := List.mem_flatMap.mp member
    rcases part_cases (spelled other inside).isWord.2 part with listed | ⟨isWord, _, silent⟩
    · have logical : ∀ symbol ∈ Catalog.logicalOperators, isLogicalWord symbol.toList = true := by decide
      rw [logical word listed] at plain
      cases plain
    · exact ⟨isWord, silent⟩
  named := fun _ _ within logical _ => run.named indexed spelled ranges within logical

theorem CutRun.first
    (ranges : ∀ lower upper, [lower, "-", upper] <:+: taken.flatMap parts → Unkeyed catalog (lower ++ "-" ++ upper)) :
    Named catalog False (untilLogical (taken.flatMap parts)) := by
  have solid := isWord_of_spelled spelled
  have begins : untilLogical (taken.flatMap parts) <+: taken.flatMap parts := List.takeWhile_prefix _
  have unnamed : catalog.matchParameter? (untilLogical (taken.flatMap parts)) = none := by
    refine indexed.matchParameter?_eq_none.mpr fun parameter listed named => ?_
    refine indexed.matchParameter?_eq_none.mp run.unnamed parameter listed ?_
    obtain ⟨spelled, inside, same⟩ := List.prefix_map_iff.mp named
    obtain ⟨found, within, rfl⟩ := List.prefix_map_iff.mp (text_shards taken ▸ inside.trans begins)
    have entire := intact.names parameter listed found (within.trans (List.prefix_append _ _)).isInfix same.symm
      fun word member => by simpa using List.mem_takeWhile_imp (inside.subset member)
    rw [same]
    exact ((run.divides indexed solid).begins entire within).map lowercase
  refine .factor unnamed (unknown_of_unnamed indexed ?_ ?_ unnamed)
  · exact fun word member => isWord_of_mem_parts solid (begins.subset member)
  · exact fun lower upper same => ranges lower upper (same ▸ begins.isInfix)

end CutRun

end Groups

theorem Known.recognize (indexed : catalog.Indexed) (known : Known catalog passed) (run : String) :
    Known catalog (((cutRun run).map (recognize catalog)).reverse ++ passed) := by
  refine known.append (List.forall_mem_map.mpr fun token member isParameter => ?_)
  rcases recognize_cases catalog token with same | ⟨_, parameter, _, found, same⟩
  · rw [same, isParameter_of_kind (kind_of_mem_cutBlocks member)] at isParameter
    cases isParameter
  · exact ⟨parameter, (indexed.findParameter?_eq_some_iff.mp found).1, same⟩

/-- The shards are read without a cut, as the same tokens with the names among the parts recognized. -/
theorem Division.read (indexed : catalog.Indexed) (division : Division catalog passed words held tokens recognized)
    (spelled : ∀ word ∈ words, Spelled word) (known : Known catalog passed) (intact : Intact catalog held)
    (ranges : ∀ lower upper, [lower, "-", upper] <:+: held.map Shard.text → Unkeyed catalog (lower ++ "-" ++ upper)) :
    (∀ step ∈ stepsFrom catalog passed 0 (held.map Shard.text), step.1.length = 1) ∧
      (stepsFrom catalog passed 0 (held.map Shard.text)).flatMap Prod.fst = recognized := by
  induction division with
  | nil => exact ⟨by simp [stepsFrom], rfl⟩
  | @whole passed tokens recognized piece taken remaining held reads single later ih =>
    obtain ⟨_, rear⟩ := List.forall_mem_append.mp spelled
    rw [List.map_append, text_wholes] at ranges ⊢
    obtain ⟨singles, shown⟩ := ih rear (known.reads indexed reads) (intact.of_infix (List.suffix_append _ _).isInfix)
      fun lower upper within => ranges lower upper (within.trans (List.suffix_append _ _).isInfix)
    rw [(later.again indexed (isWord_of_spelled rear) known reads single intact).steps]
    exact ⟨List.forall_mem_cons.mpr ⟨single, singles⟩, by rw [List.flatMap_cons, shown]⟩
  | @cut passed tokens recognized taken remaining held run later ih =>
    obtain ⟨here, rear⟩ := List.forall_mem_append.mp spelled
    have solid := isWord_of_spelled here
    have divides := later.divides indexed (isWord_of_spelled rear)
    have unclaimed := ((run.divides indexed solid).append divides).catalogFactor? intact known
    rw [List.map_append, text_shards] at ranges unclaimed ⊢
    have inRun (lower upper : String) (within : [lower, "-", upper] <:+: taken.flatMap parts) :
        Unkeyed catalog (lower ++ "-" ++ upper) :=
      ranges lower upper (within.trans (List.prefix_append _ _).isInfix)
    obtain ⟨singles, shown⟩ := ih rear (known.recognize indexed _) (intact.of_infix (List.suffix_append _ _).isInfix)
      fun lower upper within => ranges lower upper (within.trans (List.suffix_append _ _).isInfix)
    rw [run.unclaimed] at unclaimed
    obtain ⟨read, before, split, steps⟩ := read_groups [] (taken.flatMap parts)
      (later.isBoundary indexed (apart_recognized solid run.nonempty) run.stop)
      (run.groups indexed here intact divides inRun) (by simp)
      (fun _ => run.first indexed here intact inRun) (unclaimed fun _ _ found => by cases found)
    rw [← cutRun_unwords fun word member => (solid word member).2] at split steps
    rw [List.nil_append] at steps
    rw [steps]
    exact ⟨List.forall_mem_append.mpr ⟨before, singles⟩, by rw [List.flatMap_append, split, shown]⟩

/-- Factors that are names stand where they become subjects: before an operator and behind none. The flag says whether
an operator stands before the tokens. -/
inductive Subjects (catalog : Catalog) : Bool → List Token → List Token → Prop
  | nil (afterOperator : Bool) : Subjects catalog afterOperator [] []
  | same {afterOperator : Bool} {tokens recognized : List Token} (token : Token)
      (later : Subjects catalog (token.kind == .operator) tokens recognized) :
      Subjects catalog afterOperator (token :: tokens) (token :: recognized)
  | name {tokens recognized : List Token} {value : String} {parameter : ParameterDef}
      (found : catalog.findParameter? value = some parameter) (operator : startsWithOperator tokens = true)
      (later : Subjects catalog false tokens recognized) :
      Subjects catalog false (.factor value :: tokens) (parameter.token :: recognized)

theorem Subjects.startsWithOperator {afterOperator : Bool}
    (subjects : Subjects catalog afterOperator tokens recognized) :
    startsWithOperator tokens = startsWithOperator recognized := by
  cases subjects with
  | nil => rfl
  | same token => cases token <;> rfl
  | name => rfl

theorem operator_repaired (afterOperator before : Bool) (token : Token) :
    ((if before then asSubject catalog (if afterOperator then asOperand token else token)
      else if afterOperator then asOperand token else token).kind == .operator) = (token.kind == .operator) := by
  have subject (value : String) : ((asParameter catalog value).kind == .operator) = false := by
    rw [kind_asParameter]
    rfl
  cases before <;> cases afterOperator <;> cases token <;> first | rfl | exact subject _

theorem Subjects.reclassify {afterOperator : Bool} (subjects : Subjects catalog afterOperator tokens recognized) :
    reclassify catalog afterOperator tokens = reclassify catalog afterOperator recognized := by
  induction subjects with
  | nil => rfl
  | same token later ih => simp only [Reading.reclassify, ← later.startsWithOperator, operator_repaired, ih]
  | @name tokens recognized value parameter found operator later ih =>
    rw [reclassify_factor, operator, if_pos rfl, reclassify_parameter, ih, asParameter, found]
    rfl

theorem subjects_group {ends : Prop} {afterOperator : Bool} {group : List String} (solid : ∀ word ∈ group, IsWord word)
    (named : group ≠ [] → Named catalog ends group)
    (last : ends → afterOperator = false ∧ startsWithOperator tokens = true)
    (later : ∀ afterOperator, Subjects catalog afterOperator tokens recognized) :
    Subjects catalog afterOperator (factorPart (unwords group).toList ++ tokens)
      ((factorPart (unwords group).toList).map (recognize catalog) ++ recognized) := by
  by_cases nonempty : group = []
  · subst nonempty
    exact later afterOperator
  have one : factorPart (unwords group).toList = [.factor (normalizeFactor (unwords group))] :=
    factorPart_of_nonblank (by rwa [unwords_of_solid solid])
  rw [one, List.map_singleton]
  rcases named nonempty with ⟨_, unknown⟩ | ⟨parameter, _, found, ended⟩
  · rw [recognize, unknown]
    exact .same _ (later _)
  · obtain ⟨rfl, operator⟩ := last ended
    rw [recognize, found]
    exact .name found operator (later false)

theorem subjects_groups {ends : Prop} {afterOperator : Bool} (pending rest : List String)
    (solid : ∀ word ∈ pending ++ rest, IsWord word)
    (first : pending ++ untilLogical rest ≠ [] → Named catalog ends (pending ++ untilLogical rest))
    (last : ends → afterOperator = false ∧ rest = untilLogical rest ∧ startsWithOperator tokens = true)
    (named : ∀ word tail, word :: tail <:+ rest → isLogicalWord word.toList = true → untilLogical tail ≠ [] →
      Named catalog (tail = untilLogical tail ∧ startsWithOperator tokens = true) (untilLogical tail))
    (later : ∀ afterOperator, Subjects catalog afterOperator tokens recognized) :
    Subjects catalog afterOperator (cutWords pending rest ++ tokens)
      ((cutWords pending rest).map (recognize catalog) ++ recognized) := by
  induction rest generalizing pending ends afterOperator with
  | nil =>
    have onward : untilLogical [] = [] := rfl
    rw [onward, List.append_nil] at first
    rw [List.append_nil] at solid
    exact subjects_group solid first (fun ended => ⟨(last ended).1, (last ended).2.2⟩) later
  | cons word rest ih =>
    have namedLater (other : String) (tail : List String) (within : other :: tail <:+ rest) :=
      named other tail (within.trans (List.suffix_cons _ _))
    cases logical : isLogicalWord word.toList with
    | false =>
      have onward : untilLogical (word :: rest) = word :: untilLogical rest := by simp [untilLogical, logical]
      rw [cutWords, logical, if_neg Bool.false_ne_true]
      rw [onward] at first last
      rw [List.append_cons] at solid first
      exact ih _ solid first (fun ended => ⟨(last ended).1, (List.cons.inj (last ended).2.1).2, (last ended).2.2⟩)
        namedLater
    | true =>
      have onward : untilLogical (word :: rest) = [] := by simp [untilLogical, logical]
      rw [onward] at first last
      rw [List.append_nil] at first
      obtain ⟨here, rear⟩ := List.forall_mem_append.mp solid
      rw [cutWords, if_pos logical, List.append_assoc, List.map_append, List.append_assoc]
      refine subjects_group here first (fun ended => absurd (last ended).2.1 (List.cons_ne_nil _ _)) fun _ => ?_
      exact .same _ (ih [] (List.forall_mem_cons.mp rear).2 (named word rest (List.suffix_refl _) logical)
        (fun ended => ⟨rfl, ended⟩) namedLater)

theorem Division.subjects (indexed : catalog.Indexed)
    (division : Division catalog passed words held tokens recognized) (spelled : ∀ word ∈ words, Spelled word)
    (intact : Intact catalog held)
    (ranges : ∀ lower upper, [lower, "-", upper] <:+: held.map Shard.text → Unkeyed catalog (lower ++ "-" ++ upper))
    (afterOperator : Bool) : Subjects catalog afterOperator tokens recognized := by
  induction division generalizing afterOperator with
  | nil => exact .nil _
  | @whole passed tokens recognized piece taken remaining held reads single later ih =>
    obtain ⟨_, rear⟩ := List.forall_mem_append.mp spelled
    obtain ⟨token, rfl⟩ := List.length_eq_one_iff.mp single
    rw [List.map_append] at ranges
    exact .same token (ih rear (intact.of_infix (List.suffix_append _ _).isInfix) (fun lower upper within =>
      ranges lower upper (within.trans (List.suffix_append _ _).isInfix)) _)
  | @cut passed tokens recognized taken remaining held run later ih =>
    obtain ⟨here, rear⟩ := List.forall_mem_append.mp spelled
    have solid := isWord_of_spelled here
    rw [List.map_append, text_shards] at ranges
    have inRun (lower upper : String) (within : [lower, "-", upper] <:+: taken.flatMap parts) :
        Unkeyed catalog (lower ++ "-" ++ upper) :=
      ranges lower upper (within.trans (List.prefix_append _ _).isInfix)
    have behind := ih rear (intact.of_infix (List.suffix_append _ _).isInfix) fun lower upper within =>
      ranges lower upper (within.trans (List.suffix_append _ _).isInfix)
    rw [cutRun_unwords fun word member => (solid word member).2]
    exact subjects_groups [] _ (fun word => isWord_of_mem_parts solid) (fun _ => run.first indexed here intact inRun)
      False.elim (fun word tail within logical _ => run.named indexed here inRun within logical) behind

theorem expressionWords_of_mem_divided {read : List Step} {text word : String}
    (whole : read.flatMap Prod.snd = expressionWords text)
    (member : word ∈ (read.flatMap dividedStep).map Shard.text) : expressionWords word = [word] := by
  obtain ⟨shard, inside, rfl⟩ := List.mem_map.mp member
  obtain ⟨step, listed, inside⟩ := List.mem_flatMap.mp inside
  have held : ∀ other ∈ step.2, other ∈ expressionWords text :=
    fun other member => whole ▸ List.mem_flatMap.mpr ⟨step, listed, member⟩
  have shown := List.mem_map_of_mem (f := Shard.text) inside
  rw [dividedStep] at shown
  split at shown
  · rw [text_wholes] at shown
    exact expressionWords_of_mem (held _ shown)
  rw [text_shards] at shown
  obtain ⟨other, listed, part⟩ := List.mem_flatMap.mp shown
  have paren : ∀ paren ∈ ["(", ")"], ∀ part ∈ parts paren, expressionWords part = [part] := by decide +kernel
  have solid := (isWord_of_mem_expressionWords (held other listed)).2
  rcases paren_or_plain (held other listed) with opens | closes | plain
  · exact paren other (by simp [opens]) _ part
  · exact paren other (by simp [closes]) _ part
  · rw [expressionWords_of_plain (plain.part solid part), words_of_isWord (isWord_part solid part)]

theorem expressionWords_divided (indexed : catalog.Indexed) (text : String) :
    expressionWords (divided catalog text) =
      ((steps catalog (expressionWords text)).flatMap dividedStep).map Shard.text := by
  obtain ⟨read, same⟩ : ∃ read, steps catalog (expressionWords text) = read := ⟨_, rfl⟩
  have single := fun word => @expressionWords_of_mem_divided read text word (flatMap_steps indexed same)
  rw [divided, same, expressionWords_unwords, List.flatMap_congr single, List.flatMap_singleton']

/-- Dividing a divisible text makes no difference: it is read as the same tokens, and nothing in it is cut. -/
theorem parse_divided (indexed : catalog.Indexed) {text : String} (divisible : Divisible catalog (expressionWords text))
    (ranges : ∀ lower upper, [lower, "-", upper] <:+: expressionWords (divided catalog text) →
      Unkeyed catalog (lower ++ "-" ++ upper)) :
    Uncut catalog (expressionWords (divided catalog text)) ∧
      parse catalog (divided catalog text) = parse catalog text := by
  have spelled : ∀ word ∈ expressionWords text, Spelled word := fun word member => ⟨text, member⟩
  have division := division_of_partings indexed rfl divisible.partings
  have same := expressionWords_divided indexed text
  rw [same] at ranges ⊢
  obtain ⟨singles, shown⟩ := division.read indexed spelled (fun _ member => by cases member) divisible.intact ranges
  refine ⟨singles, ?_⟩
  have recognized : scan catalog (((steps catalog (expressionWords text)).flatMap dividedStep).map Shard.text) =
      (steps catalog (expressionWords text)).flatMap (recognizedStep catalog) := (scan_eq_steps _).trans shown
  rw [parse, parse, same, recognized, scan_eq_steps]
  exact congrArg (fun tokens => markFrom catalog .start (mergeFactors tokens))
    (division.subjects indexed spelled divisible.intact ranges false).reclassify.symm

end Criteria.Reading
