import Criteria.Proofs.CatalogLookups
import Criteria.Proofs.KnownFactors
import Criteria.Proofs.LetterCase
/-!
The two ways to a logical operator. One compares the whole text with each of the two, up to the case of ASCII letters;
the other splits it into words, lowers those with the full mapping and looks them up among the phrases. They agree on
every text, and neither finds what the catalog lists as an operator.
-/

namespace Criteria

open Text

namespace Text

theorem splitBlank_takeWhile (cs : List Char) :
    splitBlank cs = splitBlank (cs.takeWhile (!isBlank ·)) ++ splitBlank (cs.dropWhile (!isBlank ·)) := by
  conv => lhs; rw [← List.takeWhile_append_dropWhile (p := (!isBlank ·)) (l := cs)]
  cases behind : cs.dropWhile (!isBlank ·) with
  | nil => rw [splitBlank_nil, List.append_nil, List.append_nil]
  | cons c rest =>
    have first := List.head?_dropWhile_not (!isBlank ·) cs
    rw [behind] at first
    have blank : isBlank c = true := by simpa using first
    rw [splitBlank_append_blank blank, splitBlank_cons_blank blank]

theorem splitBlank_eq_nil {cs : List Char} (empty : splitBlank cs = []) : ∀ c ∈ cs, isBlank c = true := by
  have kept := flatten_splitBlank cs
  rw [empty] at kept
  simpa using kept.symm

theorem trim_eq_of_words_eq {text word : String} (single : words text = [word]) : trim text = word := by
  have pieces : splitBlank text.toList = [word.toList] := by
    have same := congrArg (List.map String.toList) single
    simpa [words, List.map_map, Function.comp_def] using same
  rw [← splitBlank_dropWhile] at pieces
  rw [trim, trimBlank]
  generalize shape : text.toList.dropWhile isBlank = rest at pieces ⊢
  have solid : ∀ c ∈ rest.takeWhile (!isBlank ·), isBlank c = false := fun c inside => by
    simpa using List.all_eq_true.mp List.all_takeWhile c inside
  have occupied : rest.takeWhile (!isBlank ·) ≠ [] := by
    cases rest with
    | nil => cases splitBlank_nil.symm.trans pieces
    | cons c rest =>
      have first := List.head?_dropWhile_not isBlank text.toList
      rw [shape] at first
      rw [List.takeWhile_cons_of_pos (by simpa using first)]
      exact List.cons_ne_nil _ _
  rw [splitBlank_takeWhile, splitBlank_of_solid occupied solid, List.singleton_append] at pieces
  obtain ⟨front, behind⟩ := List.cons.inj pieces
  have blank := splitBlank_eq_nil behind
  have ends : (rest.takeWhile (!isBlank ·)).reverse.dropWhile isBlank = (rest.takeWhile (!isBlank ·)).reverse := by
    rw [List.dropWhile_eq_self_iff]
    intro nonempty
    rw [solid _ (List.mem_reverse.mp (List.getElem_mem nonempty))]
    exact Bool.false_ne_true
  rw [← List.takeWhile_append_dropWhile (p := (!isBlank ·)) (l := rest), List.reverse_append,
    List.dropWhile_append_of_pos (fun c inside => blank c (List.mem_reverse.mp inside)), ends, List.reverse_reverse,
    front, String.ofList_toList]

/-- Of the small letters of the word each is the lower case of ASCII letters only. -/
structure PlainWord (word : String) : Prop where
  occupied : word.toList ≠ []
  letters : ∀ c ∈ word.toList, PlainLetter c.toLower

theorem PlainLetter.of_toLower {c : Char} (plain : PlainLetter c.toLower) : 65 ≤ c.toNat ∧ c.toNat ≤ 122 := by
  have least := plain.1
  have most := plain.2.1
  rcases toLower_cases c with same | ⟨low, high, _⟩
  · rw [same] at least most
    omega
  · omega

namespace PlainWord

variable {word other text : String}

theorem of_all (occupied : word.toList ≠ [])
    (letters : (word.toList.all fun c => decide (PlainLetter c.toLower)) = true) : PlainWord word :=
  ⟨occupied, fun c inside => of_decide_eq_true (List.all_eq_true.mp letters c inside)⟩

theorem isWord (plain : PlainWord word) : IsWord word :=
  ⟨plain.occupied, fun c inside => isBlank_of_visible (plain.letters c inside).of_toLower⟩

theorem lowercase (plain : PlainWord word) : (lowercase word).toList = word.toList.map Char.toLower :=
  lowercase_of_ascii fun c inside => by
    have bounds := (plain.letters c inside).of_toLower
    omega

theorem of_sameIgnoringAsciiCase (plain : PlainWord word) (same : sameIgnoringAsciiCase word other = true) :
    PlainWord other := by
  have mapped := sameIgnoringAsciiCase_iff.mp same
  constructor
  · intro empty
    rw [empty] at mapped
    exact plain.occupied (List.map_eq_nil_iff.mp mapped)
  · intro c inside
    have image : c.toLower ∈ word.toList.map Char.toLower := mapped ▸ List.mem_map_of_mem inside
    obtain ⟨d, member, image⟩ := List.mem_map.mp image
    exact image ▸ plain.letters d member

/-- A word that has the same lower case under the full mapping is the same up to the case of ASCII letters. -/
theorem sameIgnoringAsciiCase (plain : PlainWord word) (same : Text.lowercase other = Text.lowercase word) :
    Text.sameIgnoringAsciiCase word other = true := by
  have ascii : ∀ c ∈ other.toList, c.toNat < 128 := ascii_of_lowercase <| by
    rw [same, plain.lowercase]
    intro letter inside
    obtain ⟨c, member, rfl⟩ := List.mem_map.mp inside
    exact plain.letters c member
  rw [sameIgnoringAsciiCase_iff, ← plain.lowercase, ← same, lowercase_of_ascii ascii]

open PhraseTrie in
theorem key_eq (plain : PlainWord word) : key word = [Text.lowercase word] := by
  rw [key, words_of_isWord plain.isWord, List.map_singleton]

open PhraseTrie in
theorem same_trim_iff (plain : PlainWord word) :
    Text.sameIgnoringAsciiCase word (trim text) = true ↔ key text = key word := by
  rw [plain.key_eq]
  constructor
  · intro same
    have trimmed := plain.of_sameIgnoringAsciiCase same
    have lowered : Text.lowercase (trim text) = Text.lowercase word := String.toList_inj.mp <| by
      rw [trimmed.lowercase, plain.lowercase, sameIgnoringAsciiCase_iff.mp same]
    have again : key (trim text) = key text := by rw [key, words_trim, key]
    rw [← again, trimmed.key_eq, lowered]
  · intro same
    obtain ⟨other, single, lowered⟩ := List.map_eq_singleton_iff.mp same
    rw [trim_eq_of_words_eq single]
    exact plain.sameIgnoringAsciiCase lowered

end PlainWord

end Text

namespace PhraseTrie

/-- An exact lookup is a longest match that takes all words. -/
theorem get?_eq_some_iff_longestMatch {α : Type} {trie : PhraseTrie α} {text : String} {value : α} :
    trie.get? text = some value ↔ trie.longestMatch (words text) = some ((words text).length, value) := by
  have whole : (words text).take (words text).length = words text := List.take_length
  rw [longestMatch, PhraseNode.longestMatch_eq_some]
  constructor
  · intro found
    unfold get? at found
    split at found
    · cases found
    next nonblank =>
      refine ⟨?_, Nat.le_refl _, by rw [whole]; exact found, fun other above within => absurd above (by omega)⟩
      rw [List.length_pos_iff]
      exact Reading.words_ne_nil_of_key nonblank
  · intro longest
    have found := longest.found
    rw [whole] at found
    unfold get?
    split
    next blank =>
      have empty : words text = [] := List.map_eq_nil_iff.mp blank
      exact absurd longest.positive (by simp [empty])
    next => exact found

end PhraseTrie

namespace Catalog

open PhraseTrie

theorem plainWord_of_mem_logicalOperators : ∀ symbol ∈ logicalOperators, PlainWord symbol := by
  simp only [logicalOperators, List.forall_mem_cons, List.not_mem_nil, false_implies, implies_true, and_true]
  exact ⟨.of_all (by decide) (by decide), .of_all (by decide) (by decide)⟩

theorem eq_of_key_eq {first second : String} (listed : first ∈ logicalOperators) (other : second ∈ logicalOperators)
    (same : key first = key second) : first = second := by
  have apart : ∀ first ∈ logicalOperators, ∀ second ∈ logicalOperators,
      first.toList.map Char.toLower = second.toList.map Char.toLower → first = second := by decide
  refine apart first listed second other ?_
  have plain := plainWord_of_mem_logicalOperators
  rw [(plain first listed).key_eq, (plain second other).key_eq] at same
  have lowered := (List.cons.inj same).1
  rw [← (plain first listed).lowercase, ← (plain second other).lowercase, lowered]

theorem findLogical?_eq_some_iff {text symbol : String} :
    findLogical? text = some symbol ↔ symbol ∈ logicalOperators ∧ key symbol = key text := by
  have plain := plainWord_of_mem_logicalOperators
  unfold findLogical?
  constructor
  · intro found
    have listed := List.mem_of_find?_eq_some found
    have matched := List.find?_some found
    exact ⟨listed, ((plain symbol listed).same_trim_iff.mp matched).symm⟩
  · rintro ⟨member, same⟩
    have matched := (plain symbol member).same_trim_iff.mpr same.symm
    cases found : logicalOperators.find? fun logical => sameIgnoringAsciiCase logical (trim text) with
    | none => exact absurd matched (List.find?_eq_none.mp found symbol member)
    | some other =>
      have listed := List.mem_of_find?_eq_some found
      have again := List.find?_some found
      rw [eq_of_key_eq member listed (same.trans ((plain other listed).same_trim_iff.mp again))]

/-- A text is found as a logical operator just when it is looked up as one among the phrases, exactly or as a match that
takes all its words. No text is found both as a logical operator and as an operator, whatever the catalog lists. -/
theorem findLogical?_agrees {parameters : List ParameterDef} {factors : FactorTable} {operators : List String}
    {catalog : Catalog} (built : build parameters factors operators = .ok catalog) (text : String) :
    (∀ symbol, findLogical? text = some symbol ↔ catalog.phrases.get? text = some (.logical symbol)) ∧
    (∀ symbol, findLogical? text = some symbol ↔
      catalog.matchPhrase? (words text) = some ((words text).length, .logical symbol)) ∧
    ¬ ((catalog.findOperator? text).isSome = true ∧ (findLogical? text).isSome = true) := by
  have indexed := indexed_of_build built
  have agree (symbol : String) :
      findLogical? text = some symbol ↔ catalog.phrases.get? text = some (.logical symbol) := by
    rw [indexed.phrases.get?_eq_some_iff, logical_mem_phraseList]
    exact findLogical?_eq_some_iff
  refine ⟨agree, fun symbol => (agree symbol).trans get?_eq_some_iff_longestMatch, ?_⟩
  rintro ⟨operator, logical⟩
  obtain ⟨symbol, found⟩ := Option.isSome_iff_exists.mp logical
  rw [findOperator?, (agree symbol).mp found] at operator
  cases operator

/-- An operator the catalog writes like a logical one, whatever its case and padding, is left out of it. -/
theorem findLogical?_agrees_masked :
    ∃ catalog, build [⟨9, "Loan"⟩] .empty [" aNd", "And Not", "OR\u3000", ">"] = .ok catalog ∧
      catalog.operators = ["And Not", ">"] ∧
      findLogical? "\toR\u3000" = some "OR" ∧
      catalog.phrases.get? "\toR\u3000" = some (.logical "OR") ∧
      catalog.matchPhrase? (words "\toR\u3000") = some (1, .logical "OR") ∧
      (catalog.findOperator? "\toR\u3000").isSome = false := by
  obtain ⟨catalog, built, kept, found, single⟩ :
      ∃ catalog, build [⟨9, "Loan"⟩] .empty [" aNd", "And Not", "OR\u3000", ">"] = .ok catalog ∧
        catalog.operators = ["And Not", ">"] ∧ findLogical? "\toR\u3000" = some "OR" ∧
        (words "\toR\u3000").length = 1 :=
    ⟨_, rfl, by decide, by decide, by decide⟩
  obtain ⟨exactly, longest, apart⟩ := findLogical?_agrees built "\toR\u3000"
  have stored := (exactly "OR").mp found
  have matched := (longest "OR").mp found
  rw [single] at matched
  have other : (catalog.findOperator? "\toR\u3000").isSome = false :=
    Bool.eq_false_iff.mpr fun operator => apart ⟨operator, by rw [found]; rfl⟩
  exact ⟨catalog, built, kept, found, stored, matched, other⟩

end Catalog

end Criteria
