import Criteria.Proofs.DisplayReading
import Criteria.Proofs.FinishedSessions
import Criteria.Proofs.LetterCase
/-!
Free words behind an operator. Reading looks such a word up as a name before it takes it for a factor, and from then on
it has the spelling of the catalog. So reopening respells just the words that name a parameter in another spelling, and
the payload is kept when there are none of them and only then.
-/

namespace Criteria

open Text

namespace Text

theorem isBlank_of_isAlphanum {c : Char} (alphanumeric : c.isAlphanum = true) : isBlank c = false := by
  have bounds := toNat_of_isAlphanum alphanumeric
  simp only [isBlank, Bool.or_eq_false_iff, Bool.and_eq_false_iff, decide_eq_false_iff_not, beq_eq_false_iff_ne]
  omega

theorem isWordCharacter_of_isAlphanum {c : Char} (alphanumeric : c.isAlphanum = true) : isWordCharacter c = true := by
  have listed : ∀ code < 123, 48 ≤ code ∧ code ≤ 57 ∨ 65 ≤ code ∧ code ≤ 90 ∨ 97 ≤ code →
      wordCharacters.hasCode code = true := by decide
  have bounds := toNat_of_isAlphanum alphanumeric
  exact listed c.toNat (by omega) (by omega)

end Text

namespace Catalog

variable {catalog : Catalog} {value : String}

/-- A word of ASCII letters and digits that is no word of a phrase. -/
structure FreeWord (catalog : Catalog) (value : String) : Prop where
  nonempty : value ≠ ""
  alphanumeric : value.toList.all Char.isAlphanum = true
  unspoken : ∀ phrase ∈ catalog.phraseList, lowercase value ∉ PhraseTrie.key phrase.text

/-- The name that the word finds, or else the word itself. -/
def spelling (catalog : Catalog) (value : String) : String :=
  (catalog.findParameter? value).elim value ParameterDef.name

theorem spelling_eq_self : catalog.spelling value = value ↔
    ∀ parameter, catalog.findParameter? value = some parameter → parameter.name = value := by
  unfold spelling
  cases catalog.findParameter? value <;> simp

theorem matchParameter?_word (solid : IsWord value) :
    catalog.matchParameter? [value] = (catalog.findParameter? value).map (1, ·) := by
  have word : catalog.names.longestMatch [value] = (catalog.names.get? value).map (1, ·) := by
    rw [PhraseTrie.longestMatch, PhraseTrie.get?, PhraseTrie.key, words_of_isWord solid]
    simp only [List.map_cons, List.map_nil, PhraseNode.longestMatch, PhraseNode.find?]
    cases catalog.names.root.child? (lowercase value) <;> rfl
  rw [matchParameter?, findParameter?, word, Option.map_map, Option.map_map]
  rfl

namespace FreeWord

variable (free : catalog.FreeWord value)
include free

theorem isWord : IsWord value :=
  ⟨fun empty => free.nonempty (String.toList_eq_nil_iff.mp empty),
    fun c inside => isBlank_of_isAlphanum (List.all_eq_true.mp free.alphanumeric c inside)⟩

theorem plain : Reading.Plain value := by
  intro c inside
  have alphanumeric := List.all_eq_true.mp free.alphanumeric c inside
  constructor
  · rintro rfl
    cases alphanumeric
  · rintro rfl
    cases alphanumeric

theorem isLogicalWord_eq_false : Reading.isLogicalWord value.toList = false := by
  have keys : PhraseTrie.key "AND" = ["and"] ∧ PhraseTrie.key "OR" = ["or"] := by decide
  apply Bool.eq_false_iff.mpr
  intro logical
  have lowered := Reading.lowercase_of_isLogicalWord logical
  rw [String.ofList_toList] at lowered
  rcases lowered with same | same
  · apply free.unspoken (.logical "AND") (logical_mem_phraseList.mpr (by decide))
    rw [Phrase.text, keys.1, same]
    exact List.mem_singleton_self _
  · apply free.unspoken (.logical "OR") (logical_mem_phraseList.mpr (by decide))
    rw [Phrase.text, keys.2, same]
    exact List.mem_singleton_self _

theorem whole (subject : Token) (unnamed : catalog.findParameter? value = none) :
    Reading.Whole catalog subject value where
  nonblank := words_ne_nil_iff.mpr free.isWord.nonblank
  unnamed := by rw [words_of_isWord free.isWord, matchParameter?_word free.isWord, unnamed, Option.map_none]
  normal := Reading.normalizeFactor_of_isWord free.isWord
  uncut := by
    have letters : ∀ c ∈ value.toList, isWordCharacter c = true :=
      fun c inside => isWordCharacter_of_isAlphanum (List.all_eq_true.mp free.alphanumeric c inside)
    right
    rw [Reading.blocks_of_forall free.isWord.1 letters]
    intro block member
    rw [List.mem_singleton.mp member]
    exact free.isLogicalWord_eq_false

theorem unbroken (indexed : catalog.Indexed) (remaining : List String) :
    Reading.Unbroken catalog (words value) remaining := by
  intro suffix ends nonempty
  rw [words_of_isWord free.isWord] at ends
  have single : suffix = [value] := ends.eq_of_length_le (List.length_pos_iff.mpr nonempty)
  have member : value ∈ words value := by simp [words_of_isWord free.isWord]
  obtain ⟨notOpen, notClose⟩ := Reading.ne_paren_of_mem_words free.plain member
  rw [single, List.singleton_append]
  refine Reading.isBoundary_eq_false.mpr ⟨notOpen, notClose, ?_⟩
  cases matched : catalog.matchPhrase? (value :: remaining) with
  | none => rfl
  | some found =>
    obtain ⟨count, phrase⟩ := found
    obtain ⟨listed, positive, _, place⟩ := indexed.phrases.of_longestMatch matched
    obtain ⟨count, rfl⟩ := Nat.exists_eq_add_one.mpr positive
    apply absurd _ (free.unspoken phrase listed)
    rw [← place]
    exact List.mem_cons_self

theorem length_words_spelling (indexed : catalog.Indexed) : (words (catalog.spelling value)).length = 1 := by
  unfold spelling
  cases found : catalog.findParameter? value with
  | none => exact congrArg List.length (words_of_isWord free.isWord)
  | some parameter =>
    have keys := congrArg List.length (indexed.findParameter?_eq_some_iff.mp found).2.symm
    rw [PhraseTrie.key, PhraseTrie.key, List.length_map, List.length_map, words_of_isWord free.isWord] at keys
    exact keys.symm

end FreeWord

end Catalog

namespace Reading

variable {catalog : Catalog} {spaced : Bool} {value : String}

/-- A free word is read back in the catalog's spelling when the subject offers no factors. -/
theorem readsBack_of_freeWord (indexed : catalog.Indexed) (separate : catalog.Separate) {subject : Token}
    (parameter : subject.isParameter = true) (unlisted : Grammar.factorsOf catalog subject = [])
    (free : catalog.FreeWord value) : ReadsBack catalog spaced subject value (catalog.spelling value) := by
  intro symbol earlier remaining ends
  have part : Rendering.displayPart catalog spaced (some subject) (.factor value) = value := by
    rcases Rendering.displayPart_factor catalog spaced (some subject) value with
      asItself | ⟨other, governs, factor, offered, _⟩
    · exact asItself
    · obtain rfl := Option.some.inj governs
      rw [unlisted] at offered
      cases offered
  have unclaimed :
      catalogFactor? catalog (.operator symbol :: subject :: earlier) (words value ++ remaining) = none := by
    apply catalogFactor?_eq_none
    intro form listed
    rw [forms, unlisted] at listed
    cases listed
  have unbroken := free.unbroken indexed remaining
  have stop := ends.isBoundary indexed separate
  rw [part, expressionWords_of_plain free.plain]
  unfold Catalog.spelling
  cases found : catalog.findParameter? value with
  | none =>
    exact ⟨_, .itself _, scan_run unclaimed unbroken stop (find?_operator parameter) (free.whole subject found)⟩
  | some named =>
    have matched : catalog.matchParameter? [value] = some (1, named) := by
      rw [Catalog.matchParameter?_word free.isWord, found, Option.map_some]
    rw [words_of_isWord free.isWord] at unclaimed unbroken ⊢
    have begun := @scan_begun catalog _ remaining [value] [] named unclaimed unbroken stop (by simp) matched
    exact ⟨_, .named named.name (some named.id), begun⟩

end Reading

namespace Rendering

variable {spell : String → String} {tokens : List Token}

theorem unwords_respell_eq_iff
    (single : ∀ value, .factor value ∈ tokens → IsWord value ∧ (words (spell value)).length = 1) :
    unwords ((tokens.map (Token.respell spell)).map Token.payloadText) = unwords (tokens.map Token.payloadText) ↔
      ∀ value, .factor value ∈ tokens → spell value = value := by
  rw [List.map_map]
  constructor
  · intro same value member
    apply Eq.symm
    refine eq_of_unwords_eq ?_ same.symm (.factor value) member
    intro token inside
    cases token with
    | factor value => exact .inr (single value inside)
    | parameter | operator | logicalOperator | openParen | closeParen | unknown => exact .inl rfl
  · intro kept
    apply congrArg unwords
    apply List.map_congr_left
    intro token inside
    cases token with
    | factor value => exact kept value inside
    | parameter | operator | logicalOperator | openParen | closeParen | unknown => rfl

end Rendering

namespace Session

open Rendering

theorem finalize_of_written {session : Session}
    (indexed : session.catalog.Indexed) (written : session.Written) :
    session.finalize =
      if 0 < session.snapshot.depth then .error (.unclosedParens session.snapshot.depth)
      else .ok ⟨session.display, unwords (session.tokens.map Token.payloadText)⟩ := by
  have sound : firstFault? 0 session.tokens = none :=
    firstFault?_eq_none.mpr fun token member => sound_of_writes (written token member)
  rw [finalize_of_resolved fun token member => resolved_of_writes indexed (written token member), sound]
  rfl

variable {session : Session}

/-- Opening a display of free words gives the session back with every word in the catalog's spelling. -/
theorem tokens_load_display (indexed : session.catalog.Indexed) (separate : session.catalog.Separate)
    (legal : Grammar.Legal session.catalog session.tokens) (written : session.Written)
    (free : ∀ value, .factor value ∈ session.tokens → session.catalog.FreeWord value)
    (unlisted : ∀ name id, .parameter name id ∈ session.tokens →
      Grammar.factorsOf session.catalog (.parameter name id) = []) (again : Bool) :
    (load session.catalog again session.display).tokens =
      session.tokens.map (Token.respell session.catalog.spelling) := by
  have reads : ∀ before value after, ∀ parameter ∈ session.catalog.parameters,
      session.tokens = before ++ .factor value :: after → Grammar.governing? before = some parameter.token →
        Reading.ReadsBack session.catalog session.spaced parameter.token value (session.catalog.spelling value) := by
    intro before value after parameter _ same governs
    have operand : .factor value ∈ session.tokens := same ▸ List.mem_append_right _ List.mem_cons_self
    have earlier : parameter.token ∈ before := List.mem_reverse.mp (List.mem_of_find?_eq_some governs)
    have subject : parameter.token ∈ session.tokens := same ▸ List.mem_append_left _ earlier
    exact Reading.readsBack_of_freeWord indexed separate rfl (unlisted _ _ subject) (free value operand)
  simp only [load, display]
  exact Reading.parse_display_respelled indexed separate legal written reads

theorem finalize_of_respelled {reopened : Session} {spell : String → String}
    (indexed : session.catalog.Indexed) (written : session.Written)
    (same : reopened.catalog = session.catalog)
    (respelled : reopened.tokens = session.tokens.map (Token.respell spell)) {rendered : RenderedExpression}
    (finished : session.finalize = .ok rendered) :
    rendered.payload = unwords (session.tokens.map Token.payloadText) ∧
      ∃ later, reopened.finalize = .ok later ∧
        later.payload = unwords ((session.tokens.map (Token.respell spell)).map Token.payloadText) := by
  have rewritten : reopened.Written := by
    intro token member
    rw [respelled] at member
    obtain ⟨original, inside, rfl⟩ := List.mem_map.mp member
    exact same ▸ (written original inside).respell spell
  have depth : reopened.snapshot.depth = session.snapshot.depth := by
    show Grammar.parenDepth reopened.tokens = Grammar.parenDepth session.tokens
    rw [respelled, Grammar.parenDepth_respell]
  rw [finalize_of_written indexed written] at finished
  rw [finalize_of_written (same ▸ indexed) rewritten, depth, respelled]
  split at finished
  · cases finished
  next closed =>
    obtain rfl := Except.ok.inj finished
    exact ⟨rfl, _, if_neg closed, rfl⟩

/-- When a session of free words is saved and opened again, every word that names a parameter gets the spelling of the
catalog and nothing else changes. So it can be finished again, and to the same payload just when all such words had that
spelling already. -/
theorem finalize_load_display {parameters : List ParameterDef} {factors : FactorTable} {operators : List String}
    {catalog : Catalog} (built : Catalog.build parameters factors operators = .ok catalog)
    (separate : catalog.Separate) (spaced again : Bool) {edits : List Edit}
    (typed : ∀ token, Edit.appendToken token ∉ edits)
    (free : ∀ value, .factor value ∈ ((new catalog spaced).run edits).tokens → catalog.FreeWord value)
    (unlisted : ∀ name id, .parameter name id ∈ ((new catalog spaced).run edits).tokens →
      Grammar.factorsOf catalog (.parameter name id) = []) :
    let session := (new catalog spaced).run edits
    let reopened := load catalog again session.display
    reopened.tokens = session.tokens.map (Token.respell catalog.spelling) ∧
    ∀ rendered, session.finalize = .ok rendered →
      ∃ later, reopened.finalize = .ok later ∧
        (later.payload = rendered.payload ↔
          ∀ value, .factor value ∈ session.tokens →
            ∀ parameter, catalog.findParameter? value = some parameter → parameter.name = value) := by
  have indexed := Catalog.indexed_of_build built
  have blank : (new catalog spaced).Written := fun token member => absurd member List.not_mem_nil
  have written := written_run indexed blank typed
  have legal : Grammar.Legal catalog ((new catalog spaced).run edits).tokens :=
    legal_run (catalog_opened catalog spaced none) (legal_opened catalog spaced none) edits
  have same : ((new catalog spaced).run edits).catalog = catalog := catalog_run (new catalog spaced) edits
  dsimp only
  generalize (new catalog spaced).run edits = session at written legal same free unlisted ⊢
  clear blank
  subst same
  have respelled := tokens_load_display indexed separate legal written free unlisted again
  refine ⟨respelled, ?_⟩
  intro rendered finished
  have same : (load session.catalog again session.display).catalog = session.catalog := by simp only [load]
  obtain ⟨payload, later, reopened, laterPayload⟩ := finalize_of_respelled indexed written same respelled finished
  refine ⟨later, reopened, ?_⟩
  rw [payload, laterPayload, unwords_respell_eq_iff fun value member =>
    ⟨(free value member).isWord, (free value member).length_words_spelling indexed⟩]
  exact forall₂_congr fun value member => Catalog.spelling_eq_self

private def wordForm : Except CatalogError Catalog :=
  Catalog.build [⟨5, "Age"⟩, ⟨9, "Loan"⟩] .empty [">", "In List"]

private def wordEdits : List Edit :=
  [.append .parameter "age", .append .operator ">", .append .factor "Loan", .append .logicalOperator "or",
    .append .parameter "LOAN", .append .operator "in list", .append .factor "vip1"]

/-- One word is a name in the catalog's spelling, and the other is no name. -/
theorem finalize_load_display_wordForm :
    ∃ catalog, wordForm = .ok catalog ∧
      let session := (new catalog true).run wordEdits
      session.tokens =
        [.parameter "Age" (some 5), .operator ">", .factor "Loan", .logicalOperator "OR", .parameter "Loan" (some 9),
          .operator "In List", .factor "vip1"] ∧
      session.finalize = .ok ⟨"Age > Loan OR Loan In List vip1", "5 > Loan OR 9 In List vip1"⟩ ∧
      ∃ later, (load catalog false session.display).finalize = .ok later ∧
        later.payload = "5 > Loan OR 9 In List vip1" := by
  obtain ⟨catalog, built, separate, tokens, finished, loan, vip, age, amount, named, unnamed⟩ :
      ∃ catalog, wordForm = .ok catalog ∧ catalog.Separate ∧
        ((new catalog true).run wordEdits).tokens =
          [.parameter "Age" (some 5), .operator ">", .factor "Loan", .logicalOperator "OR",
            .parameter "Loan" (some 9), .operator "In List", .factor "vip1"] ∧
        ((new catalog true).run wordEdits).finalize =
          .ok ⟨"Age > Loan OR Loan In List vip1", "5 > Loan OR 9 In List vip1"⟩ ∧
        catalog.FreeWord "Loan" ∧ catalog.FreeWord "vip1" ∧
        Grammar.factorsOf catalog (.parameter "Age" (some 5)) = [] ∧
        Grammar.factorsOf catalog (.parameter "Loan" (some 9)) = [] ∧
        catalog.findParameter? "Loan" = some ⟨9, "Loan"⟩ ∧ catalog.findParameter? "vip1" = none :=
    ⟨_, rfl, ⟨by decide, by decide, by decide, by decide⟩, by decide, by decide, ⟨by decide, by decide, by decide⟩,
      ⟨by decide, by decide, by decide⟩, by decide, by decide, by decide, by decide⟩
  have typed : ∀ token, Edit.appendToken token ∉ wordEdits := by simp [wordEdits]
  have words : ∀ value, .factor value ∈ ((new catalog true).run wordEdits).tokens →
      value = "Loan" ∨ value = "vip1" := by
    rw [tokens]
    simp
  have free : ∀ value, .factor value ∈ ((new catalog true).run wordEdits).tokens → catalog.FreeWord value := by
    intro value member
    rcases words value member with rfl | rfl
    · exact loan
    · exact vip
  have unlisted : ∀ name id, .parameter name id ∈ ((new catalog true).run wordEdits).tokens →
      Grammar.factorsOf catalog (.parameter name id) = [] := by
    rw [tokens]
    intro name id member
    have known : name = "Age" ∧ id = some 5 ∨ name = "Loan" ∧ id = some 9 := by simpa using member
    rcases known with ⟨rfl, rfl⟩ | ⟨rfl, rfl⟩
    · exact age
    · exact amount
  obtain ⟨later, reopened, kept⟩ := (finalize_load_display built separate true false typed free unlisted).2 _ finished
  refine ⟨catalog, built, tokens, finished, later, reopened, kept.mpr ?_⟩
  intro value member parameter found
  rcases words value member with rfl | rfl
  · rw [named] at found
    cases found
    rfl
  · rw [unnamed] at found
    cases found

/-- A word that names a parameter in other letters comes back in the catalog's spelling, and with it the payload. -/
theorem finalize_load_display_respelled :
    ∃ catalog, Catalog.build [⟨9, "Loan"⟩] .empty [">"] = .ok catalog ∧ catalog.Separate ∧
      catalog.FreeWord "loan" ∧ Grammar.factorsOf catalog (.parameter "Loan" (some 9)) = [] ∧
      let session := (new catalog false).run
        [.append .parameter "Loan", .append .operator ">", .append .factor "loan"]
      session.tokens = [.parameter "Loan" (some 9), .operator ">", .factor "loan"] ∧
      session.finalize = .ok ⟨"Loan > loan", "9 > loan"⟩ ∧
      (load catalog false session.display).finalize = .ok ⟨"Loan > Loan", "9 > Loan"⟩ :=
  ⟨_, rfl, ⟨by decide, by decide, by decide, by decide⟩, ⟨by decide, by decide, by decide⟩, by decide, by decide,
    by decide, by decide⟩

end Session

end Criteria
