import Criteria.Proofs.CatalogLookups
import Criteria.Proofs.CutRuns
/-!
Settled words and the steps in which they are read. Each step takes some words for one token. The words of that token
are the same up to letter case, a range closed up, or another spelling of a listed factor; settled words are those in
which such a change brings up nothing else that the catalog knows.
-/

namespace Criteria

open Text

namespace Reading

/-- The words may be shown as the others: names and phrases as the catalog spells them, ranges closed up, and listed
factors in any of their spellings. -/
inductive Respelled (catalog : Catalog) : List String → List String → Prop
  | nil : Respelled catalog [] []
  | word {words shown : List String} (word : String) (rest : Respelled catalog words shown) :
      Respelled catalog (word :: words) (word :: shown)
  | name {words shown taken : List String} {parameter : ParameterDef} (known : parameter ∈ catalog.parameters)
      (same : taken.map lowercase = PhraseTrie.key parameter.name) (rest : Respelled catalog words shown) :
      Respelled catalog (taken ++ words) (expressionWords parameter.name ++ shown)
  | phrase {words shown taken : List String} {phrase : Phrase} (known : phrase ∈ catalog.phraseList)
      (same : taken.map lowercase = PhraseTrie.key phrase.text) (rest : Respelled catalog words shown) :
      Respelled catalog (taken ++ words) (expressionWords phrase.text ++ shown)
  | closed {words shown : List String} (lower upper : String) (rest : Respelled catalog words shown) :
      Respelled catalog ([lower, "-", upper] ++ words) ([lower ++ "-" ++ upper] ++ shown)
  | listed {words shown taken spelled : List String} {parameter : ParameterDef} {value : String}
      (known : parameter ∈ catalog.parameters) (read : (taken, value) ∈ forms catalog parameter.token)
      (offered : (spelled, value) ∈ forms catalog parameter.token) (rest : Respelled catalog words shown) :
      Respelled catalog (taken ++ words) (spelled ++ shown)

def Resembles (catalog : Catalog) (form words : List String) : Prop :=
  ∃ shown, Respelled catalog words shown ∧ form <+: shown

structure Unkeyed (catalog : Catalog) (word : String) : Prop where
  names : ∀ parameter ∈ catalog.parameters, lowercase word ∉ PhraseTrie.key parameter.name
  phrases : ∀ phrase ∈ catalog.phraseList, lowercase word ∉ PhraseTrie.key phrase.text

def Operand (catalog : Catalog) (words : List String) (parameter : ParameterDef) (symbol : String)
    (rest : List String) : Prop :=
  parameter ∈ catalog.parameters ∧ symbol ∈ catalog.operators ∧
    ∃ before name sign, words = before ++ name ++ sign ++ rest ∧
      name.map lowercase = PhraseTrie.key parameter.name ∧ sign.map lowercase = PhraseTrie.key symbol

/-- The catalog knows the factor that was read from these words as nothing else: if it is a name it is spelled as one,
and no phrase has a word in it with which another of its spellings begins. -/
structure Steady (catalog : Catalog) (parameter : ParameterDef) (taken : List String) (value : String) : Prop where
  named : ∀ other, catalog.findParameter? value = some other → other.name = value
  unspoken : ∀ spelled, (spelled, value) ∈ forms catalog parameter.token → spelled ≠ taken →
    ∀ word, spelled.head? = some word → ∀ phrase ∈ catalog.phraseList, lowercase word ∉ PhraseTrie.key phrase.text

/-- Uncut words read the same when they are shown in the catalog's spelling: closing up a range makes no word that the
catalog has in a name or phrase, and behind a parameter and an operator a listed factor is read and steady, unless none
is resembled, and none that is reaches further. -/
structure Settled (catalog : Catalog) (words : List String) : Prop where
  ranges : ∀ lower upper, [lower, "-", upper] <:+: words → Unkeyed catalog (lower ++ "-" ++ upper)
  factors : ∀ parameter symbol rest, Operand catalog words parameter symbol rest →
    ∀ form ∈ forms catalog parameter.token, form.1 ≠ [] → Resembles catalog form.1 rest →
      ∃ count value, catalogFactor? catalog [.operator symbol, parameter.token] rest = some (count, value) ∧
        (form.2 = value ∨ (fold form.2).length < (fold value).length)
  steady : ∀ parameter symbol rest, Operand catalog words parameter symbol rest →
    ∀ count value, catalogFactor? catalog [.operator symbol, parameter.token] rest = some (count, value) →
      Steady catalog parameter (rest.take count) value

def Spelled (word : String) : Prop := ∃ text, word ∈ expressionWords text

theorem Spelled.isWord {word : String} (spelled : Spelled word) : IsWord word :=
  isWord_of_mem_expressionWords spelled.choose_spec

/-- A step that takes words for something else than a listed factor. -/
inductive Piece (catalog : Catalog) (passed : List Token) (remaining : List String) : List String → Token → Prop
  | paren {word : String} {token : Token} (listed : (word, token) ∈ [("(", Token.openParen), (")", .closeParen)]) :
      Piece catalog passed remaining [word] token
  | phrase {word : String} {rest : List String} {phrase : Phrase} (notOpen : word ≠ "(") (notClose : word ≠ ")")
      (matched : catalog.matchPhrase? (word :: rest ++ remaining) = some ((word :: rest).length, phrase)) :
      Piece catalog passed remaining (word :: rest) phrase.token
  | name {taken : List String} {parameter : ParameterDef} (nonempty : taken ≠ [])
      (unbroken : Unbroken catalog taken remaining)
      (matched : catalog.matchParameter? (taken ++ untilBoundary catalog remaining) = some (taken.length, parameter)) :
      Piece catalog passed remaining taken parameter.token
  | run {taken : List String} (nonempty : taken ≠ []) (unbroken : Unbroken catalog taken remaining)
      (stop : isBoundary catalog remaining = true) (unnamed : catalog.matchParameter? taken = none)
      (kept : KnownRun catalog passed (normalizeFactor (unwords taken)) ∨ ∀ word ∈ taken, ¬ Spoken word.toList)
      (closed : ∀ lower upper, taken = [lower, "-", upper] → Unkeyed catalog (lower ++ "-" ++ upper)) :
      Piece catalog passed remaining taken (.factor (normalizeFactor (unwords taken)))

variable {catalog : Catalog} {passed tokens : List Token} {token : Token} {taken remaining : List String}

theorem Piece.nonempty (piece : Piece catalog passed remaining taken token) : taken ≠ [] := by
  cases piece with
  | paren | phrase => simp
  | name nonempty => exact nonempty
  | run nonempty => exact nonempty

theorem runTokens_of_kept (nonempty : taken ≠ []) (solid : ∀ word ∈ taken, IsWord word)
    (kept : KnownRun catalog passed (normalizeFactor (unwords taken)) ∨ ∀ word ∈ taken, ¬ Spoken word.toList) :
    runTokens catalog passed (unwords taken) = [.factor (normalizeFactor (unwords taken))] := by
  apply runTokens_of_uncut
  · rw [unwords_of_solid solid]
    exact nonempty
  · refine kept.imp_right fun silent block member => Bool.eq_false_iff.mpr fun logical => ?_
    exact not_spoken_unwords silent (spoken_of_mem_blocks member logical)

theorem Piece.stretch (piece : Piece catalog passed remaining taken token) (solid : ∀ word ∈ taken, IsWord word) :
    Stretch catalog passed remaining taken [token] := by
  cases piece with
  | paren listed => exact .paren listed
  | phrase notOpen notClose matched => exact .phrase notOpen notClose matched
  | name nonempty unbroken matched => exact .name nonempty unbroken matched
  | run nonempty unbroken stop unnamed kept =>
    rw [← runTokens_of_kept nonempty solid kept]
    exact .run nonempty unbroken stop unnamed

theorem Piece.scan (piece : Piece catalog passed remaining taken token) (solid : ∀ word ∈ taken, IsWord word)
    (unclaimed : catalogFactor? catalog passed (taken ++ remaining) = none) :
    scanFrom catalog passed 0 (taken ++ remaining) = scanFrom catalog (token :: passed) 0 remaining :=
  (piece.stretch solid).scan unclaimed

theorem isBoundary_of_isLogicalWord (indexed : catalog.Indexed) {word : String}
    (logical : isLogicalWord word.toList = true) (rest : List String) : isBoundary catalog (word :: rest) = true := by
  have matches_of {symbol : String} (listed : symbol ∈ Catalog.logicalOperators)
      (same : PhraseTrie.key symbol = [lowercase word]) : isBoundary catalog (word :: rest) = true := by
    have begins : PhraseTrie.key (Phrase.logical symbol).text <+: (word :: rest).map lowercase := by
      rw [Phrase.text, same]
      exact List.cons_prefix_cons.mpr ⟨rfl, List.nil_prefix⟩
    obtain ⟨count, stored, matched, _⟩ :=
      indexed.phrases.exists_longestMatch (Catalog.logical_mem_phraseList.mpr listed) begins
    simp [isBoundary, Catalog.matchPhrase?, matched]
  have keys : PhraseTrie.key "AND" = ["and"] ∧ PhraseTrie.key "OR" = ["or"] := by decide
  have lowered := lowercase_of_isLogicalWord logical
  rw [String.ofList_toList] at lowered
  rcases lowered with same | same
  · exact matches_of (by decide) (same ▸ keys.1)
  · exact matches_of (by decide) (same ▸ keys.2)

theorem Unbroken.plain (indexed : catalog.Indexed) (unbroken : Unbroken catalog taken remaining) {word : String}
    (member : word ∈ taken) : isLogicalWord word.toList = false := by
  obtain ⟨before, after, shape⟩ := List.append_of_mem member
  have inside := unbroken (word :: after) ⟨before, shape.symm⟩ (List.cons_ne_nil _ _)
  refine Bool.eq_false_iff.mpr fun logical => ?_
  rw [List.cons_append, isBoundary_of_isLogicalWord indexed logical] at inside
  cases inside

theorem Stretch.exists_piece (indexed : catalog.Indexed) {piece : List Token}
    (stretch : Stretch catalog passed remaining taken piece) (solid : ∀ word ∈ taken, IsWord word)
    (single : piece.length = 1)
    (ranges : ∀ lower upper, taken = [lower, "-", upper] → Unkeyed catalog (lower ++ "-" ++ upper)) :
    ∃ token, piece = [token] ∧ Piece catalog passed remaining taken token := by
  cases stretch with
  | paren listed => exact ⟨_, rfl, .paren listed⟩
  | phrase notOpen notClose matched => exact ⟨_, rfl, .phrase notOpen notClose matched⟩
  | name nonempty unbroken matched => exact ⟨_, rfl, .name nonempty unbroken matched⟩
  | run nonempty unbroken stop unnamed =>
    have kept := known_or_silent solid (fun word => unbroken.plain indexed) single
    exact ⟨_, runTokens_of_kept nonempty solid kept, .run nonempty unbroken stop unnamed kept ranges⟩

structure Stands (catalog : Catalog) (token : Token) (words : List String) : Prop where
  parameter : token.isParameter = true → ∃ parameter ∈ catalog.parameters,
    token = parameter.token ∧ words.map lowercase = PhraseTrie.key parameter.name
  operator : ∀ symbol, token = .operator symbol →
    symbol ∈ catalog.operators ∧ words.map lowercase = PhraseTrie.key symbol

theorem stands_of_other (apart : token.isParameter = false) (solid : token.kind ≠ .operator) (words : List String) :
    Stands catalog token words where
  parameter := fun same => by rw [apart] at same; cases same
  operator := fun symbol same => absurd (by rw [same]; rfl) solid

theorem Piece.stands (indexed : catalog.Indexed) (piece : Piece catalog passed remaining taken token) :
    Stands catalog token taken := by
  cases piece with
  | paren listed =>
    simp only [List.mem_cons, Prod.mk.injEq, List.not_mem_nil, or_false] at listed
    rcases listed with ⟨rfl, rfl⟩ | ⟨rfl, rfl⟩ <;> exact stands_of_other rfl (by simp [Token.kind]) _
  | @phrase word rest phrase _ _ matched =>
    obtain ⟨member, _, _, place⟩ := indexed.phrases.of_longestMatch matched
    rw [List.take_left] at place
    cases phrase with
    | operator symbol =>
      refine ⟨fun same => absurd same (by simp [Phrase.token, Token.isParameter]), fun other same => ?_⟩
      obtain rfl := Token.operator.inj same
      exact ⟨Catalog.operator_mem_phraseList.mp member, place⟩
    | logical symbol => exact stands_of_other rfl (by simp [Phrase.token, Token.logical, Token.kind]) _
  | @name _ parameter _ _ matched =>
    obtain ⟨member, _, _, place⟩ := indexed.of_matchParameter? matched
    rw [List.take_left] at place
    exact ⟨fun _ => ⟨parameter, member, rfl, place⟩, fun symbol same => by cases same⟩
  | run => exact stands_of_other rfl (by simp [Token.kind]) _

/-- The last tokens stand for the words in front: a name, or a name and an operator. -/
structure Behind (catalog : Catalog) (passed : List Token) (words : List String) : Prop where
  subject : ∀ subject earlier, passed = subject :: earlier → subject.isParameter = true →
    ∃ parameter ∈ catalog.parameters, subject = parameter.token ∧
      ∃ before name, words = before ++ name ∧ name.map lowercase = PhraseTrie.key parameter.name
  comparison : ∀ symbol subject earlier, passed = .operator symbol :: subject :: earlier → subject.isParameter = true →
    ∃ parameter, subject = parameter.token ∧ ∀ rest, Operand catalog (words ++ rest) parameter symbol rest

theorem behind_nil : Behind catalog [] [] where
  subject := fun _ _ same => by cases same
  comparison := fun _ _ _ same => by cases same

theorem Behind.step {words group : List String} (behind : Behind catalog passed words)
    (stands : Stands catalog token group) : Behind catalog (token :: passed) (words ++ group) where
  subject := by
    intro subject earlier same isParameter
    obtain ⟨rfl, _⟩ := List.cons.inj same
    obtain ⟨parameter, listed, rfl, place⟩ := stands.parameter isParameter
    exact ⟨parameter, listed, rfl, words, group, rfl, place⟩
  comparison := by
    intro symbol subject earlier same isParameter
    obtain ⟨rfl, rfl⟩ := List.cons.inj same
    obtain ⟨known, sign⟩ := stands.operator symbol rfl
    obtain ⟨parameter, listed, rfl, before, name, rfl, place⟩ := behind.subject subject earlier rfl isParameter
    exact ⟨parameter, rfl, fun rest => ⟨listed, known, before, name, group, rfl, place, sign⟩⟩

/-- The words are read as the tokens, and the words shown for them follow token by token. A listed factor may be shown
in any of its spellings, and what else is shown are the words of the token. -/
inductive Reread (catalog : Catalog) : List Token → List String → List String → List Token → Prop
  | nil (passed : List Token) : Reread catalog passed [] [] []
  | listed {symbol value : String} {parameter : ParameterDef} {earlier tokens : List Token}
      {taken remaining shown others : List String} (known : parameter ∈ catalog.parameters)
      (found : catalogFactor? catalog (.operator symbol :: parameter.token :: earlier) (taken ++ remaining) =
        some (taken.length, value))
      (longest : ∀ form ∈ forms catalog parameter.token, form.1 ≠ [] →
        Resembles catalog form.1 (taken ++ remaining) → form.2 = value ∨ (fold form.2).length < (fold value).length)
      (steady : Steady catalog parameter taken value) (offered : (shown, value) ∈ forms catalog parameter.token)
      (later : Reread catalog (.factor value :: .operator symbol :: parameter.token :: earlier) remaining others
        tokens) :
      Reread catalog (.operator symbol :: parameter.token :: earlier) (taken ++ remaining) (shown ++ others)
        (.factor value :: tokens)
  | kept {passed tokens : List Token} {taken remaining others : List String} {token : Token}
      (formless : ∀ symbol subject earlier, passed = .operator symbol :: subject :: earlier →
        ∀ form ∈ forms catalog subject, form.1 ≠ [] → ¬ Resembles catalog form.1 (taken ++ remaining))
      (piece : Piece catalog passed remaining taken token) (later : Reread catalog (token :: passed) remaining others tokens) :
      Reread catalog passed (taken ++ remaining) (expressionWords token.text ++ others) (token :: tokens)

theorem mem_forms {subject : Token} {form : List String × String} (member : form ∈ forms catalog subject) :
    form.1.flatMap fold = fold form.2 ∧ (expressionWords form.2, form.2) ∈ forms catalog subject := by
  obtain ⟨factor, offered, spelled⟩ := List.mem_flatMap.mp member
  have canonical : (expressionWords factor.canonical, factor.canonical) ∈ forms catalog subject :=
    List.mem_flatMap.mpr ⟨factor, offered, List.mem_cons_self⟩
  simp only [factorForms, List.mem_cons, List.not_mem_nil, or_false] at spelled
  rcases spelled with rfl | rfl
  · refine ⟨?_, canonical⟩
    rw [flatMap_fold_expressionWords]
  · refine ⟨?_, canonical⟩
    rw [flatMap_fold_expressionWords, fold_spaced]

theorem isParameter_of_mem_forms {subject : Token} {form : List String × String}
    (member : form ∈ forms catalog subject) : subject.isParameter = true := by
  cases subject with
  | parameter => rfl
  | factor | operator | logicalOperator | openParen | closeParen | unknown =>
    simp [forms, Grammar.factorsOf, Grammar.parameterId?] at member

theorem exists_reread (indexed : catalog.Indexed) {total consumed words : List String}
    (settled : Settled catalog total) (solid : ∀ word ∈ total, IsWord word) (split : total = consumed ++ words)
    (behind : Behind catalog passed consumed) (uncut : ∀ step ∈ stepsFrom catalog passed 0 words, step.1.length = 1) :
    ∃ tokens, Reread catalog passed words (tokens.flatMap fun token => expressionWords token.text) tokens := by
  induction bound : words.length using Nat.strongRecOn generalizing consumed words passed with
  | ind limit ih =>
    cases words with
    | nil => exact ⟨[], .nil passed⟩
    | cons word rest =>
      obtain ⟨taken, remaining, piece, shape, reads⟩ := exists_reads indexed passed word rest
      rw [shape] at split uncut ⊢
      rw [reads.steps] at uncut
      obtain ⟨single, later⟩ := List.forall_mem_cons.mp uncut
      have shorter : remaining.length < limit := by
        have nonempty := List.length_pos_iff.mpr reads.nonempty
        rw [← bound, shape, List.length_append]
        omega
      have on {token : Token} (same : piece = [token]) (stands : Stands catalog token taken) :=
        @ih _ shorter (token :: passed) (consumed ++ taken) remaining (by rw [split, List.append_assoc])
          (behind.step stands) (by simpa [same] using later) rfl
      cases reads with
      | @listed value found =>
        have claimed := catalogFactor?_shape found
        obtain ⟨symbol, subject, earlier, rfl, isParameter, member, _⟩ := claimed
        rw [List.take_left] at member
        obtain ⟨parameter, rfl, operand⟩ := behind.comparison symbol subject earlier rfl isParameter
        have operand : Operand catalog total parameter symbol (taken ++ remaining) := split ▸ operand _
        have steady := settled.steady parameter symbol _ operand taken.length value found
        rw [List.take_left] at steady
        obtain ⟨tokens, reread⟩ := on rfl (stands_of_other rfl (by simp [Token.kind]) _)
        refine ⟨.factor value :: tokens, .listed operand.1 found ?_ steady (mem_forms member).2 reread⟩
        intro form offered nonempty resembles
        obtain ⟨_, other, same, closest⟩ := settled.factors parameter symbol _ operand form offered nonempty resembles
        have same : catalogFactor? catalog (.operator symbol :: parameter.token :: earlier) (taken ++ remaining) = _ :=
          same
        rw [found] at same
        obtain ⟨_, rfl⟩ := Prod.mk.inj (Option.some.inj same)
        exact closest
      | stretch unclaimed stretch =>
        have inside : taken <:+: total := ⟨consumed, remaining, by rw [split, List.append_assoc]⟩
        obtain ⟨token, rfl, piece⟩ := stretch.exists_piece indexed
          (fun other member => solid other (inside.subset member)) single
          fun lower upper same => settled.ranges lower upper (same ▸ inside)
        obtain ⟨tokens, reread⟩ := on rfl (piece.stands indexed)
        refine ⟨token :: tokens, .kept ?_ piece reread⟩
        rintro symbol subject earlier rfl form member nonempty resembles
        obtain ⟨parameter, rfl, operand⟩ := behind.comparison symbol subject earlier rfl
          (isParameter_of_mem_forms member)
        have operand : Operand catalog total parameter symbol (taken ++ remaining) := split ▸ operand _
        obtain ⟨_, _, claimed, _⟩ := settled.factors parameter symbol _ operand form member nonempty resembles
        have claimed : catalogFactor? catalog (.operator symbol :: parameter.token :: earlier) _ = _ := claimed
        rw [unclaimed] at claimed
        cases claimed

end Reading

end Criteria
