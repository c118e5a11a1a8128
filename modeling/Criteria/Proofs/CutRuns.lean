import Criteria.Proofs.CatalogSpelling
import Criteria.Proofs.ExpressionWords
import Criteria.Proofs.ReadingSteps
/-!
Runs that are cut. Each step of reading makes its tokens of some words, and a run that is cut makes several. It is cut
at each AND and OR between characters that are no word characters, so it can be cut word by word: what lies between two
cuts are whole words and parts of words.
-/

namespace Criteria.Reading

open Text

variable (catalog : Catalog)

/-- The tokens of a step of reading, and the words that they are read from. -/
abbrev Step := List Token × List String

def stepsFrom (passed : List Token) : Nat → List String → List Step
  | _, [] => []
  | taken + 1, _ :: rest => stepsFrom passed taken rest
  | 0, word :: rest =>
    let (tokens, count) := tokensAt catalog passed word rest
    (tokens, (word :: rest).take count) :: stepsFrom (tokens.reverse ++ passed) (count - 1) rest

def steps (words : List String) : List Step := stepsFrom catalog [] 0 words

/-- A run that is cut makes more than one token. -/
def Uncut (words : List String) : Prop := ∀ step ∈ steps catalog words, step.1.length = 1

/-- As a whole the run is a factor of the parameter that governs it. -/
def KnownRun (passed : List Token) (value : String) : Prop :=
  ((passed.find? Token.isParameter).bind fun governing =>
    (Grammar.parameterId? catalog governing).bind (catalog.findFactor? · value)).isSome = true

variable {catalog} {passed piece : List Token} {taken remaining : List String} {word : String}

theorem stepsFrom_taken (passed : List Token) (taken remaining : List String) :
    stepsFrom catalog passed taken.length (taken ++ remaining) = stepsFrom catalog passed 0 remaining := by
  induction taken with
  | nil => rfl
  | cons word taken ih => rw [List.cons_append, List.length_cons, stepsFrom, ih]

theorem stepsFrom_step {tokens : List Token} {rest : List String} (remaining : List String)
    (read : tokensAt catalog passed word (rest ++ remaining) = (tokens, (word :: rest).length)) :
    stepsFrom catalog passed 0 (word :: rest ++ remaining) =
      (tokens, word :: rest) :: stepsFrom catalog (tokens.reverse ++ passed) 0 remaining := by
  rw [List.cons_append, stepsFrom, read]
  dsimp only
  rw [List.length_cons, Nat.add_sub_cancel, stepsFrom_taken, ← List.length_cons (a := word), ← List.cons_append,
    List.take_left]

theorem Reads.steps (reads : Reads catalog passed remaining taken piece) :
    stepsFrom catalog passed 0 (taken ++ remaining) =
      (piece, taken) :: stepsFrom catalog (piece.reverse ++ passed) 0 remaining := by
  obtain ⟨word, rest, rfl⟩ := List.exists_cons_of_ne_nil reads.nonempty
  exact stepsFrom_step remaining reads.read

theorem stepsFrom_eq_nil {words : List String} (read : stepsFrom catalog passed 0 words = []) : words = [] := by
  cases words with
  | nil => rfl
  | cons word rest => simp [stepsFrom] at read

theorem stepsFrom_eq_cons (indexed : catalog.Indexed) {words : List String} {step : Step} {later : List Step}
    (read : stepsFrom catalog passed 0 words = step :: later) :
    ∃ remaining, words = step.2 ++ remaining ∧ Reads catalog passed remaining step.2 step.1 ∧
      stepsFrom catalog (step.1.reverse ++ passed) 0 remaining = later := by
  cases words with
  | nil => cases read
  | cons word rest =>
    obtain ⟨taken, remaining, piece, shape, reads⟩ := exists_reads indexed passed word rest
    rw [shape, reads.steps] at read
    obtain ⟨rfl, behind⟩ := List.cons.inj read
    exact ⟨remaining, shape, reads, behind⟩

theorem scanFrom_eq_steps (passed : List Token) (taken : Nat) (words : List String) :
    scanFrom catalog passed taken words =
      passed.reverse ++ (stepsFrom catalog passed taken words).flatMap Prod.fst := by
  induction words generalizing passed taken with
  | nil => simp [scanFrom, stepsFrom]
  | cons word rest ih =>
    cases taken with
    | zero => simp [scanFrom, stepsFrom, ih]
    | succ taken => rw [scanFrom, stepsFrom, ih]

theorem scan_eq_steps (words : List String) : scan catalog words = (steps catalog words).flatMap Prod.fst := by
  rw [scan, scanFrom_eq_steps, List.reverse_nil, List.nil_append, steps]

theorem blocks_append {before operator after : List Char} (logical : isLogicalWord operator = true)
    (starts : ∀ c ∈ before.getLast?, isWordCharacter c = false)
    (ends : ∀ c ∈ after.head?, isWordCharacter c = false) :
    blocks (before ++ operator ++ after) = blocks before ++ operator :: blocks after := by
  have letters := isWordCharacter_of_isLogicalWord logical
  have nonempty := isLogicalWord_ne_nil logical
  have whole : List.splitBy _ operator = [operator] := blocks_of_forall nonempty letters
  rw [blocks, List.append_assoc, List.splitBy_append, List.splitBy_append, whole]
  · rfl
  · intro left last right first
    simp [letters left (List.mem_of_mem_getLast? last), ends right first]
  · intro left last right first
    rw [List.head?_append_of_ne_nil _ nonempty] at first
    simp [starts left last, letters right (List.mem_of_mem_head? first)]

theorem exists_block_of_spoken {text : List Char} (spoken : Spoken text) :
    ∃ block ∈ blocks text, isLogicalWord block = true := by
  obtain ⟨before, operator, after, rfl, logical, starts, ends⟩ := spoken
  exact ⟨operator, by rw [blocks_append logical starts ends]; simp, logical⟩

private theorem filter_of_cutBlocks_eq_nil {pending : List Char} {pieces : List (List Char)}
    (nothing : cutBlocks pending pieces = []) : (pending ++ pieces.flatten).filter (!isBlank ·) = [] := by
  induction pieces generalizing pending with
  | nil =>
    simp only [cutBlocks, factorPart] at nothing
    split at nothing
    next blank => rw [List.flatten_nil, List.append_nil, ← filter_trimBlank, List.isEmpty_iff.mp blank, List.filter_nil]
    next => cases nothing
  | cons block pieces ih =>
    rw [cutBlocks] at nothing
    split at nothing
    next => simp at nothing
    next => rw [List.flatten_cons, ← List.append_assoc, ih nothing]

theorem filter_of_length_cutBlocks {pending : List Char} {pieces : List (List Char)}
    (single : (cutBlocks pending pieces).length = 1) :
    (∀ block ∈ pieces, isLogicalWord block = false) ∨
      ∃ block, isLogicalWord block = true ∧ (pending ++ pieces.flatten).filter (!isBlank ·) = block := by
  induction pieces generalizing pending with
  | nil => exact .inl fun block member => by cases member
  | cons block pieces ih =>
    rw [cutBlocks] at single
    split at single
    next logical =>
      rw [List.length_append, List.length_cons] at single
      have first : cutBlocks pending [] = [] := List.length_eq_zero_iff.mp (by rw [cutBlocks]; omega)
      have rest : cutBlocks [] pieces = [] := List.length_eq_zero_iff.mp (by omega)
      have before := filter_of_cutBlocks_eq_nil first
      have behind := filter_of_cutBlocks_eq_nil rest
      have letters : logicalLetters.all (!isBlank ·) = true := by decide
      refine .inr ⟨block, logical, ?_⟩
      rw [List.flatten_nil, List.append_nil] at before
      rw [List.nil_append] at behind
      rw [List.flatten_cons, List.filter_append, List.filter_append, before, behind, List.nil_append, List.append_nil]
      exact List.filter_eq_self.mpr fun c inside =>
        List.all_eq_true.mp letters c (mem_logicalLetters_of_isLogicalWord logical c inside)
    next plain =>
      rcases ih single with silent | ⟨other, logical, rest⟩
      · exact .inl (List.forall_mem_cons.mpr ⟨by simpa using plain, silent⟩)
      · exact .inr ⟨other, logical, by rw [List.flatten_cons, ← List.append_assoc, rest]⟩

theorem isLogicalWord_of_spoken {text : List Char} (spoken : Spoken text)
    (letters : ∀ c ∈ text, isWordCharacter c = true) : isLogicalWord text = true := by
  obtain ⟨block, member, logical⟩ := exists_block_of_spoken spoken
  have nonempty : text ≠ [] := by
    rintro rfl
    cases member
  rw [blocks_of_forall nonempty letters, List.mem_singleton] at member
  exact member ▸ logical

theorem silent_of_length (solid : ∀ word ∈ taken, IsWord word)
    (plain : ∀ word ∈ taken, isLogicalWord word.toList = false) (single : (cutRun (unwords taken)).length = 1) :
    ∀ word ∈ taken, ¬ Spoken word.toList := by
  intro word member spoken
  have whole : (blocks (unwords taken).toList).flatten = (unwords taken).toList := List.flatten_splitBy ..
  obtain ⟨block, inside, logical⟩ := exists_block_of_spoken (spoken_unwords member spoken)
  rcases filter_of_length_cutBlocks single with silent | ⟨other, letters, rest⟩
  · rw [silent block inside] at logical
    cases logical
  · rw [List.nil_append, whole, filter_unwords (by decide)] at rest
    have only (c : Char) (here : c ∈ word.toList) : c ∈ other := by
      rw [← rest]
      exact List.mem_flatMap.mpr ⟨word, member, List.mem_filter.mpr ⟨here, by simp [(solid word member).2 c here]⟩⟩
    have same := isLogicalWord_of_spoken spoken fun c here => isWordCharacter_of_isLogicalWord letters c (only c here)
    rw [plain word member] at same
    cases same

/-- A run that makes one token only is known, or no AND and no OR is spoken in it. -/
theorem known_or_silent (solid : ∀ word ∈ taken, IsWord word)
    (plain : ∀ word ∈ taken, isLogicalWord word.toList = false)
    (single : (runTokens catalog passed (unwords taken)).length = 1) :
    KnownRun catalog passed (normalizeFactor (unwords taken)) ∨ ∀ word ∈ taken, ¬ Spoken word.toList := by
  by_cases known : KnownRun catalog passed (normalizeFactor (unwords taken))
  · exact .inl known
  · have cut : runTokens catalog passed (unwords taken) = cutRun (unwords taken) := by
      rw [runTokens]
      exact if_neg known
    exact .inr (silent_of_length solid plain (cut ▸ single))

section Cutting

theorem factorPart_cases (part : List Char) :
    factorPart part = [] ∨
      words (String.ofList part) ≠ [] ∧ factorPart part = [.factor (normalizeFactor (String.ofList part))] := by
  by_cases blank : words (String.ofList part) = []
  · left
    simp only [factorPart]
    split
    next => rfl
    next occupied =>
      have solid := words_ne_nil_iff.mpr (nonblank_trimBlank (by simpa using occupied))
      have trimmed := words_trim (String.ofList part)
      rw [trim, String.toList_ofList] at trimmed
      exact absurd (trimmed.trans blank) solid
  · exact .inr ⟨blank, by simpa using factorPart_of_nonblank blank⟩

theorem factorPart_congr {first second : String} (same : words first = words second) :
    factorPart first.toList = factorPart second.toList := by
  have blank {text : String} (empty : words text = []) : factorPart text.toList = [] := by
    rcases factorPart_cases text.toList with nothing | ⟨nonblank, _⟩
    · exact nothing
    · rw [String.ofList_toList] at nonblank
      exact absurd empty nonblank
  by_cases empty : words first = []
  · rw [blank empty, blank (same ▸ empty)]
  · rw [factorPart_of_nonblank empty, factorPart_of_nonblank (same ▸ empty)]
    simp only [normalizeFactor, collapse, same]

theorem cutRun_of_silent {run : String} (silent : ¬ Spoken run.toList) : cutRun run = factorPart run.toList := by
  have plain (block : List Char) (member : block ∈ blocks run.toList) : isLogicalWord block = false :=
    Bool.eq_false_iff.mpr fun logical => silent (spoken_of_mem_blocks member logical)
  rw [cutRun, cutBlocks_of_forall plain, List.nil_append, blocks, List.flatten_splitBy]

theorem cutBlocks_append {block : List Char} (logical : isLogicalWord block = true) (pending : List Char)
    (pieces later : List (List Char)) :
    cutBlocks pending (pieces ++ block :: later) =
      cutBlocks pending pieces ++ .logical (String.ofList block) :: cutBlocks [] later := by
  induction pieces generalizing pending with
  | nil => rw [List.nil_append, cutBlocks.eq_2, if_pos logical, cutBlocks]
  | cons piece pieces ih =>
    rw [List.cons_append, cutBlocks, cutBlocks]
    split
    · rw [ih, List.append_assoc, List.cons_append]
    · exact ih _

/-- What stands on the two sides of a cut is cut on its own. -/
theorem cutRun_append {before operator after : String} (logical : isLogicalWord operator.toList = true)
    (starts : ∀ c ∈ before.toList.getLast?, isWordCharacter c = false)
    (ends : ∀ c ∈ after.toList.head?, isWordCharacter c = false) :
    cutRun (before ++ operator ++ after) = cutRun before ++ .logical operator :: cutRun after := by
  rw [cutRun, String.toList_append, String.toList_append, blocks_append logical starts ends, cutBlocks_append logical,
    String.ofList_toList]
  rfl

/-- The words that a word is cut into. -/
def parts (word : String) : List String := (cutRun word).map Token.text

/-- The tokens of words among which the logical operators are words of their own. `pending` are the words since the last
of these. -/
def cutWords (pending : List String) : List String → List Token
  | [] => factorPart (unwords pending).toList
  | word :: rest =>
    if isLogicalWord word.toList then factorPart (unwords pending).toList ++ .logical word :: cutWords [] rest
    else cutWords (pending ++ [word]) rest

theorem cutWords_of_forall {rest : List String} (plain : ∀ word ∈ rest, isLogicalWord word.toList = false)
    (pending : List String) : cutWords pending rest = factorPart (unwords (pending ++ rest)).toList := by
  induction rest generalizing pending with
  | nil => rw [cutWords, List.append_nil]
  | cons word rest ih =>
    obtain ⟨here, later⟩ := List.forall_mem_cons.mp plain
    rw [cutWords, here, if_neg Bool.false_ne_true, ih later, List.append_assoc, List.singleton_append]

theorem cutWords_append {operator : String} (logical : isLogicalWord operator.toList = true) (pending : List String)
    (front later : List String) :
    cutWords pending (front ++ operator :: later) = cutWords pending front ++ .logical operator :: cutWords [] later := by
  induction front generalizing pending with
  | nil => rw [List.nil_append, cutWords.eq_2, if_pos logical, cutWords]
  | cons word front ih =>
    rw [List.cons_append, cutWords, cutWords]
    split
    · rw [ih, List.append_assoc, List.cons_append]
    · exact ih _

theorem logical_text {operator : String} (logical : isLogicalWord operator.toList = true) :
    isLogicalWord (Token.logical operator).text.toList = true ∧
      Token.logical (Token.logical operator).text = .logical operator := by
  obtain ⟨symbol, listed, same⟩ := logical_of_isLogicalWord logical
  rw [String.ofList_toList] at same
  rw [same, Token.text, Catalog.writes_logical listed]
  simp only [Catalog.logicalOperators, List.mem_cons, List.not_mem_nil, or_false] at listed
  rcases listed with rfl | rfl <;> exact ⟨by decide, rfl⟩

theorem Spoken.split {word : String} (spoken : Spoken word.toList) :
    ∃ front operator back : String, word = front ++ operator ++ back ∧ isLogicalWord operator.toList = true ∧
      (∀ c ∈ front.toList.getLast?, isWordCharacter c = false) ∧
      ∀ c ∈ back.toList.head?, isWordCharacter c = false := by
  obtain ⟨before, operator, after, shape, logical, starts, ends⟩ := spoken
  refine ⟨.ofList before, .ofList operator, .ofList after, ?_, by simpa using logical, by simpa using starts,
    by simpa using ends⟩
  rw [← String.toList_inj, shape]
  simp

theorem parts_append {before operator after : String} (logical : isLogicalWord operator.toList = true)
    (starts : ∀ c ∈ before.toList.getLast?, isWordCharacter c = false)
    (ends : ∀ c ∈ after.toList.head?, isWordCharacter c = false) :
    parts (before ++ operator ++ after) = parts before ++ (Token.logical operator).text :: parts after := by
  simp only [parts, cutRun_append logical starts ends, List.map_append, List.map_cons]

theorem spoken_of_isLogicalWord {text : List Char} (logical : isLogicalWord text = true) : Spoken text :=
  ⟨[], text, [], by simp, logical, by simp, by simp⟩

/-- A word without white space, or none. -/
def Solid (word : String) : Prop := ∀ c ∈ word.toList, isBlank c = false

theorem words_of_solid {word : String} (solid : Solid word) :
    words word = if word = "" then [] else [word] := by
  split
  next empty =>
    rw [empty]
    rfl
  next nonempty => exact words_of_isWord ⟨by simpa using nonempty, solid⟩

theorem parts_of_silent {word : String} (solid : Solid word) (silent : ¬ Spoken word.toList) :
    parts word = words word := by
  rw [parts, cutRun_of_silent silent]
  by_cases empty : word = ""
  · subst empty
    decide
  · have isWord : IsWord word := ⟨by simpa using empty, solid⟩
    rw [factorPart_of_nonblank (by rw [words_of_isWord isWord]; simp), normalizeFactor_of_isWord isWord,
      words_of_isWord isWord]
    rfl

theorem ends_unwords (earlier later : List String) (word : String) :
    (∀ c ∈ (unwords (earlier ++ [word])).toList.getLast?, c ∈ word.toList.getLast? ∨ c = ' ') ∧
      ∀ c ∈ (unwords (word :: later)).toList.head?, c ∈ word.toList.head? ∨ c = ' ' := by
  constructor
  · intro c last
    by_cases empty : earlier = []
    · rw [empty, List.nil_append, unwords_singleton] at last
      exact .inl last
    · rw [unwords_append empty (List.cons_ne_nil _ _), unwords_singleton, String.toList_append, String.toList_append,
        List.append_assoc] at last
      cases shape : word.toList with
      | nil => exact .inr (by simpa [shape, eq_comm] using last)
      | cons first rest =>
        left
        simpa [shape, List.getLast?_append, List.getLast?_cons] using last
  · intro c first
    cases later with
    | nil =>
      rw [unwords_singleton] at first
      exact .inl first
    | cons next later =>
      rw [unwords_cons_cons, String.toList_append, String.toList_append] at first
      cases shape : word.toList with
      | nil => exact .inr (by simpa [shape, eq_comm] using first)
      | cons head rest => exact .inl (by simpa [shape] using first)

/-- A run is cut as its words are cut. -/
theorem cutRun_unwords {run : List String} (solid : ∀ word ∈ run, Solid word) :
    cutRun (unwords run) = cutWords [] (run.flatMap parts) := by
  induction bound : (unwords run).length using Nat.strongRecOn generalizing run with
  | ind limit ih =>
    by_cases silent : ∀ word ∈ run, ¬ Spoken word.toList
    · have whole : run.flatMap parts = run.flatMap words :=
        List.flatMap_congr fun word member => parts_of_silent (solid word member) (silent word member)
      have plain : ∀ word ∈ run.flatMap words, isLogicalWord word.toList = false := by
        intro word member
        obtain ⟨other, inside, same⟩ := List.mem_flatMap.mp member
        rw [words_of_solid (solid other inside)] at same
        split at same
        · cases same
        · rw [List.mem_singleton.mp same]
          exact Bool.eq_false_iff.mpr fun logical => silent other inside (spoken_of_isLogicalWord logical)
      rw [cutRun_of_silent (not_spoken_unwords silent), whole, cutWords_of_forall plain, List.nil_append]
      apply factorPart_congr
      rw [← words_unwords, unwords_of_solid fun _ => isWord_of_mem_words]
    · obtain ⟨word, member, spoken⟩ : ∃ word ∈ run, Spoken word.toList := by simpa using silent
      obtain ⟨earlier, later, rfl⟩ := List.append_of_mem member
      obtain ⟨front, operator, back, rfl, logical, starts, ends⟩ := spoken.split
      have blank : isWordCharacter ' ' = false := by decide +kernel
      have starts' : ∀ c ∈ (unwords (earlier ++ [front])).toList.getLast?, isWordCharacter c = false :=
        fun c last => ((ends_unwords earlier [] front).1 c last).elim (starts c) (· ▸ blank)
      have ends' : ∀ c ∈ (unwords (back :: later)).toList.head?, isWordCharacter c = false :=
        fun c first => ((ends_unwords [] later back).2 c first).elim (ends c) (· ▸ blank)
      have split : unwords (earlier ++ (front ++ operator ++ back) :: later) =
          unwords (earlier ++ [front]) ++ operator ++ unwords (back :: later) := (unwords_append_joined ..).symm
      have positive : 0 < operator.length := by
        rw [← String.length_toList]
        exact List.length_pos_iff.mpr (isLogicalWord_ne_nil logical)
      have inside := solid (front ++ operator ++ back) member
      simp only [Solid, String.toList_append, List.forall_mem_append] at inside
      have left := @ih (unwords (earlier ++ [front])).length ?_ (earlier ++ [front]) ?_ rfl
      have right := @ih (unwords (back :: later)).length ?_ (back :: later) ?_ rfl
      · rw [split, cutRun_append logical starts' ends', left, right, List.flatMap_append, List.flatMap_append,
          List.flatMap_singleton, List.flatMap_cons, List.flatMap_cons, parts_append logical starts ends,
          List.append_assoc, List.cons_append, ← List.append_assoc, cutWords_append (logical_text logical).1,
          (logical_text logical).2]
      · rw [← bound, split, String.length_append, String.length_append]
        omega
      · exact List.forall_mem_cons.mpr ⟨inside.2, fun word member => solid word (by simp [member])⟩
      · rw [← bound, split, String.length_append, String.length_append]
        omega
      · exact List.forall_mem_append.mpr
          ⟨fun word member => solid word (by simp [member]), List.forall_mem_singleton.mpr inside.1.1⟩

/-- What the parts of a word are: a logical operator, or a word of its characters in which none is spoken. -/
theorem part_cases {word part : String} (solid : Solid word) (member : part ∈ parts word) :
    part ∈ Catalog.logicalOperators ∨
      IsWord part ∧ (∀ c ∈ part.toList, c ∈ word.toList) ∧ ¬ Spoken part.toList := by
  induction bound : word.length using Nat.strongRecOn generalizing word with
  | ind limit ih =>
    by_cases spoken : Spoken word.toList
    · obtain ⟨front, operator, back, rfl, logical, starts, ends⟩ := spoken.split
      simp only [Solid, String.toList_append, List.forall_mem_append] at solid
      have positive := List.length_pos_iff.mpr (isLogicalWord_ne_nil logical)
      simp only [String.length_append] at bound
      rw [String.length_toList] at positive
      rw [parts_append logical starts ends] at member
      have inside {side : String} (part' : part ∈ parts side) (solid : Solid side) (shorter : side.length < limit)
          (within : ∀ c ∈ side.toList, c ∈ (front ++ operator ++ back).toList) :=
        (ih _ shorter solid part' rfl).imp_right fun ⟨isWord, held, silent⟩ =>
          (⟨isWord, fun c here => within c (held c here), silent⟩ :
            IsWord part ∧ (∀ c ∈ part.toList, c ∈ (front ++ operator ++ back).toList) ∧ ¬ Spoken part.toList)
      rcases List.mem_append.mp member with left | right
      · exact inside left solid.1.1 (by omega) (by simp +contextual)
      · rcases List.mem_cons.mp right with rfl | right
        · obtain ⟨symbol, listed, same⟩ := logical_of_isLogicalWord logical
          rw [String.ofList_toList] at same
          exact .inl (same ▸ listed)
        · exact inside right solid.2 (by omega) (by simp +contextual)
    · rw [parts_of_silent solid spoken, words_of_solid solid] at member
      split at member
      · cases member
      next nonempty =>
        obtain rfl := List.mem_singleton.mp member
        exact .inr ⟨⟨by simpa using nonempty, solid⟩, fun _ => id, spoken⟩

theorem isWord_part {word part : String} (solid : Solid word) (member : part ∈ parts word) : IsWord part := by
  rcases part_cases solid member with listed | ⟨isWord, _⟩
  · have words : ∀ symbol ∈ Catalog.logicalOperators, IsWord symbol := by decide
    exact words part listed
  · exact isWord

theorem Plain.part {word part : String} (plain : Plain word) (solid : Solid word) (member : part ∈ parts word) :
    Plain part := by
  rcases part_cases solid member with listed | ⟨_, within, _⟩
  · have symbols : ∀ symbol ∈ Catalog.logicalOperators, Plain symbol := by decide
    exact symbols part listed
  · exact fun c inside => plain c (within c inside)

/-- A word stays whole, or it has several parts. -/
theorem parts_spec {word : String} (isWord : IsWord word) (plain : isLogicalWord word.toList = false) :
    parts word = [word] ∨ 1 < (parts word).length := by
  by_cases spoken : Spoken word.toList
  · have several : (parts word).length ≠ 1 := by
      intro single
      rw [parts, List.length_map] at single
      refine @silent_of_length [word] (by simpa using isWord) (by simpa using plain) ?_ word (by simp) spoken
      rwa [unwords_singleton]
    obtain ⟨front, operator, back, rfl, logical, starts, ends⟩ := spoken.split
    have positive : 0 < (parts (front ++ operator ++ back)).length := by
      rw [parts_append logical starts ends]
      simp
    exact .inr (by omega)
  · left
    rw [parts_of_silent isWord.2 spoken, words_of_isWord isWord]

end Cutting

end Criteria.Reading
