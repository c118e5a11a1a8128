import Criteria.Proofs.TextConservation
import Mathlib.Data.List.Infix
/-!
The words of an expression. Each is a parenthesis or has none in it, in whatever letter case, so splitting it again
leaves it alone. A run of such words is closed up to one word in one case only, and it is cut only where a logical
operator stands in one of its words.
-/

namespace Criteria.Text

def IsParen (c : Char) : Prop := c = '(' ∨ c = ')'

theorem CaseRun.image?_ge {runs : List CaseRun} {least code image : Nat} (high : ∀ run ∈ runs, least ≤ run.target)
    (found : CaseRun.image? runs code = some image) : least ≤ image := by
  induction runs with
  | nil => cases found
  | cons run runs ih =>
    obtain ⟨here, later⟩ := List.forall_mem_cons.mp high
    unfold image? at found
    split at found
    · cases found
    · split at found
      · split at found
        · obtain rfl := Option.some.inj found
          exact Nat.le_add_right_of_le here
        · cases found
      · exact ih later found

theorem toNat_ofNat_cases (code : Nat) : (Char.ofNat code).toNat = code ∨ (Char.ofNat code).toNat = 0 := by
  by_cases valid : code.isValidChar
  · have same : Char.ofNat code = Char.ofNatAux code valid := dif_pos valid
    exact .inl (congrArg Char.toNat same)
  · have zero : Char.ofNat code = '\x00' := dif_neg valid
    exact .inr (congrArg Char.toNat zero)

theorem mem_lowerCharacter_of_isParen {paren c : Char} (is_paren : IsParen paren) :
    paren ∈ lowerCharacter c ↔ c = paren := by
  have kept : lowerCharacter paren = [paren] := by rcases is_paren with rfl | rfl <;> decide
  have low : paren.toNat < 0x61 := by rcases is_paren with rfl | rfl <;> decide
  have code : 0 < paren.toNat := by rcases is_paren with rfl | rfl <;> decide
  constructor
  · intro inside
    unfold lowerCharacter at inside
    split at inside
    next =>
      have apart : paren ∉ ['i', '\u0307'] := by rcases is_paren with rfl | rfl <;> decide
      exact absurd inside apart
    next =>
      split at inside
      next image found =>
        have high : ∀ run ∈ lowerRuns, 0x61 ≤ run.target := by decide +kernel
        have least := CaseRun.image?_ge high found
        rw [List.mem_singleton.mp inside] at low code
        rcases toNat_ofNat_cases image with same | same <;> omega
      next => exact (List.mem_singleton.mp inside).symm
  · rintro rfl
    rw [kept]
    exact List.mem_singleton_self c

theorem mem_lowercase_of_isParen {paren : Char} (is_paren : IsParen paren) {text : String} :
    paren ∈ (lowercase text).toList ↔ paren ∈ text.toList := by
  have lowered (before rest : List Char) : paren ∈ lowerAfter before rest ↔ paren ∈ rest := by
    induction rest generalizing before with
    | nil => rfl
    | cons c rest ih =>
      rw [lowerAfter, List.mem_append, List.mem_cons, ih]
      refine or_congr_left ?_
      split
      next sigma =>
        subst sigma
        rcases is_paren with rfl | rfl <;> split <;> decide
      next => rw [mem_lowerCharacter_of_isParen is_paren, eq_comm]
  rw [toList_lowercase, lowered]

theorem length_le_lowercase (text : String) : text.toList.length ≤ (lowercase text).toList.length := by
  have lowered (before rest : List Char) : rest.length ≤ (lowerAfter before rest).length := by
    induction rest generalizing before with
    | nil => exact Nat.le_refl _
    | cons c rest ih =>
      have later := ih (c :: before)
      have here : 0 < (lowerCharacter c).length := List.length_pos_iff.mpr (lowerCharacter_ne_nil c)
      simp only [lowerAfter, List.length_append, List.length_cons]
      split
      next => split <;> simp only [List.length_singleton] <;> omega
      next => omega
  rw [toList_lowercase]
  exact lowered [] text.toList

end Criteria.Text

namespace Criteria.Reading

open Text

/-- A parenthesis alone, or characters without a parenthesis. -/
private def Clean (word : List Char) : Prop := word = ['('] ∨ word = [')'] ∨ ∀ c ∈ word, ¬ IsParen c

/-- The piece in front is never a parenthesis, since a blank is set before each. -/
private theorem clean_splitOnP (cs : List Char) :
    (∀ piece ∈ ((cs.flatMap setApart).splitOnP isBlank).head?, ∀ c ∈ piece, ¬ IsParen c) ∧
      ∀ piece ∈ (cs.flatMap setApart).splitOnP isBlank, Clean piece := by
  induction cs with
  | nil => simp [Clean]
  | cons c cs ih =>
    obtain ⟨piece, pieces, shape⟩ := List.exists_cons_of_ne_nil (List.splitOnP_ne_nil isBlank (cs.flatMap setApart))
    simp only [shape, List.head?_cons, Option.mem_def, Option.some.injEq, forall_eq', List.forall_mem_cons] at ih
    obtain ⟨plain, _, later⟩ := ih
    have first : Clean piece := .inr (.inr plain)
    have blank : Clean [] := .inr (.inr fun c inside => absurd inside List.not_mem_nil)
    by_cases paren : IsParen c
    · have apart : setApart c = [' ', c, ' '] := by rcases paren with rfl | rfl <;> rfl
      have solid : isBlank c = false := by rcases paren with rfl | rfl <;> decide
      have alone : Clean [c] := by rcases paren with rfl | rfl <;> simp [Clean]
      have all : ∀ other ∈ [] :: [c] :: piece :: pieces, Clean other := by
        simp only [List.forall_mem_cons]
        exact ⟨blank, alone, first, later⟩
      simp only [List.flatMap_cons, apart, List.cons_append, List.nil_append, List.splitOnP_cons_eq_if_modifyHead,
        isBlank_space, solid, shape, if_true, Bool.false_eq_true, if_false, List.modifyHead_cons]
      exact ⟨by simp, all⟩
    · have alone : setApart c = [c] := setApart_of_ne (not_or.mp paren).1 (not_or.mp paren).2
      simp only [List.flatMap_cons, alone, List.cons_append, List.nil_append, List.splitOnP_cons_eq_if_modifyHead,
        shape]
      split
      next =>
        have all : ∀ other ∈ [] :: piece :: pieces, Clean other := by
          simp only [List.forall_mem_cons]
          exact ⟨blank, first, later⟩
        exact ⟨by simp, all⟩
      next =>
        have grown : ∀ other ∈ c :: piece, ¬ IsParen other := List.forall_mem_cons.mpr ⟨paren, plain⟩
        simp only [List.modifyHead_cons, List.head?_cons, Option.mem_def, Option.some.injEq, forall_eq',
          List.forall_mem_cons]
        exact ⟨List.forall_mem_cons.mp grown, .inr (.inr grown), later⟩

theorem paren_or_plain {text word : String} (member : word ∈ expressionWords text) :
    word = "(" ∨ word = ")" ∨ Plain word := by
  rw [expressionWords_eq] at member
  obtain ⟨cs, piece, rfl⟩ := List.mem_map.mp member
  rcases (clean_splitOnP text.toList).2 cs (List.mem_filter.mp piece).1 with rfl | rfl | plain
  · exact .inl rfl
  · exact .inr (.inl rfl)
  · refine .inr (.inr fun c inside => ?_)
    exact not_or.mp (plain c (by simpa using inside))

theorem expressionWords_of_mem {text word : String} (member : word ∈ expressionWords text) :
    expressionWords word = [word] := by
  rcases paren_or_plain member with rfl | rfl | plain
  · decide
  · decide
  · rw [expressionWords_of_plain plain, words_of_isWord (isWord_of_mem_expressionWords member)]

theorem expressionWords_eq_flatMap (text : String) : expressionWords text = (words text).flatMap expressionWords := by
  have single {word : List Char} (solid : ∀ c ∈ word, isBlank c = false) :
      splitBlank (word.flatMap setApart) =
        (splitBlank word).flatMap fun part => splitBlank (part.flatMap setApart) := by
    by_cases nonempty : word = []
    · subst nonempty
      simp [splitBlank_nil]
    · rw [splitBlank_of_solid nonempty solid, List.flatMap_singleton]
  have split (cs : List Char) :
      splitBlank (cs.flatMap setApart) = (splitBlank cs).flatMap fun word => splitBlank (word.flatMap setApart) := by
    induction bound : cs.length using Nat.strongRecOn generalizing cs with
    | ind limit ih =>
      have solid : ∀ c ∈ cs.takeWhile (!isBlank ·), isBlank c = false :=
        fun c inside => by simpa using List.all_eq_true.mp List.all_takeWhile c inside
      cases more : cs.dropWhile (!isBlank ·) with
      | nil => exact single fun c inside => by simpa using List.dropWhile_eq_nil_iff.mp more c inside
      | cons blank rest =>
        have here : isBlank blank = true := by
          have first := List.head?_dropWhile_not (!isBlank ·) cs
          rw [more] at first
          simpa using first
        have alone : setApart blank = [blank] := by
          apply setApart_of_ne <;> rintro rfl <;> revert here <;> decide
        have whole : cs = cs.takeWhile (!isBlank ·) ++ blank :: rest := by
          rw [← more, List.takeWhile_append_dropWhile]
        have shorter : rest.length < limit := by
          rw [← bound, whole, List.length_append, List.length_cons]
          omega
        rw [whole, List.flatMap_append, List.flatMap_cons, alone, List.singleton_append, splitBlank_append_blank here,
          splitBlank_append_blank here, List.flatMap_append, single solid, ih _ shorter rest rfl]
  rw [expressionWords_eq, split, words, List.map_flatMap, List.flatMap_map]
  exact List.flatMap_congr fun word _ => by rw [expressionWords_eq, String.toList_ofList]

/-- Words that are those of an expression up to letter case are not split either. -/
theorem expressionWords_of_lowercase_eq {text word other : String} (member : word ∈ expressionWords text)
    (solid : IsWord other) (same : lowercase other = lowercase word) : expressionWords other = [other] := by
  have alike (paren : Char) (is_paren : IsParen paren) : paren ∈ other.toList ↔ paren ∈ word.toList := by
    rw [← mem_lowercase_of_isParen is_paren, same, mem_lowercase_of_isParen is_paren]
  have single (paren : Char) (inside : paren ∈ other.toList) (short : (lowercase word).toList.length = 1) :
      other = String.ofList [paren] := by
    have length := length_le_lowercase other
    rw [same, short] at length
    obtain ⟨c, shape⟩ := List.length_eq_one_iff.mp (Nat.le_antisymm length (List.length_pos_of_mem inside))
    rw [shape, List.mem_singleton] at inside
    rw [← String.toList_inj, shape, String.toList_ofList, inside]
  rcases paren_or_plain member with rfl | rfl | plain
  · rw [single '(' ((alike '(' (.inl rfl)).mpr (by decide)) (by decide)]
    decide
  · rw [single ')' ((alike ')' (.inr rfl)).mpr (by decide)) (by decide)]
    decide
  · have plain : Plain other := by
      intro c inside
      constructor
      · rintro rfl
        exact (plain '(' ((alike '(' (.inl rfl)).mp inside)).1 rfl
      · rintro rfl
        exact (plain ')' ((alike ')' (.inr rfl)).mp inside)).2 rfl
    rw [expressionWords_of_plain plain, words_of_isWord solid]

/-- AND or OR stands in the text with no word character right before or behind it. -/
def Spoken (text : List Char) : Prop :=
  ∃ before operator after, text = before ++ operator ++ after ∧ isLogicalWord operator = true ∧
    (∀ c ∈ before.getLast?, isWordCharacter c = false) ∧ ∀ c ∈ after.head?, isWordCharacter c = false

theorem isWordCharacter_of_isLogicalWord {operator : List Char} (logical : isLogicalWord operator = true) :
    ∀ c ∈ operator, isWordCharacter c = true := by
  have letters : logicalLetters.all isWordCharacter = true := by decide +kernel
  exact fun c inside => List.all_eq_true.mp letters c (mem_logicalLetters_of_isLogicalWord logical c inside)

theorem isLogicalWord_ne_nil {operator : List Char} (logical : isLogicalWord operator = true) : operator ≠ [] := by
  rintro rfl
  cases logical

/-- What lies between two cuts of a run is a logical operator only where one is spoken. -/
theorem spoken_of_mem_blocks {text block : List Char} (member : block ∈ blocks text)
    (logical : isLogicalWord block = true) : Spoken text := by
  obtain ⟨earlier, later, split⟩ := List.append_of_mem member
  have whole : (blocks text).flatten = text := List.flatten_splitBy ..
  have chain := List.isChain_getLast_head_splitBy (fun left right => isWordCharacter left == isWordCharacter right) text
  change (blocks text).IsChain _ at chain
  rw [split, List.isChain_append] at chain
  obtain ⟨_, behind, before⟩ := chain
  have letters := isWordCharacter_of_isLogicalWord logical
  refine ⟨earlier.flatten, block, later.flatten, by rw [← whole, split]; simp, logical, ?_, ?_⟩
  · rcases List.eq_nil_or_concat earlier with rfl | ⟨more, piece, rfl⟩
    · simp
    · obtain ⟨solid, nonempty, different⟩ := before piece (by simp) block (by simp)
      intro c last
      obtain rfl : piece.getLast solid = c := by
        simpa [List.getLast?_append, List.getLast?_eq_getLast_of_ne_nil solid] using last
      simpa [letters _ (List.head_mem nonempty)] using different
  · cases later with
    | nil => simp
    | cons piece more =>
      obtain ⟨nonempty, solid, different⟩ := (List.isChain_cons.mp behind).1 piece (by simp)
      intro c first
      obtain rfl : piece.head solid = c := by
        simpa [List.head?_append, List.head?_eq_some_head solid] using first
      simpa [letters _ (List.getLast_mem nonempty)] using different

theorem Spoken.of_append_cons {left right : List Char} {c : Char} (apart : isWordCharacter c = false)
    (spoken : Spoken (left ++ c :: right)) : Spoken left ∨ Spoken right := by
  obtain ⟨before, operator, after, same, logical, starts, ends⟩ := spoken
  have outside : c ∉ operator := by
    intro inside
    rw [isWordCharacter_of_isLogicalWord logical c inside] at apart
    cases apart
  have onLeft (between : List Char) (split : left = before ++ operator ++ between)
      (rest : after = between ++ c :: right ∨ between = []) : Spoken left := by
    refine ⟨before, operator, between, split, logical, starts, ?_⟩
    cases between with
    | nil => simp
    | cons next more =>
      obtain rfl := rest.resolve_right (by simp)
      simpa using ends
  rcases List.append_eq_append_iff.mp same with ⟨between, split, rest⟩ | ⟨between, split, rest⟩
  · cases between with
    | nil => exact .inl (onLeft [] (by simpa using split.symm) (.inr rfl))
    | cons first more =>
      obtain ⟨rfl, rfl⟩ := List.cons.inj rest
      rcases List.append_eq_append_iff.mp split with ⟨inner, _, piece⟩ | ⟨inner, reach, piece⟩
      · exact absurd (piece ▸ by simp) outside
      · cases inner with
        | nil => exact absurd ((show c :: more = operator from piece) ▸ List.mem_cons_self) outside
        | cons next inner =>
          obtain ⟨rfl, rfl⟩ := List.cons.inj piece
          refine .inr ⟨inner, operator, after, rfl, logical, ?_, ends⟩
          intro last member
          exact starts last (by simp [reach, List.getLast?_append, List.getLast?_cons, Option.mem_def.mp member])
  · exact .inl (onLeft between split (.inl rest))

theorem not_spoken_unwords {words : List String} (silent : ∀ word ∈ words, ¬ Spoken word.toList) :
    ¬ Spoken (unwords words).toList := by
  induction words with
  | nil =>
    rintro ⟨before, operator, after, same, logical, _⟩
    have empty : operator = [] := by
      have whole : before ++ operator ++ after = [] := same.symm
      simp_all
    exact isLogicalWord_ne_nil logical empty
  | cons word words ih =>
    obtain ⟨here, later⟩ := List.forall_mem_cons.mp silent
    cases words with
    | nil => rwa [unwords_singleton]
    | cons next words =>
      rw [unwords_cons_cons, String.toList_append, String.toList_append]
      intro spoken
      have blank : isWordCharacter ' ' = false := by decide +kernel
      rcases Spoken.of_append_cons (c := ' ') blank (by simpa using spoken) with first | rest
      · exact here first
      · exact ih later rest

theorem Spoken.append_cons {left right : List Char} {c : Char} (apart : isWordCharacter c = false)
    (spoken : Spoken left ∨ Spoken right) : Spoken (left ++ c :: right) := by
  rcases spoken with ⟨before, operator, after, rfl, logical, starts, ends⟩ |
    ⟨before, operator, after, rfl, logical, starts, ends⟩
  · refine ⟨before, operator, after ++ c :: right, by simp, logical, starts, ?_⟩
    cases after with
    | nil => simpa using apart
    | cons next after => simpa using ends
  · refine ⟨left ++ c :: before, operator, after, by simp, logical, ?_, ends⟩
    rcases List.eq_nil_or_concat before with rfl | ⟨more, last, rfl⟩
    · simpa using apart
    · simpa [List.getLast?_append, List.getLast?_cons] using starts

theorem spoken_unwords {words : List String} {word : String} (member : word ∈ words) (spoken : Spoken word.toList) :
    Spoken (unwords words).toList := by
  have blank : isWordCharacter ' ' = false := by decide +kernel
  induction words with
  | nil => cases member
  | cons first words ih =>
    cases words with
    | nil =>
      rw [List.mem_singleton.mp member] at spoken
      rwa [unwords_singleton]
    | cons next words =>
      rw [unwords_cons_cons, String.toList_append, String.toList_append]
      have side : Spoken first.toList ∨ Spoken (unwords (next :: words)).toList := by
        rcases List.mem_cons.mp member with rfl | later
        · exact .inl spoken
        · exact .inr (ih later)
      simpa using Spoken.append_cons blank side

theorem unwords_of_solid {run : List String} (solid : ∀ word ∈ run, IsWord word) : words (unwords run) = run := by
  rw [words_unwords, List.flatMap_congr fun word member => words_of_isWord (solid word member), List.flatMap_singleton']

theorem closeRange_eq (text : List Char) :
    closeRange text = text ∨
      ∃ lower upper, splitBlank text = [lower, ['-'], upper] ∧ closeRange text = lower ++ '-' :: upper := by
  simp only [closeRange]
  split
  next rest reached =>
    split
    next joined =>
      simp only [Bool.and_eq_true, Bool.not_eq_true', List.isEmpty_eq_false_iff, List.all_eq_true] at joined
      obtain ⟨⟨⟨occupied, apart⟩, nonempty⟩, solid⟩ := joined
      have lower : splitBlank (text.takeWhile (!isBlank ·)) = [text.takeWhile (!isBlank ·)] :=
        splitBlank_of_solid occupied fun c inside => by simpa using List.all_eq_true.mp List.all_takeWhile c inside
      have upper : splitBlank rest = [rest.dropWhile isBlank] := by
        rw [← splitBlank_dropWhile]
        exact splitBlank_of_solid nonempty fun c inside => by simpa using solid c inside
      have behind : splitBlank (text.dropWhile (!isBlank ·)) = [['-'], rest.dropWhile isBlank] := by
        cases rest with
        | nil => cases apart
        | cons blank rest =>
          have here : isBlank blank = true := by simpa using apart
          rw [← splitBlank_dropWhile, reached, ← upper, splitBlank_cons_blank here,
            show '-' :: blank :: rest = ['-'] ++ blank :: rest from rfl, splitBlank_append_blank here,
            splitBlank_of_solid (by simp) (List.forall_mem_singleton.mpr rfl)]
          rfl
      refine .inr ⟨_, _, ?_, rfl⟩
      -- The white space behind the first word is what ends it.
      cases more : text.dropWhile (!isBlank ·) with
      | nil =>
        rw [more, splitBlank_nil] at behind
        cases behind
      | cons blank between =>
        have here : isBlank blank = true := by
          have first := List.head?_dropWhile_not (!isBlank ·) text
          rw [more] at first
          simpa using first
        rw [more, splitBlank_cons_blank here] at behind
        calc splitBlank text
            = splitBlank (text.takeWhile (!isBlank ·) ++ blank :: between) := by
              rw [← more, List.takeWhile_append_dropWhile]
          _ = [text.takeWhile (!isBlank ·), ['-'], rest.dropWhile isBlank] := by
              rw [splitBlank_append_blank here, lower, behind]
              rfl
    next => exact .inl rfl
  next => exact .inl rfl

/-- A run is closed up to one word when it is a range. -/
theorem normalizeFactor_unwords {run : List String} (solid : ∀ word ∈ run, IsWord word) :
    normalizeFactor (unwords run) = unwords run ∨
      ∃ lower upper, run = [lower, "-", upper] ∧ normalizeFactor (unwords run) = lower ++ "-" ++ upper := by
  have collapsed : collapse (unwords run) = unwords run := by rw [collapse, unwords_of_solid solid]
  rw [normalizeFactor, collapsed]
  rcases closeRange_eq (unwords run).toList with same | ⟨lower, upper, pieces, closed⟩
  · rw [same, String.ofList_toList]
    exact .inl rfl
  · refine .inr ⟨.ofList lower, .ofList upper, ?_, ?_⟩
    · rw [← unwords_of_solid solid, words, pieces]
      rfl
    · rw [closed, ← String.toList_inj]
      simp

end Criteria.Reading
