import Criteria.Reading.Scan
import Mathlib.Algebra.GroupWithZero.Nat
import Mathlib.Algebra.Order.BigOperators.Group.List
import Mathlib.Algebra.Order.Group.Nat
/-!
What splitting into words keeps and what it drops. A join by single spaces is split where its parts are, and words
hold exactly the characters that are not blank.
-/

namespace Criteria.Text

private theorem flatten_splitOnP (cs : List Char) : (cs.splitOnP isBlank).flatten = cs.filter (!isBlank ·) := by
  induction cs with
  | nil => simp
  | cons c cs ih =>
    rw [List.splitOnP_cons_eq_if_modifyHead]
    split
    next blank => simp [blank, ih]
    next solid =>
      obtain ⟨piece, pieces, split⟩ := List.exists_cons_of_ne_nil (List.splitOnP_ne_nil isBlank cs)
      rw [split] at ih ⊢
      simpa [solid] using ih

theorem flatten_splitBlank (cs : List Char) : (splitBlank cs).flatten = cs.filter (!isBlank ·) := by
  rw [← flatten_splitOnP, splitBlank]
  induction cs.splitOnP isBlank with
  | nil => rfl
  | cons piece pieces ih => cases piece <;> simp [ih]

theorem ne_nil_of_mem_splitBlank {cs word : List Char} (member : word ∈ splitBlank cs) : word ≠ [] := by
  simpa using (List.mem_filter.mp member).2

theorem of_mem_splitBlank {cs word : List Char} (member : word ∈ splitBlank cs) {c : Char} (inside : c ∈ word) :
    c ∈ cs ∧ isBlank c = false := by
  have kept : c ∈ (splitBlank cs).flatten := List.mem_flatten.mpr ⟨word, member, inside⟩
  rw [flatten_splitBlank] at kept
  simpa using List.mem_filter.mp kept

theorem splitBlank_intercalate (parts : List (List Char)) :
    splitBlank ([' '].intercalate parts) = parts.flatMap splitBlank := by
  induction parts with
  | nil => exact splitBlank_nil
  | cons part parts ih =>
    cases parts with
    | nil => simp
    | cons next later =>
      rw [List.intercalate_cons_cons, List.append_assoc, List.singleton_append,
        splitBlank_append_blank isBlank_space, ih]
      rfl

/-- A text without white space that is not empty. -/
def IsWord (word : String) : Prop := word.toList ≠ [] ∧ ∀ c ∈ word.toList, isBlank c = false

instance (word : String) : Decidable (IsWord word) :=
  @instDecidableAnd _ _ inferInstance (List.decidableBAll _ word.toList)

theorem isWord_of_mem_words {text word : String} (member : word ∈ words text) : IsWord word := by
  obtain ⟨cs, inside, rfl⟩ := List.mem_map.mp member
  rw [IsWord, String.toList_ofList]
  exact ⟨ne_nil_of_mem_splitBlank inside, fun c found => (of_mem_splitBlank inside found).2⟩

theorem mem_of_mem_words {text word : String} (member : word ∈ words text) {c : Char} (inside : c ∈ word.toList) :
    c ∈ text.toList := by
  obtain ⟨cs, piece, rfl⟩ := List.mem_map.mp member
  rw [String.toList_ofList] at inside
  exact (of_mem_splitBlank piece inside).1

/-- Some character of the text is not white space. -/
def Nonblank (text : String) : Prop := ∃ c ∈ text.toList, isBlank c = false

theorem IsWord.nonblank {word : String} (solid : IsWord word) : Nonblank word := by
  obtain ⟨c, inside⟩ := List.exists_mem_of_ne_nil _ solid.1
  exact ⟨c, inside, solid.2 c inside⟩

theorem words_ne_nil_iff {text : String} : words text ≠ [] ↔ Nonblank text := by
  constructor
  · intro nonempty
    obtain ⟨word, rest, shape⟩ := List.exists_cons_of_ne_nil nonempty
    have member : word ∈ words text := shape ▸ List.mem_cons_self
    obtain ⟨c, inside, solid⟩ := (isWord_of_mem_words member).nonblank
    exact ⟨c, mem_of_mem_words member inside, solid⟩
  · rintro ⟨c, inside, solid⟩ empty
    have kept : c ∈ text.toList.filter (!isBlank ·) := List.mem_filter.mpr ⟨inside, by simp [solid]⟩
    rw [← flatten_splitBlank, List.map_eq_nil_iff.mp empty] at kept
    cases kept

theorem words_append_space (left right : String) : words (left ++ " " ++ right) = words left ++ words right := by
  simp only [words, String.toList_append]
  rw [List.append_assoc, show " ".toList ++ right.toList = ' ' :: right.toList from rfl,
    splitBlank_append_blank isBlank_space, List.map_append]

theorem words_of_isWord {word : String} (solid : IsWord word) : words word = [word] := by
  rw [words, splitBlank_of_solid solid.1 solid.2]
  simp

theorem splitBlank_dropWhile (cs : List Char) : splitBlank (cs.dropWhile isBlank) = splitBlank cs := by
  induction cs with
  | nil => rfl
  | cons c cs ih =>
    rw [List.dropWhile_cons]
    split
    next blank => rw [ih, splitBlank_cons_blank blank]
    next => rfl

private theorem splitBlank_dropWhile_reverse (cs : List Char) :
    splitBlank (cs.dropWhile isBlank).reverse = splitBlank cs.reverse := by
  induction cs with
  | nil => rfl
  | cons c cs ih =>
    rw [List.dropWhile_cons]
    split
    next blank => rw [ih, List.reverse_cons, splitBlank_append_blank blank, splitBlank_nil, List.append_nil]
    next => rfl

theorem words_trim (text : String) : words (trim text) = words text := by
  rw [words, toList_trim, trimBlank, splitBlank_dropWhile_reverse, List.reverse_reverse, splitBlank_dropWhile, words]

theorem isEmpty_trim {text : String} (nonblank : words text ≠ []) : (trim text).isEmpty = false := by
  rw [← words_trim] at nonblank
  by_contra empty
  rw [Bool.not_eq_false, String.isEmpty_iff] at empty
  exact nonblank (empty ▸ by decide)

theorem words_unwords (parts : List String) : words (unwords parts) = parts.flatMap words := by
  simp only [words, toList_unwords, splitBlank_intercalate, List.map_flatMap, List.flatMap_map]
  rfl

theorem unwords_cons_cons (part next : String) (later : List String) :
    unwords (part :: next :: later) = part ++ " " ++ unwords (next :: later) := String.intercalate_cons_cons

theorem unwords_singleton (text : String) : unwords [text] = text := String.intercalate_singleton ..

theorem unwords_append {first rest : List String} (nonempty : first ≠ []) (more : rest ≠ []) :
    unwords (first ++ rest) = unwords first ++ " " ++ unwords rest := by
  obtain ⟨next, later, rfl⟩ := List.exists_cons_of_ne_nil more
  induction first with
  | nil => exact absurd rfl nonempty
  | cons text texts ih =>
    cases texts with
    | nil => rw [List.singleton_append, unwords_cons_cons, unwords_singleton]
    | cons other texts =>
      rw [List.cons_append, List.cons_append, unwords_cons_cons, ← List.cons_append, ih (List.cons_ne_nil _ _),
        unwords_cons_cons]
      simp only [String.append_assoc]

/-- A text between them joins the last word of one text to the first word of another. -/
theorem unwords_append_joined (before later : List String) (last joint first : String) :
    unwords (before ++ [last]) ++ joint ++ unwords (first :: later) =
      unwords (before ++ (last ++ joint ++ first) :: later) := by
  have joined : last ++ joint ++ unwords (first :: later) = unwords ((last ++ joint ++ first) :: later) := by
    cases later with
    | nil => rw [unwords_singleton, unwords_singleton]
    | cons next later => simp only [unwords_cons_cons, String.append_assoc]
  by_cases empty : before = []
  · rw [empty, List.nil_append, List.nil_append, unwords_singleton, joined]
  · rw [unwords_append empty (List.cons_ne_nil _ _), unwords_append empty (List.cons_ne_nil _ _), unwords_singleton,
      ← joined]
    simp only [String.append_assoc]

/-- Joining brings in spaces only. -/
theorem filter_unwords {keep : Char → Bool} (dropped : keep ' ' = false) (parts : List String) :
    (unwords parts).toList.filter keep = parts.flatMap fun part => part.toList.filter keep := by
  induction parts with
  | nil => rfl
  | cons part parts ih =>
    cases parts with
    | nil => simp [unwords_singleton]
    | cons next later =>
      rw [unwords_cons_cons, String.toList_append, String.toList_append, List.filter_append, List.filter_append, ih]
      simp [dropped]

theorem length_unwords (parts : List String) :
    (unwords parts).length = (parts.map String.length).sum + (parts.length - 1) := by
  induction parts with
  | nil => rfl
  | cons part parts ih =>
    cases parts with
    | nil => simp [unwords_singleton]
    | cons next later =>
      have space : " ".length = 1 := rfl
      rw [unwords_cons_cons, String.length_append, String.length_append, ih, space]
      simp only [List.map_cons, List.sum_cons, List.length_cons]
      omega

/-- A text of one word is that word, perhaps with white space around it. -/
theorem length_le_of_words_eq {word text : String} (single : words text = [word]) :
    word.length ≤ text.length ∧ (word.length = text.length → word = text) := by
  have kept : word.toList = text.toList.filter (!isBlank ·) := by
    have pieces : splitBlank text.toList = [word.toList] := by
      have same := congrArg (List.map String.toList) single
      simpa [words, List.map_map, Function.comp_def] using same
    rw [← flatten_splitBlank, pieces, List.flatten_singleton]
  rw [← String.length_toList, ← String.length_toList, kept]
  refine ⟨List.length_filter_le _ _, fun full => ?_⟩
  rw [← String.toList_inj, kept]
  exact List.filter_eq_self.mpr (List.length_filter_eq_length_iff.mp full)

section Joins

variable {α : Type} {items : List α} {first second : α → String}

theorem words_eq_of_unwords_eq (counts : ∀ item ∈ items, (words (first item)).length = (words (second item)).length)
    (same : unwords (items.map first) = unwords (items.map second)) :
    ∀ item ∈ items, words (first item) = words (second item) := by
  replace same := congrArg words same
  rw [words_unwords, words_unwords] at same
  induction items with
  | nil => simp
  | cons item items ih =>
    obtain ⟨here, later⟩ := List.forall_mem_cons.mp counts
    obtain ⟨head, tail⟩ := List.append_inj same here
    exact List.forall_mem_cons.mpr ⟨head, ih later tail⟩

/-- Two joins are the same only part by part, when parts that may differ are a word and a text of one word. -/
theorem eq_of_unwords_eq
    (alike : ∀ item ∈ items, first item = second item ∨ IsWord (first item) ∧ (words (second item)).length = 1)
    (same : unwords (items.map first) = unwords (items.map second)) : ∀ item ∈ items, first item = second item := by
  have counts : ∀ item ∈ items, (words (first item)).length = (words (second item)).length := by
    intro item member
    rcases alike item member with equal | ⟨solid, single⟩
    · rw [equal]
    · rw [words_of_isWord solid, single, List.length_singleton]
  have spoken := words_eq_of_unwords_eq counts same
  have bounds : ∀ item ∈ items, (first item).length ≤ (second item).length ∧
      ((first item).length = (second item).length → first item = second item) := by
    intro item member
    rcases alike item member with equal | ⟨solid, _⟩
    · exact ⟨Nat.le_of_eq (congrArg String.length equal), fun _ => equal⟩
    · exact length_le_of_words_eq ((spoken item member).symm.trans (words_of_isWord solid))
  intro item member
  -- A single longer part would make the whole join longer.
  apply (bounds item member).2
  apply (bounds item member).1.eq_of_not_lt
  intro longer
  have total := List.sum_lt_sum (fun item => (first item).length) (fun item => (second item).length)
    (fun other inside => (bounds other inside).1) ⟨item, member, longer⟩
  have whole := congrArg String.length same
  simp only [length_unwords, List.length_map, List.map_map, Function.comp_def] at whole
  omega

end Joins

end Criteria.Text

namespace Criteria.Reading

open Text

/-- A text without parentheses. -/
def Plain (text : String) : Prop := ∀ c ∈ text.toList, c ≠ '(' ∧ c ≠ ')'

instance (text : String) : Decidable (Plain text) := List.decidableBAll _ text.toList

theorem setApart_of_ne {c : Char} (notOpen : c ≠ '(') (notClose : c ≠ ')') : setApart c = [c] := by
  simp [setApart, notOpen, notClose]

theorem flatMap_setApart_of_forall {cs : List Char} (plain : ∀ c ∈ cs, c ≠ '(' ∧ c ≠ ')') :
    cs.flatMap setApart = cs := by
  induction cs with
  | nil => rfl
  | cons c cs ih =>
    obtain ⟨notOpen, notClose⟩ := plain c List.mem_cons_self
    rw [List.flatMap_cons, setApart_of_ne notOpen notClose,
      ih fun other member => plain other (List.mem_cons_of_mem _ member)]
    rfl

theorem expressionWords_eq (text : String) :
    expressionWords text = (splitBlank (text.toList.flatMap setApart)).map String.ofList := by
  rw [expressionWords, words, String.toList_ofList]

theorem expressionWords_of_plain {text : String} (plain : Plain text) : expressionWords text = words text := by
  rw [expressionWords_eq, flatMap_setApart_of_forall plain, words]

private theorem flatMap_setApart_intercalate (parts : List (List Char)) :
    ([' '].intercalate parts).flatMap setApart = [' '].intercalate (parts.map (·.flatMap setApart)) := by
  induction parts with
  | nil => rfl
  | cons part parts ih =>
    cases parts with
    | nil => simp
    | cons next later =>
      rw [List.intercalate_cons_cons, List.flatMap_append, List.flatMap_append, ih]
      simp only [List.map_cons, List.intercalate_cons_cons]
      rfl

/-- No word reaches across a space between two parts. -/
theorem expressionWords_unwords (parts : List String) :
    expressionWords (unwords parts) = parts.flatMap expressionWords := by
  rw [funext expressionWords_eq]
  simp only [toList_unwords, flatMap_setApart_intercalate, splitBlank_intercalate, List.map_map, List.flatMap_map,
    List.map_flatMap, Function.comp_apply]

theorem ne_paren_of_mem_words {text word : String} (plain : Plain text) (member : word ∈ words text) :
    word ≠ "(" ∧ word ≠ ")" := by
  have inside (c : Char) (found : c ∈ word.toList) := plain c (mem_of_mem_words member found)
  constructor
  · rintro rfl
    exact (inside '(' (by decide)).1 rfl
  · rintro rfl
    exact (inside ')' (by decide)).2 rfl

theorem isWord_of_mem_expressionWords {text word : String} (member : word ∈ expressionWords text) : IsWord word :=
  isWord_of_mem_words member

end Criteria.Reading
