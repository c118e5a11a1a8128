import Criteria.Proofs.WordSplitting
import Mathlib.Data.List.TakeWhile
/-!
A text with white space and letter case folded away. Every character is lowered on its own and a final sigma is
written as any other, so the place of a character in its word does not matter and folding is compatible with
joining, splitting, trimming and the normal form of factors.
-/

namespace Criteria.Text

/-- Lowering moves the capital ASCII letters and nothing else. -/
theorem toLower_cases (c : Char) : c.toLower = c ∨ 65 ≤ c.toNat ∧ c.toNat ≤ 90 ∧ c.toLower.toNat = c.toNat + 32 := by
  unfold Char.toLower
  split
  next upper =>
    right
    have bound := upper.2
    have least := upper.1
    simp only [Char.toNat]
    simp only [ge_iff_le, UInt32.le_iff_toNat_le] at bound least
    rw [UInt32.toNat_add]
    simp at bound least ⊢
    omega
  next => exact .inl rfl

theorem lowerCharacter_ne_nil (c : Char) : lowerCharacter c ≠ [] := by
  unfold lowerCharacter
  split
  · simp
  · split <;> simp

def plainSigma (c : Char) : Char := if c = 'ς' then 'σ' else c

def foldCharacter (c : Char) : List Char := (lowerCharacter c).map plainSigma

/-- The characters that are not blank, in lower case. -/
def fold (text : String) : List Char := (text.toList.filter (!isBlank ·)).flatMap foldCharacter

theorem fold_append (left right : String) : fold (left ++ right) = fold left ++ fold right := by
  simp [fold]

theorem fold_ne_nil_iff {text : String} : fold text ≠ [] ↔ Nonblank text := by
  have lowered (c : Char) : foldCharacter c ≠ [] := by simp [foldCharacter, lowerCharacter_ne_nil]
  constructor
  · intro nonempty
    obtain ⟨folded, member⟩ := List.exists_mem_of_ne_nil _ nonempty
    obtain ⟨c, kept, _⟩ := List.mem_flatMap.mp member
    obtain ⟨inside, solid⟩ := List.mem_filter.mp kept
    exact ⟨c, inside, by simpa using solid⟩
  · rintro ⟨c, inside, solid⟩
    obtain ⟨folded, member⟩ := List.exists_mem_of_ne_nil _ (lowered c)
    exact List.ne_nil_of_mem (List.mem_flatMap.mpr ⟨c, List.mem_filter.mpr ⟨inside, by simp [solid]⟩, member⟩)

theorem fold_of_isWord {word : String} (solid : IsWord word) : fold word = word.toList.flatMap foldCharacter := by
  have kept : word.toList.filter (!isBlank ·) = word.toList :=
    List.filter_eq_self.mpr fun c inside => by simp [solid.2 c inside]
  rw [fold, kept]

theorem fold_eq_of_filter_eq {left right : String}
    (same : left.toList.filter (!isBlank ·) = right.toList.filter (!isBlank ·)) : fold left = fold right := by
  rw [fold, fold, same]

/-- A capital sigma folds alike wherever it stands, so lower case by words folds as lower case by characters. -/
private theorem map_plainSigma_lowerAfter (before rest : List Char) :
    (lowerAfter before rest).map plainSigma = rest.flatMap foldCharacter := by
  induction rest generalizing before with
  | nil => rfl
  | cons c rest ih =>
    unfold lowerAfter
    rw [List.map_append, ih, List.flatMap_cons]
    congr 1
    by_cases sigma : c = 'Σ'
    · subst sigma
      rw [if_pos rfl]
      split <;> decide
    · rw [if_neg sigma]
      rfl

theorem fold_eq_of_lowercase_eq {left right : String} (solid : IsWord left) (unbroken : IsWord right)
    (same : lowercase left = lowercase right) : fold left = fold right := by
  have lowered : lowerAfter [] left.toList = lowerAfter [] right.toList := by
    rw [← toList_lowercase, ← toList_lowercase, same]
  rw [fold_of_isWord solid, fold_of_isWord unbroken, ← map_plainSigma_lowerAfter [], ← map_plainSigma_lowerAfter [],
    lowered]

theorem flatMap_fold_eq_of_lowercase_eq {left right : List String} (solid : ∀ word ∈ left, IsWord word)
    (unbroken : ∀ word ∈ right, IsWord word) (same : left.map lowercase = right.map lowercase) :
    left.flatMap fold = right.flatMap fold := by
  induction left generalizing right with
  | nil =>
    cases right with
    | nil => rfl
    | cons => cases same
  | cons word left ih =>
    cases right with
    | nil => cases same
    | cons other right =>
      obtain ⟨first, rest⟩ := List.cons.inj same
      rw [List.flatMap_cons, List.flatMap_cons,
        fold_eq_of_lowercase_eq (solid word List.mem_cons_self) (unbroken other List.mem_cons_self) first,
        ih (fun later member => solid later (List.mem_cons_of_mem _ member))
          (fun later member => unbroken later (List.mem_cons_of_mem _ member)) rest]

private theorem flatMap_fold_ofList (pieces : List (List Char)) :
    (pieces.map String.ofList).flatMap fold = (pieces.flatten.filter (!isBlank ·)).flatMap foldCharacter := by
  induction pieces with
  | nil => rfl
  | cons piece pieces ih => simp [ih, fold]

theorem flatMap_fold_words (text : String) : (words text).flatMap fold = fold text := by
  rw [words, flatMap_fold_ofList, flatten_splitBlank, List.filter_filter]
  simp [fold]

theorem fold_unwords (parts : List String) : fold (unwords parts) = parts.flatMap fold := by
  induction parts with
  | nil => rfl
  | cons part parts ih =>
    cases parts with
    | nil => simp [unwords_singleton]
    | cons next later =>
      rw [unwords_cons_cons, fold_append, fold_append, ih]
      simp [fold, isBlank_space]

theorem fold_collapse (text : String) : fold (collapse text) = fold text := by
  rw [collapse, fold_unwords, flatMap_fold_words]

private theorem filter_dropWhile_blank (cs : List Char) :
    (cs.dropWhile isBlank).filter (!isBlank ·) = cs.filter (!isBlank ·) := by
  induction cs with
  | nil => rfl
  | cons c cs ih =>
    rw [List.dropWhile_cons]
    split
    next blank => simp [ih, blank]
    next => rfl

theorem filter_trimBlank (cs : List Char) : (trimBlank cs).filter (!isBlank ·) = cs.filter (!isBlank ·) := by
  rw [trimBlank, List.filter_reverse, filter_dropWhile_blank, List.filter_reverse, List.reverse_reverse,
    filter_dropWhile_blank]

theorem nonblank_trimBlank {cs : List Char} (occupied : trimBlank cs ≠ []) :
    Nonblank (String.ofList (trimBlank cs)) := by
  have solid : ¬ ∀ c ∈ cs, isBlank c = true := by
    intro blank
    have dropped : cs.dropWhile isBlank = [] := List.dropWhile_eq_nil_iff.mpr blank
    exact occupied (by simp [trimBlank, dropped])
  obtain ⟨c, inside, solid⟩ : ∃ c ∈ cs, isBlank c = false := by simpa using solid
  have kept : c ∈ (trimBlank cs).filter (!isBlank ·) := by
    rw [filter_trimBlank]
    exact List.mem_filter.mpr ⟨inside, by simp [solid]⟩
  exact ⟨c, by rw [String.toList_ofList]; exact (List.mem_filter.mp kept).1, solid⟩

end Criteria.Text

namespace Criteria.Reading

open Text

theorem filter_flatMap_setApart (cs : List Char) :
    (cs.flatMap setApart).filter (!isBlank ·) = cs.filter (!isBlank ·) := by
  induction cs with
  | nil => rfl
  | cons c cs ih =>
    rw [List.flatMap_cons, List.filter_append, ih]
    unfold setApart
    split
    next paren =>
      simp only [Bool.or_eq_true, decide_eq_true_eq] at paren
      rcases paren with rfl | rfl <;> rfl
    next =>
      rw [← List.filter_append]
      rfl

theorem flatMap_toList_expressionWords (text : String) :
    (expressionWords text).flatMap String.toList = text.toList.filter (!isBlank ·) := by
  rw [expressionWords_eq, List.flatMap_map, ← filter_flatMap_setApart, ← flatten_splitBlank]
  simp [List.flatMap_def]

theorem flatMap_fold_expressionWords (text : String) : (expressionWords text).flatMap fold = fold text := by
  rw [expressionWords, flatMap_fold_words]
  exact fold_eq_of_filter_eq (by rw [String.toList_ofList, filter_flatMap_setApart])

private theorem filter_closeRange (text : List Char) :
    (closeRange text).filter (!isBlank ·) = text.filter (!isBlank ·) := by
  simp only [closeRange]
  split
  next rest hyphen =>
    split
    next =>
      have whole : text.takeWhile (!isBlank ·) ++ text.dropWhile (!isBlank ·) = text := List.takeWhile_append_dropWhile
      have later : (text.dropWhile (!isBlank ·)).filter (!isBlank ·) = ('-' :: rest).filter (!isBlank ·) := by
        rw [← hyphen, filter_dropWhile_blank]
      conv => rhs; rw [← whole]
      rw [List.filter_append, List.filter_append, later, List.filter_cons, List.filter_cons, filter_dropWhile_blank]
    next => rfl
  next => rfl

theorem fold_normalizeFactor (text : String) : fold (normalizeFactor text) = fold text := by
  rw [← fold_collapse text]
  exact fold_eq_of_filter_eq (by rw [normalizeFactor, String.toList_ofList, filter_closeRange])

end Criteria.Reading
