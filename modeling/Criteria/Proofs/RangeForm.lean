import Criteria.Proofs.LaidReading
/-!
The normal form of a factor is a matter of its words. The pattern for a range is a bound on either side of a hyphen with
white space around it. Once white space is collapsed it fits just the texts of three words with a hyphen in the middle,
in one way only and always as a whole, so greed plays no part in what is taken for the bounds.
-/

namespace Criteria.Reading

open Text

/-- Three words with a hyphen in the middle are closed up, any others are joined by single spaces. -/
def rangeForm : List String → String
  | [lower, "-", upper] => lower ++ "-" ++ upper
  | words => unwords words

/-- The whole text is a lower bound, white space, a hyphen, white space and an upper bound. -/
structure SpacedRange (text lower upper : List Char) : Prop where
  parts : ∃ before after, text = lower ++ (before ++ '-' :: (after ++ upper)) ∧ before ≠ [] ∧ after ≠ [] ∧
    (∀ c ∈ before, isBlank c = true) ∧ ∀ c ∈ after, isBlank c = true
  low : lower ≠ [] ∧ ∀ c ∈ lower, isBlank c = false
  high : upper ≠ [] ∧ ∀ c ∈ upper, isBlank c = false

private theorem splitBlank_append_of_blank {blank : List Char} (nonempty : blank ≠ [])
    (all : ∀ c ∈ blank, isBlank c = true) (left right : List Char) :
    splitBlank (left ++ (blank ++ right)) = splitBlank left ++ splitBlank right := by
  obtain ⟨c, rest, rfl⟩ := List.exists_cons_of_ne_nil nonempty
  obtain ⟨here, later⟩ := List.forall_mem_cons.mp all
  rw [List.cons_append, splitBlank_append_blank here]
  congr 1
  clear nonempty all
  induction rest with
  | nil => rfl
  | cons other rest ih =>
    obtain ⟨next, later⟩ := List.forall_mem_cons.mp later
    rw [List.cons_append, splitBlank_cons_blank next, ih later]

theorem SpacedRange.splitBlank_eq {text lower upper : List Char} (range : SpacedRange text lower upper) :
    splitBlank text = [lower, ['-'], upper] := by
  obtain ⟨before, after, rfl, some_before, some_after, blank_before, blank_after⟩ := range.parts
  have hyphen : splitBlank ['-'] = [['-']] := splitBlank_of_solid (by simp) (List.forall_mem_singleton.mpr rfl)
  rw [splitBlank_append_of_blank some_before blank_before, splitBlank_of_solid range.low.1 range.low.2,
    show '-' :: (after ++ upper) = ['-'] ++ (after ++ upper) from rfl,
    splitBlank_append_of_blank some_after blank_after, splitBlank_of_solid range.high.1 range.high.2, hyphen]
  rfl

theorem spacedRange_collapse {text : String} {lower upper : List Char} :
    SpacedRange (collapse text).toList lower upper ↔ words text = [.ofList lower, "-", .ofList upper] := by
  constructor
  · intro range
    have pieces := range.splitBlank_eq
    have solid : ∀ word ∈ words text, IsWord word := fun _ => isWord_of_mem_words
    rw [← unwords_of_solid solid, ← collapse, words, pieces]
    rfl
  · intro shape
    have solid (word : String) (member : word ∈ [.ofList lower, "-", .ofList upper]) : IsWord word :=
      isWord_of_mem_words (shape ▸ member)
    have whole : (collapse text).toList = lower ++ ([' '] ++ '-' :: ([' '] ++ upper)) := by
      rw [collapse, shape, unwords_range]
      simp
    have blank : ∀ c ∈ [' '], isBlank c = true := List.forall_mem_singleton.mpr isBlank_space
    refine ⟨⟨[' '], [' '], whole, by simp, by simp, blank, blank⟩, ?_, ?_⟩
    · simpa [IsWord] using solid (.ofList lower) (by simp)
    · simpa [IsWord] using solid (.ofList upper) (by simp)

theorem rangeForm_of_not_range {run : List String} (other : ¬ ∃ lower upper, run = [lower, "-", upper]) :
    rangeForm run = unwords run := by
  unfold rangeForm
  split
  next lower upper => exact absurd ⟨lower, upper, rfl⟩ other
  next => rfl

theorem normalizeFactor_eq_rangeForm (text : String) : normalizeFactor text = rangeForm (words text) := by
  have solid : ∀ word ∈ words text, IsWord word := fun _ => isWord_of_mem_words
  rw [← normalizeFactor_collapse, collapse]
  by_cases range : ∃ lower upper, words text = [lower, "-", upper]
  · obtain ⟨lower, upper, shape⟩ := range
    rw [shape, unwords_range]
    exact normalizeFactor_range (solid lower (by simp [shape])) (solid upper (by simp [shape]))
  · rw [rangeForm_of_not_range range]
    exact (normalizeFactor_eq_self_iff solid).mpr range

theorem filter_rangeForm {run : List String} (solid : ∀ word ∈ run, IsWord word) :
    (rangeForm run).toList.filter (!isBlank ·) = run.flatMap String.toList := by
  have kept (word : String) (member : word ∈ run) : word.toList.filter (!isBlank ·) = word.toList :=
    List.filter_eq_self.mpr fun c inside => by simp [(solid word member).2 c inside]
  unfold rangeForm
  split
  next lower upper =>
    rw [String.toList_append, String.toList_append, List.filter_append, List.filter_append, kept lower (by simp),
      kept "-" (by simp), kept upper (by simp)]
    simp
  next =>
    rw [filter_unwords (by decide)]
    exact List.flatMap_congr kept

/-- A factor is brought into the form that its words have, of which none is split and none is lost: the pattern for a
range fits when there are three with a hyphen in the middle, and takes the two others for the bounds. What is in normal
form stays as it is, and texts with the same words have the same one. -/
theorem normalizeFactor_by_words (text : String) :
    normalizeFactor text = rangeForm (words text) ∧
    (∀ lower upper, SpacedRange (collapse text).toList lower upper ↔
      words text = [.ofList lower, "-", .ofList upper]) ∧
    normalizeFactor (normalizeFactor text) = normalizeFactor text ∧
    (∀ other, words other = words text → normalizeFactor other = normalizeFactor text) ∧
    (normalizeFactor text).toList.filter (!isBlank ·) = text.toList.filter (!isBlank ·) := by
  refine ⟨normalizeFactor_eq_rangeForm text, fun _ _ => spacedRange_collapse, normalizeFactor_normal text, ?_, ?_⟩
  · intro other same
    rw [normalizeFactor_eq_rangeForm, normalizeFactor_eq_rangeForm, same]
  · have joined : (words text).flatMap String.toList = text.toList.filter (!isBlank ·) := by
      rw [← flatten_splitBlank, words, List.flatMap_map]
      simp [List.flatMap_def]
    rw [normalizeFactor_eq_rangeForm, filter_rangeForm fun _ => isWord_of_mem_words, joined]

example : normalizeFactor " 20\u3000-  30 " = "20-30" ∧ normalizeFactor "a - - b" = "a - - b" ∧
    normalizeFactor "- - -" = "---" := by decide

end Criteria.Reading
