import Criteria.Proofs.RunReading
/-!
The first reading in steps. Where no listed factor is read, a step takes a stretch of words: a parenthesis, a phrase or
a name is one token, and a run is cut into as many as it has logical operators in it. What a step makes of its words
depends on the tokens before them and on the words behind.
-/

namespace Criteria.Reading

open Text

variable {catalog : Catalog} {passed piece tokens : List Token} {taken remaining words : List String}

theorem untilBoundary_append_unbroken (unbroken : Unbroken catalog taken remaining) :
    untilBoundary catalog (taken ++ remaining) = taken ++ untilBoundary catalog remaining := by
  induction taken with
  | nil => rfl
  | cons word taken ih =>
    have here := unbroken (word :: taken) (List.suffix_refl _) (List.cons_ne_nil _ _)
    rw [List.cons_append] at here ⊢
    rw [untilBoundary, here, if_neg Bool.false_ne_true, ih (unbroken.of_suffix (List.suffix_cons _ _))]
    rfl

theorem unbroken_of_prefix (begins : taken <+: untilBoundary catalog (taken ++ remaining)) :
    Unbroken catalog taken remaining := by
  induction taken with
  | nil => exact fun suffix ends nonempty => absurd (List.suffix_nil.mp ends) nonempty
  | cons word taken ih =>
    rw [List.cons_append, untilBoundary] at begins
    split at begins
    next => exact absurd (List.prefix_nil.mp begins) (by simp)
    next inside =>
      intro suffix ends nonempty
      rcases List.suffix_cons_iff.mp ends with rfl | shorter
      · simpa using inside
      · exact ih (List.cons_prefix_cons.mp begins).2 suffix shorter nonempty

theorem untilBoundary_split (words : List String) :
    ∃ remaining, words = untilBoundary catalog words ++ remaining ∧ isBoundary catalog remaining = true := by
  induction words with
  | nil => exact ⟨[], rfl, rfl⟩
  | cons word rest ih =>
    rw [untilBoundary]
    split
    next stop => exact ⟨word :: rest, rfl, stop⟩
    next =>
      obtain ⟨remaining, split, stop⟩ := ih
      exact ⟨remaining, by rw [List.cons_append, ← split], stop⟩

theorem Unbroken.append (first : Unbroken catalog taken (words ++ remaining))
    (second : Unbroken catalog words remaining) : Unbroken catalog (taken ++ words) remaining := by
  intro suffix ends nonempty
  rcases List.suffix_or_suffix_of_suffix ends (List.suffix_append taken words) with inside | beyond
  · exact second suffix inside nonempty
  · obtain ⟨front, rfl⟩ := beyond
    cases front with
    | nil =>
      rw [List.nil_append] at nonempty ⊢
      exact second words (List.suffix_refl _) nonempty
    | cons word front =>
      have within : word :: front <:+ taken := by
        obtain ⟨before, same⟩ := ends
        exact ⟨before, List.append_cancel_right (by rw [List.append_assoc, same])⟩
      rw [List.append_assoc]
      exact first (word :: front) within (List.cons_ne_nil _ _)

theorem catalogFactor?_shape {count : Nat} {value : String}
    (found : catalogFactor? catalog passed words = some (count, value)) :
    ∃ symbol subject earlier, passed = .operator symbol :: subject :: earlier ∧ subject.isParameter = true ∧
      (words.take count, value) ∈ forms catalog subject ∧ 0 < count ∧ count ≤ words.length := by
  unfold catalogFactor? at found
  split at found
  next symbol subject earlier =>
    split at found
    next isParameter =>
      obtain ⟨form, longest, pair⟩ := Option.map_eq_some_iff.mp found
      obtain ⟨rfl, rfl⟩ := Prod.mk.inj pair
      obtain ⟨member, fits⟩ := List.mem_filter.mp (longestForm_mem longest)
      simp only [Bool.and_eq_true, Bool.not_eq_true', List.isEmpty_eq_false_iff, List.isPrefixOf_iff_prefix] at fits
      refine ⟨symbol, subject, earlier, rfl, isParameter, ?_, List.length_pos_iff.mpr fits.1, fits.2.length_le⟩
      rw [← List.prefix_iff_eq_take.mp fits.2]
      exact member
    next => cases found
  next => cases found

/-- A step that takes no listed factor: the words taken in front of the others, and the tokens that are made of them. -/
inductive Stretch (catalog : Catalog) (passed : List Token) (remaining : List String) :
    List String → List Token → Prop
  | paren {word : String} {token : Token} (listed : (word, token) ∈ [("(", Token.openParen), (")", .closeParen)]) :
      Stretch catalog passed remaining [word] [token]
  | phrase {word : String} {rest : List String} {phrase : Phrase} (notOpen : word ≠ "(") (notClose : word ≠ ")")
      (matched : catalog.matchPhrase? (word :: rest ++ remaining) = some ((word :: rest).length, phrase)) :
      Stretch catalog passed remaining (word :: rest) [phrase.token]
  | name {taken : List String} {parameter : ParameterDef} (nonempty : taken ≠ [])
      (unbroken : Unbroken catalog taken remaining)
      (matched : catalog.matchParameter? (taken ++ untilBoundary catalog remaining) = some (taken.length, parameter)) :
      Stretch catalog passed remaining taken [parameter.token]
  | run {taken : List String} (nonempty : taken ≠ []) (unbroken : Unbroken catalog taken remaining)
      (stop : isBoundary catalog remaining = true) (unnamed : catalog.matchParameter? taken = none) :
      Stretch catalog passed remaining taken (runTokens catalog passed (unwords taken))

theorem Stretch.nonempty (stretch : Stretch catalog passed remaining taken piece) : taken ≠ [] := by
  cases stretch with
  | paren | phrase => simp
  | name nonempty => exact nonempty
  | run nonempty => exact nonempty

theorem Stretch.read {word : String} {rest : List String}
    (stretch : Stretch catalog passed remaining (word :: rest) piece)
    (unclaimed : catalogFactor? catalog passed (word :: rest ++ remaining) = none) :
    tokensAt catalog passed word (rest ++ remaining) = (piece, (word :: rest).length) := by
  cases stretch with
  | paren listed =>
    simp only [List.mem_cons, Prod.mk.injEq, List.not_mem_nil, or_false] at listed
    unfold tokensAt
    rw [List.nil_append]
    rw [List.singleton_append] at unclaimed
    rw [unclaimed]
    rcases listed with ⟨rfl, rfl⟩ | ⟨rfl, rfl⟩ <;> rfl
  | phrase notOpen notClose matched => exact tokensAt_of_phrase unclaimed notOpen notClose matched
  | name nonempty unbroken matched =>
    have here := unbroken (word :: rest) (List.suffix_refl _) (List.cons_ne_nil _ _)
    rw [List.cons_append] at here matched unclaimed
    obtain ⟨notOpen, notClose, unmatched⟩ := isBoundary_eq_false.mp here
    have run := untilBoundary_append_unbroken (unbroken.of_suffix (List.suffix_cons word rest))
    simp only [tokensAt, unclaimed, notOpen, notClose, unmatched, run, matched, if_false, ParameterDef.token]
  | run nonempty unbroken stop unnamed => rw [tokensAt_of_run unclaimed unbroken stop unnamed]

theorem Stretch.scan (stretch : Stretch catalog passed remaining taken piece)
    (unclaimed : catalogFactor? catalog passed (taken ++ remaining) = none) :
    scanFrom catalog passed 0 (taken ++ remaining) = scanFrom catalog (piece.reverse ++ passed) 0 remaining := by
  obtain ⟨word, rest, rfl⟩ := List.exists_cons_of_ne_nil stretch.nonempty
  exact scanFrom_step remaining (stretch.read unclaimed)

theorem exists_stretch (indexed : catalog.Indexed) (passed : List Token) (word : String) (rest : List String) :
    ∃ taken remaining piece, word :: rest = taken ++ remaining ∧ Stretch catalog passed remaining taken piece := by
  by_cases notOpen : word = "("
  · exact ⟨[word], rest, [.openParen], rfl, .paren (by simp [notOpen])⟩
  by_cases notClose : word = ")"
  · exact ⟨[word], rest, [.closeParen], rfl, .paren (by simp [notClose])⟩
  cases matched : catalog.matchPhrase? (word :: rest) with
  | some found =>
    obtain ⟨count, phrase⟩ := found
    obtain ⟨_, positive, within, _⟩ := indexed.phrases.of_longestMatch matched
    obtain ⟨count, rfl⟩ := Nat.exists_eq_add_one.mpr positive
    refine ⟨word :: rest.take count, rest.drop count, [phrase.token], by simp, .phrase notOpen notClose ?_⟩
    have length : (word :: rest.take count).length = count + 1 := by simpa using within
    rw [length, List.cons_append, List.take_append_drop, matched]
  | none =>
    have here : isBoundary catalog (word :: rest) = false := isBoundary_eq_false.mpr ⟨notOpen, notClose, matched⟩
    obtain ⟨remaining, split, stop⟩ := @untilBoundary_split catalog (word :: rest)
    generalize reached : untilBoundary catalog (word :: rest) = run at split
    have nonempty : run ≠ [] := by
      rw [← reached, untilBoundary, here]
      simp
    rw [split] at reached
    have unbroken : Unbroken catalog run remaining := unbroken_of_prefix (reached.symm ▸ List.prefix_refl _)
    cases named : catalog.matchParameter? run with
    | none => exact ⟨run, remaining, _, split, .run nonempty unbroken stop named⟩
    | some found =>
      obtain ⟨count, parameter⟩ := found
      obtain ⟨_, positive, within, _⟩ := indexed.of_matchParameter? named
      have whole : run.take count ++ (run.drop count ++ remaining) = run ++ remaining := by
        rw [← List.append_assoc, List.take_append_drop]
      have begins : Unbroken catalog (run.take count) (run.drop count ++ remaining) :=
        unbroken_of_prefix (by rw [whole, reached]; exact List.take_prefix _ _)
      have length : (run.take count).length = count := by simpa using within
      refine ⟨run.take count, run.drop count ++ remaining, [parameter.token], by rw [whole, split], ?_⟩
      refine .name (List.length_pos_iff.mp (by omega)) begins ?_
      rw [← untilBoundary_append_unbroken begins, whole, reached, length, named]

/-- What one step takes in front of the other words: a listed factor, or a stretch where none is read. -/
inductive Reads (catalog : Catalog) (passed : List Token) (remaining : List String) : List String → List Token → Prop
  | listed {taken : List String} {value : String}
      (found : catalogFactor? catalog passed (taken ++ remaining) = some (taken.length, value)) :
      Reads catalog passed remaining taken [.factor value]
  | stretch {taken : List String} {piece : List Token}
      (unclaimed : catalogFactor? catalog passed (taken ++ remaining) = none)
      (stretch : Stretch catalog passed remaining taken piece) : Reads catalog passed remaining taken piece

theorem Reads.nonempty (reads : Reads catalog passed remaining taken piece) : taken ≠ [] := by
  cases reads with
  | listed found =>
    obtain ⟨_, _, _, _, _, _, positive, _⟩ := catalogFactor?_shape found
    exact List.length_pos_iff.mp positive
  | stretch _ stretch => exact stretch.nonempty

theorem Reads.read {word : String} {rest : List String} (reads : Reads catalog passed remaining (word :: rest) piece) :
    tokensAt catalog passed word (rest ++ remaining) = (piece, (word :: rest).length) := by
  cases reads with
  | listed found => exact tokensAt_of_factor found
  | stretch unclaimed stretch => exact stretch.read unclaimed

theorem Reads.scan (reads : Reads catalog passed remaining taken piece) :
    scanFrom catalog passed 0 (taken ++ remaining) = scanFrom catalog (piece.reverse ++ passed) 0 remaining := by
  obtain ⟨word, rest, rfl⟩ := List.exists_cons_of_ne_nil reads.nonempty
  exact scanFrom_step remaining reads.read

theorem exists_reads (indexed : catalog.Indexed) (passed : List Token) (word : String) (rest : List String) :
    ∃ taken remaining piece, word :: rest = taken ++ remaining ∧ Reads catalog passed remaining taken piece := by
  cases found : catalogFactor? catalog passed (word :: rest) with
  | some claim =>
    obtain ⟨count, value⟩ := claim
    obtain ⟨_, _, _, _, _, _, _, within⟩ := catalogFactor?_shape found
    have whole : (word :: rest).take count ++ (word :: rest).drop count = word :: rest :=
      List.take_append_drop ..
    have length : ((word :: rest).take count).length = count := by simpa using within
    exact ⟨_, _, _, whole.symm, .listed (by rw [whole, length, found])⟩
  | none =>
    obtain ⟨taken, remaining, piece, shape, stretch⟩ := exists_stretch indexed passed word rest
    exact ⟨taken, remaining, piece, shape, .stretch (shape ▸ found) stretch⟩

/-- The words behind the passed tokens are read as the tokens. -/
inductive Scanned (catalog : Catalog) : List Token → List String → List Token → Prop
  | nil (passed : List Token) : Scanned catalog passed [] []
  | listed {passed tokens : List Token} {taken remaining : List String} {value : String}
      (found : catalogFactor? catalog passed (taken ++ remaining) = some (taken.length, value))
      (later : Scanned catalog (.factor value :: passed) remaining tokens) :
      Scanned catalog passed (taken ++ remaining) (.factor value :: tokens)
  | stretch {passed piece tokens : List Token} {taken remaining : List String}
      (unclaimed : catalogFactor? catalog passed (taken ++ remaining) = none)
      (stretch : Stretch catalog passed remaining taken piece)
      (later : Scanned catalog (piece.reverse ++ passed) remaining tokens) :
      Scanned catalog passed (taken ++ remaining) (piece ++ tokens)

/-- Reading always gets to the end of the words in such steps. -/
theorem exists_scanned (indexed : catalog.Indexed) (passed : List Token) (words : List String) :
    ∃ tokens, Scanned catalog passed words tokens ∧ scanFrom catalog passed 0 words = passed.reverse ++ tokens := by
  induction bound : words.length using Nat.strongRecOn generalizing words passed with
  | ind limit ih =>
    cases words with
    | nil => exact ⟨[], .nil passed, (List.append_nil _).symm⟩
    | cons word rest =>
      obtain ⟨taken, remaining, piece, shape, reads⟩ := exists_reads indexed passed word rest
      have shorter : remaining.length < limit := by
        have nonempty := List.length_pos_iff.mpr reads.nonempty
        rw [← bound, shape, List.length_append]
        omega
      obtain ⟨tokens, scanned, read⟩ := ih _ shorter (piece.reverse ++ passed) _ rfl
      refine ⟨piece ++ tokens, ?_, by rw [shape, reads.scan, read]; simp⟩
      rw [shape]
      cases reads with
      | listed found => exact .listed found scanned
      | stretch unclaimed stretch => exact .stretch unclaimed stretch scanned

end Criteria.Reading
