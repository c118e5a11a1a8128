import Criteria.Proofs.ShownWords
/-!
Reading shown words. Each step that was read is found again at the words shown for it, so scanning these gives the same
tokens as scanning the words that were read.
-/

namespace Criteria

open Text

namespace Reading

variable {catalog : Catalog} {passed tokens : List Token} {token : Token}
  {taken remaining others words shown : List String}

theorem unclaimed_of_formless (formless : ∀ symbol subject earlier, passed = .operator symbol :: subject :: earlier →
    ∀ form ∈ forms catalog subject, form.1 ≠ [] → ¬ form.1 <+: words) : catalogFactor? catalog passed words = none := by
  rw [Option.eq_none_iff_forall_ne_some]
  rintro ⟨count, value⟩ found
  obtain ⟨symbol, subject, earlier, shape, _, member, positive, within⟩ := catalogFactor?_shape found
  refine formless symbol subject earlier shape _ member ?_ (List.take_prefix count words)
  exact List.ne_nil_of_length_pos (by simp only [List.length_take]; omega)

theorem Respelled.append_self (rest : Respelled catalog words shown) (front : List String) :
    Respelled catalog (front ++ words) (front ++ shown) := by
  induction front with
  | nil => exact rest
  | cons word front ih => exact .word word ih

theorem Resembles.of_begins {form : List String} (begins : form <+: words) : Resembles catalog form words :=
  ⟨words, by simpa using @Respelled.append_self catalog [] [] .nil words, begins⟩

theorem Piece.respelled (indexed : catalog.Indexed) (piece : Piece catalog passed remaining taken token)
    (spelled : ∀ word ∈ taken, Spelled word) (rest : Respelled catalog remaining others) :
    Respelled catalog (taken ++ remaining) (expressionWords token.text ++ others) := by
  cases piece with
  | paren listed =>
    simp only [List.mem_cons, Prod.mk.injEq, List.not_mem_nil, or_false] at listed
    rcases listed with ⟨rfl, rfl⟩ | ⟨rfl, rfl⟩
    · exact .word "(" rest
    · exact .word ")" rest
  | phrase _ _ matched =>
    obtain ⟨member, _, _, place⟩ := indexed.phrases.of_longestMatch matched
    rw [List.take_left] at place
    rw [Catalog.text_token member]
    exact .phrase member place rest
  | name _ _ matched =>
    obtain ⟨member, _, _, place⟩ := indexed.of_matchParameter? matched
    rw [List.take_left] at place
    exact .name member place rest
  | run _ unbroken =>
    rw [Token.text]
    rcases expressionWords_run unbroken spelled with ⟨_, same⟩ | ⟨lower, upper, rfl, _, _, same⟩
    · rw [same]
      exact rest.append_self taken
    · rw [same]
      exact .closed lower upper rest

/-- What is shown is the catalog's spelling of the words that were read. -/
theorem Reread.respelled (indexed : catalog.Indexed) (reread : Reread catalog passed words shown tokens)
    (spelled : ∀ word ∈ words, Spelled word) : Respelled catalog words shown := by
  induction reread with
  | nil => exact .nil
  | listed known found longest steady offered later ih =>
    exact .listed known (mem_forms_of_found found).1 offered (ih fun word member => spelled word (by simp [member]))
  | kept formless piece later ih =>
    exact piece.respelled indexed (fun word member => spelled word (by simp [member]))
      (ih fun word member => spelled word (by simp [member]))

theorem piece_of_joined (indexed : catalog.Indexed) {lower upper : String} (solid : IsWord (lower ++ "-" ++ upper))
    (unkeyed : Unkeyed catalog (lower ++ "-" ++ upper))
    (kept : KnownRun catalog passed (lower ++ "-" ++ upper) ∨ ∀ word ∈ [lower, "-", upper], ¬ Spoken word.toList)
    (stop : isBoundary catalog remaining = true) :
    Piece catalog passed remaining [lower ++ "-" ++ upper] (.factor (lower ++ "-" ++ upper)) := by
  generalize shape : lower ++ "-" ++ upper = joined at *
  have hyphen : '-' ∈ joined.toList := by
    rw [← shape]
    simp
  have kept : KnownRun catalog passed (normalizeFactor (unwords [joined])) ∨ ∀ word ∈ [joined], ¬ Spoken word.toList := by
    rw [unwords_singleton, normalizeFactor_of_isWord solid]
    refine kept.imp_right fun silent => List.forall_mem_singleton.mpr ?_
    rw [← shape]
    intro spoken
    have apart : isWordCharacter '-' = false := by decide +kernel
    exact (Spoken.of_append_cons apart (by simpa using spoken)).elim (silent lower (by simp)) (silent upper (by simp))
  have unphrased : catalog.matchPhrase? (joined :: remaining) = none := by
    refine indexed.phrases.longestMatch_eq_none.mpr fun phrase member begins => ?_
    exact (indexed.phrases.stored phrase member).1 (nil_of_unkeyed (unkeyed.phrases phrase member) begins)
  have inside : Reading.isBoundary catalog (joined :: remaining) = false := by
    refine isBoundary_eq_false.mpr ⟨?_, ?_, unphrased⟩
    · rintro rfl
      exact absurd hyphen (by decide)
    · rintro rfl
      exact absurd hyphen (by decide)
  have run := @Piece.run catalog passed remaining [joined] (List.cons_ne_nil _ _) ?_ stop ?_ kept
    (fun _ _ same => by cases same)
  · rwa [unwords_singleton, normalizeFactor_of_isWord solid] at run
  · intro suffix ends nonempty
    rcases List.suffix_cons_iff.mp ends with rfl | empty
    · exact inside
    · exact absurd (List.suffix_nil.mp empty) nonempty
  · refine indexed.matchParameter?_eq_none.mpr fun parameter member begins => ?_
    exact indexed.key_name_ne_nil member (nil_of_unkeyed (unkeyed.names parameter member) begins)

theorem Piece.reread (indexed : catalog.Indexed)
    (piece : Piece catalog passed remaining taken token) (spelled : ∀ word ∈ taken ++ remaining, Spelled word)
    (later : Reread catalog (token :: passed) remaining others tokens) :
    Piece catalog passed others (expressionWords token.text) token := by
  have here : ∀ word ∈ taken, Spelled word := fun word member => spelled word (List.mem_append_left _ member)
  have rear : ∀ word ∈ remaining, Spelled word := fun word member => spelled word (List.mem_append_right _ member)
  cases piece with
  | paren listed =>
    simp only [List.mem_cons, Prod.mk.injEq, List.not_mem_nil, or_false] at listed
    rcases listed with ⟨rfl, rfl⟩ | ⟨rfl, rfl⟩
    · have opens : expressionWords Token.openParen.text = ["("] := by decide
      rw [opens]
      exact .paren (by simp)
    · have closes : expressionWords Token.closeParen.text = [")"] := by decide
      rw [closes]
      exact .paren (by simp)
  | @phrase word rest phrase notOpen notClose matched =>
    obtain ⟨member, _, _, place⟩ := indexed.phrases.of_longestMatch matched
    rw [List.take_left] at place
    have same := expressionWords_phrase_token member here place
    obtain ⟨first, more, shape⟩ : ∃ first more, expressionWords phrase.token.text = first :: more := by
      refine List.exists_cons_of_ne_nil fun empty => ?_
      rw [empty] at same
      cases same
    rw [shape] at same ⊢
    have alike : lowercase first = lowercase word := (List.cons.inj same).1
    refine .phrase ?_ ?_ ?_
    · rintro rfl
      exact notOpen (paren_of_lowercase_eq (here word (by simp)) (by simp) alike.symm)
    · rintro rfl
      exact notClose (paren_of_lowercase_eq (here word (by simp)) (by simp) alike.symm)
    · refine longestMatch_of_alike indexed.phrases matched same fun other known rest split => ?_
      exact phrase_begins indexed rear later known (split ▸ List.subset_append_right _ _)
  | @name _ parameter nonempty unbroken matched =>
    obtain ⟨member, _, _, place⟩ := indexed.of_matchParameter? matched
    rw [List.take_left] at place
    have same := expressionWords_name here place
    refine .name ?_ (unbroken.shows indexed here rear later same) ?_
    · intro empty
      rw [empty] at same
      exact nonempty (List.map_eq_nil_iff.mp same.symm)
    · refine matchParameter?_of_alike indexed matched same fun other known rest split => ?_
      refine name_begins indexed later rear ?_ known (split ▸ List.subset_append_right _ _)
      exact fun symbol earlier => by simp [ParameterDef.token]
  | run nonempty unbroken stop unnamed kept closed =>
    have stopped : isBoundary catalog others = true := later.isBoundary indexed rear (by simp) stop
    rcases expressionWords_run unbroken here with ⟨_, same⟩ | ⟨lower, upper, rfl, solid, value, same⟩
    · rw [Token.text, same]
      exact .run nonempty (unbroken.shows indexed here rear later rfl) stopped unnamed kept closed
    · rw [Token.text, same, value]
      exact piece_of_joined indexed solid (closed lower upper rfl) (value ▸ kept) stopped

/-- The words that were read are scanned as the tokens. -/
theorem Reread.scan (reread : Reread catalog passed words shown tokens) (spelled : ∀ word ∈ words, Spelled word) :
    scanFrom catalog passed 0 words = passed.reverse ++ tokens := by
  induction reread with
  | nil => simp [scanFrom]
  | @listed symbol value parameter earlier tokens taken remaining shown others known found longest steady offered
      later ih =>
    obtain ⟨word, rest, rfl⟩ := List.exists_cons_of_ne_nil (mem_forms_of_found found).2
    rw [scanFrom_step remaining (tokensAt_of_factor found), List.reverse_singleton, List.singleton_append,
      ih fun word member => spelled word (List.mem_append_right _ member)]
    simp
  | @kept passed tokens taken remaining others token formless piece later ih =>
    have solid : ∀ word ∈ taken, IsWord word := fun word member => (spelled word (List.mem_append_left _ member)).isWord
    have unclaimed : catalogFactor? catalog passed (taken ++ remaining) = none :=
      unclaimed_of_formless fun symbol subject earlier same form offered nonempty begins =>
        formless symbol subject earlier same form offered nonempty (.of_begins begins)
    rw [piece.scan solid unclaimed, ih fun word member => spelled word (List.mem_append_right _ member)]
    simp

theorem catalogFactor?_shown {symbol value : String} {parameter : ParameterDef} {earlier : List Token}
    (known : parameter ∈ catalog.parameters)
    (found : catalogFactor? catalog (.operator symbol :: parameter.token :: earlier) (taken ++ remaining) =
      some (taken.length, value))
    (longest : ∀ form ∈ forms catalog parameter.token, form.1 ≠ [] →
      Resembles catalog form.1 (taken ++ remaining) → form.2 = value ∨ (fold form.2).length < (fold value).length)
    (offered : (shown, value) ∈ forms catalog parameter.token) (rest : Respelled catalog remaining others) :
    catalogFactor? catalog (.operator symbol :: parameter.token :: earlier) (shown ++ others) =
      some (shown.length, value) := by
  refine catalogFactor?_eq_some rfl offered (spelling_ne_nil found offered) fun form member nonempty begins => ?_
  by_cases shorter : form.1.length < shown.length
  · exact .inr shorter
  left
  obtain ⟨more, split⟩ : shown <+: form.1 :=
    List.prefix_of_prefix_length_le (List.prefix_append _ _) begins (Nat.le_of_not_lt shorter)
  have resembles : Resembles catalog form.1 (taken ++ remaining) :=
    ⟨shown ++ others, .listed known (mem_forms_of_found found).1 offered rest, begins⟩
  have whole : fold form.2 = fold value ++ more.flatMap fold := by
    rw [← (mem_forms member).1, ← split, List.flatMap_append, (mem_forms offered).1]
  rcases longest form member nonempty resembles with equal | shorter
  · have nothing : more = [] := by
      rw [equal, List.self_eq_append_right] at whole
      by_contra extra
      refine flatMap_fold_ne_nil (fun word inside => ?_) extra whole
      exact solid_of_mem_forms member word (split ▸ List.mem_append_right _ inside)
    rw [nothing, List.append_nil] at split
    exact Prod.ext split.symm equal
  · rw [whole, List.length_append] at shorter
    omega

/-- The words that are shown are scanned as the tokens. -/
theorem Reread.scan_shown (indexed : catalog.Indexed) (reread : Reread catalog passed words shown tokens)
    (spelled : ∀ word ∈ words, Spelled word) :
    scanFrom catalog passed 0 shown = passed.reverse ++ tokens := by
  induction reread with
  | nil => simp [scanFrom]
  | @listed symbol value parameter earlier tokens taken remaining shown others known found longest steady offered
      later ih =>
    have rear : ∀ word ∈ remaining, Spelled word := fun word member => spelled word (List.mem_append_right _ member)
    have claimed := catalogFactor?_shown known found longest offered (later.respelled indexed rear)
    obtain ⟨word, rest, rfl⟩ := List.exists_cons_of_ne_nil (spelling_ne_nil found offered)
    rw [scanFrom_step others (tokensAt_of_factor claimed), List.reverse_singleton, List.singleton_append, ih rear]
    simp
  | @kept passed tokens taken remaining others token formless piece later ih =>
    have rear : ∀ word ∈ remaining, Spelled word := fun word member => spelled word (List.mem_append_right _ member)
    have respelled := (Reread.kept formless piece later).respelled indexed spelled
    have unclaimed : catalogFactor? catalog passed (expressionWords token.text ++ others) = none :=
      unclaimed_of_formless fun symbol subject earlier same form offered nonempty begins =>
        formless symbol subject earlier same form offered nonempty ⟨_, respelled, begins⟩
    rw [(piece.reread indexed spelled later).scan (fun word => isWord_of_mem_expressionWords) unclaimed, ih rear]
    simp

end Reading

end Criteria
