import Criteria.Proofs.DividedReading
/-!
Recognising divisible texts and settled words. However the words may be shown, their characters stay the same but for
white space and letter case, so a listed factor whose characters do not begin there is not resembled, and a word that
begins nothing of the catalog's stays as it is. What is left to look at is finite.
-/

namespace Criteria.Reading

open Text

variable {catalog : Catalog} {words shown : List String}

theorem Respelled.flatMap_fold (respelled : Respelled catalog words shown) (solid : ∀ word ∈ words, IsWord word) :
    shown.flatMap fold = words.flatMap fold := by
  induction respelled with
  | nil => rfl
  | word word rest ih =>
    rw [List.flatMap_cons, List.flatMap_cons, ih fun other member => solid other (List.mem_cons_of_mem _ member)]
  | @name words shown taken parameter known same rest ih =>
    obtain ⟨here, later⟩ := List.forall_mem_append.mp solid
    rw [List.flatMap_append, List.flatMap_append, ih later, flatMap_fold_expressionWords, ← flatMap_fold_words]
    rw [flatMap_fold_eq_of_lowercase_eq here (fun word => isWord_of_mem_words) same]
  | @phrase words shown taken phrase known same rest ih =>
    obtain ⟨here, later⟩ := List.forall_mem_append.mp solid
    rw [List.flatMap_append, List.flatMap_append, ih later, flatMap_fold_expressionWords, ← flatMap_fold_words]
    rw [flatMap_fold_eq_of_lowercase_eq here (fun word => isWord_of_mem_words) same]
  | closed lower upper rest ih =>
    rw [List.flatMap_append, List.flatMap_append, ih fun other member => solid other (List.mem_append_right _ member)]
    simp [fold_append]
  | listed known read offered rest ih =>
    rw [List.flatMap_append, List.flatMap_append, ih fun other member => solid other (List.mem_append_right _ member),
      (mem_forms read).1, (mem_forms offered).1]

theorem Resembles.begins {form : List String} (resembles : Resembles catalog form words)
    (solid : ∀ word ∈ words, IsWord word) : form.flatMap fold <+: words.flatMap fold := by
  obtain ⟨shown, respelled, within⟩ := resembles
  rw [← respelled.flatMap_fold solid]
  exact within.flatMap fold

theorem expressionWords_of_key_eq_nil {text : String} (nothing : PhraseTrie.key text = []) :
    expressionWords text = [] := by
  have folded := flatMap_fold_expressionWords text
  rw [← flatMap_fold_words, List.map_eq_nil_iff.mp nothing] at folded
  by_contra nonempty
  exact flatMap_fold_ne_nil (fun word => isWord_of_mem_expressionWords) nonempty folded

/-- A word that begins nothing the catalog spells in its own way. -/
structure Inert (catalog : Catalog) (word : String) (rest : List String) : Prop where
  unkeyed : Unkeyed catalog word
  unlisted : ∀ parameter ∈ catalog.parameters, ∀ form ∈ forms catalog parameter.token, form.1.head? ≠ some word
  apart : rest.head? ≠ some "-"

theorem Respelled.head {word : String} {rest : List String} (respelled : Respelled catalog words shown)
    (first : words = word :: rest) (inert : Inert catalog word rest) : shown.head? = some word := by
  induction respelled with
  | nil => cases first
  | word => rw [(List.cons.inj first).1, List.head?_cons]
  | @name words shown taken parameter known same later ih =>
    cases taken with
    | nil => rw [expressionWords_of_key_eq_nil same.symm, List.nil_append, ih first]
    | cons other taken =>
      obtain ⟨rfl, _⟩ := List.cons.inj first
      exact absurd (same ▸ List.mem_cons_self) (inert.unkeyed.names parameter known)
  | @phrase words shown taken phrase known same later ih =>
    cases taken with
    | nil => rw [expressionWords_of_key_eq_nil same.symm, List.nil_append, ih first]
    | cons other taken =>
      obtain ⟨rfl, _⟩ := List.cons.inj first
      exact absurd (same ▸ List.mem_cons_self) (inert.unkeyed.phrases phrase known)
  | closed lower upper later =>
    obtain ⟨_, rfl⟩ := List.cons.inj first
    exact absurd rfl inert.apart
  | @listed words shown taken spelled parameter value known read offered later ih =>
    cases taken with
    | nil =>
      have blank : spelled = [] := by
        by_contra nonempty
        refine flatMap_fold_ne_nil (solid_of_mem_forms offered) nonempty ?_
        rw [(mem_forms offered).1, ← (mem_forms read).1, List.flatMap_nil]
      rw [blank, List.nil_append, ih first]
    | cons other taken =>
      obtain ⟨rfl, _⟩ := List.cons.inj first
      exact absurd rfl (inert.unlisted parameter known _ read)

/-- The words behind a parameter and an operator, wherever these stand. -/
def operands (catalog : Catalog) (words : List String) : List (ParameterDef × String × List String) :=
  words.tails.flatMap fun tail => catalog.parameters.flatMap fun parameter => catalog.operators.filterMap fun symbol =>
    let opening := PhraseTrie.key parameter.name ++ PhraseTrie.key symbol
    if opening.isPrefixOf (tail.map lowercase) then some (parameter, symbol, tail.drop opening.length) else none

theorem mem_operands {parameter : ParameterDef} {symbol : String} {rest : List String}
    (operand : Operand catalog words parameter symbol rest) : (parameter, symbol, rest) ∈ operands catalog words := by
  obtain ⟨known, listed, before, name, sign, rfl, named, spoken⟩ := operand
  have opening : PhraseTrie.key parameter.name ++ PhraseTrie.key symbol = (name ++ sign).map lowercase := by
    rw [List.map_append, named, spoken]
  refine List.mem_flatMap.mpr ⟨name ++ sign ++ rest, ?_, ?_⟩
  · rw [List.mem_tails, List.append_assoc before, List.append_assoc before]
    exact List.suffix_append before _
  refine List.mem_flatMap.mpr ⟨parameter, known, List.mem_filterMap.mpr ⟨symbol, listed, ?_⟩⟩
  dsimp only
  rw [opening, if_pos (by simp), List.length_map, List.drop_left]

instance (catalog : Catalog) (word : String) : Decidable (Unkeyed catalog word) :=
  decidable_of_iff
    ((∀ parameter ∈ catalog.parameters, lowercase word ∉ PhraseTrie.key parameter.name) ∧
      ∀ phrase ∈ catalog.phraseList, lowercase word ∉ PhraseTrie.key phrase.text)
    ⟨fun ⟨names, phrases⟩ => ⟨names, phrases⟩, fun unkeyed => ⟨unkeyed.names, unkeyed.phrases⟩⟩

instance (catalog : Catalog) (parameter : ParameterDef) (taken : List String) (value : String) :
    Decidable (Steady catalog parameter taken value) :=
  decidable_of_iff
    ((∀ other ∈ catalog.findParameter? value, other.name = value) ∧
      ∀ form ∈ forms catalog parameter.token, form.2 = value → form.1 ≠ taken → ∀ word ∈ form.1.head?,
        ∀ phrase ∈ catalog.phraseList, lowercase word ∉ PhraseTrie.key phrase.text)
    ⟨fun ⟨named, unspoken⟩ => ⟨named, fun spelled member => unspoken (spelled, value) member rfl⟩,
      fun steady => ⟨steady.named, fun ⟨spelled, _⟩ member same => steady.unspoken spelled (same ▸ member)⟩⟩

instance (catalog : Catalog) (word : String) (rest : List String) : Decidable (Inert catalog word rest) :=
  decidable_of_iff
    (Unkeyed catalog word ∧
      (∀ parameter ∈ catalog.parameters, ∀ form ∈ forms catalog parameter.token, form.1.head? ≠ some word) ∧
      rest.head? ≠ some "-")
    ⟨fun ⟨unkeyed, unlisted, apart⟩ => ⟨unkeyed, unlisted, apart⟩,
      fun inert => ⟨inert.unkeyed, inert.unlisted, inert.apart⟩⟩

/-- It holds wherever shards are spelled as the key. These are as many as the key has words. -/
def HoldsAt (spell : List Shard → List String) (holds : List Shard → Prop) (held : List Shard) (key : List String) :
    Prop :=
  ∀ tail ∈ held.tails, spell (tail.take key.length) = key → holds (tail.take key.length)

instance (spell : List Shard → List String) (holds : List Shard → Prop) [DecidablePred holds] (held : List Shard)
    (key : List String) : Decidable (HoldsAt spell holds held key) :=
  inferInstanceAs (Decidable (∀ tail ∈ held.tails, _))

theorem holdsAt_iff {spell : List Shard → List String} {holds : List Shard → Prop} {held : List Shard}
    {key : List String} (length : ∀ found, (spell found).length = found.length) :
    HoldsAt spell holds held key ↔ ∀ found, found <:+: held → spell found = key → holds found := by
  constructor
  · rintro tails found ⟨before, after, rfl⟩ same
    have count : key.length = found.length := same ▸ length found
    have first : (found ++ after).take key.length = found := by rw [count, List.take_left]
    have holds := tails (found ++ after) ((List.mem_tails _ _).mpr ⟨before, by simp⟩)
    rw [first] at holds
    exact holds same
  · intro everywhere tail member
    exact everywhere _ ((List.take_prefix _ _).isInfix.trans ((List.mem_tails _ _).mp member).isInfix)

instance (found : List Shard) : Decidable (Entire found) := inferInstanceAs (Decidable (∀ shard ∈ found, _))

instance (catalog : Catalog) (held : List Shard) : Decidable (Intact catalog held) :=
  let texts (found : List Shard) := found.map Shard.text
  let keys (found : List Shard) := (texts found).map lowercase
  have textsLength found : (texts found).length = found.length := by simp [texts]
  have keysLength found : (keys found).length = found.length := by simp [keys, textsLength]
  decidable_of_iff
    ((∀ symbol ∈ catalog.operators, HoldsAt keys Entire held (PhraseTrie.key symbol)) ∧
      (∀ parameter ∈ catalog.parameters,
        HoldsAt keys (fun found => (∀ word ∈ texts found, isLogicalWord word.toList = false) → Entire found) held
          (PhraseTrie.key parameter.name)) ∧
      ∀ parameter ∈ catalog.parameters, ∀ form ∈ forms catalog parameter.token, HoldsAt texts Entire held form.1)
    (by
      simp only [holdsAt_iff keysLength, holdsAt_iff textsLength]
      exact ⟨fun ⟨operators, names, factors⟩ => ⟨operators, names, factors⟩,
        fun intact => ⟨intact.operators, intact.names, intact.factors⟩⟩)

instance (catalog : Catalog) (passed : List Token) (step : Step) (later : List Step) :
    Decidable (Parting catalog passed step later) :=
  decidable_of_iff
    ((∀ tail ∈ (step.2.flatMap parts).tails, tail.head?.any (isLogicalWord ·.toList) = true →
        ∀ found ∈ catalog.matchParameter? (untilLogical tail.tail),
          catalog.findParameter? (normalizeFactor (unwords tail.tail)) = some found.2 ∧
            startsWithOperator (later.flatMap Prod.fst) = true) ∧
      stepsFrom catalog ((recognizedStep catalog step).reverse ++ passed) 0 (later.flatMap Prod.snd) = later)
    ⟨fun ⟨names, behind⟩ => ⟨fun operator back within logical count parameter matched =>
        names (operator :: back) ((List.mem_tails _ _).mpr within) logical (count, parameter) matched, behind⟩,
      fun parting => ⟨fun tail member logical found matched => by
        cases tail with
        | nil => cases logical
        | cons operator back =>
          exact parting.names operator back ((List.mem_tails _ _).mp member) logical found.1 found.2 matched,
        parting.behind⟩⟩

theorem partings_cons {step : Step} {later : List Step} {passed : List Token} :
    Partings catalog passed (step :: later) ↔ (step.1.length ≠ 1 → Parting catalog passed step later) ∧
      Partings catalog ((recognizedStep catalog step).reverse ++ passed) later := by
  refine ⟨Partings.of_cons, ?_⟩
  rintro ⟨first, rest⟩ before other behind same several
  cases before with
  | nil =>
    obtain ⟨rfl, rfl⟩ := List.cons.inj same
    exact first several
  | cons earlier before =>
    obtain ⟨rfl, same'⟩ := List.cons.inj same
    rw [List.flatMap_cons, List.reverse_append, List.append_assoc]
    exact rest before other behind same' several

instance decidablePartings (catalog : Catalog) :
    (passed : List Token) → (steps : List Step) → Decidable (Partings catalog passed steps)
  | _, [] => isTrue fun _ _ _ same => absurd same.symm (List.append_ne_nil_of_right_ne_nil _ (List.cons_ne_nil _ _))
  | passed, step :: later =>
    have := decidablePartings catalog ((recognizedStep catalog step).reverse ++ passed) later
    decidable_of_iff _ partings_cons.symm

instance (catalog : Catalog) (words : List String) : Decidable (Divisible catalog words) :=
  decidable_of_iff
    (Intact catalog ((steps catalog words).flatMap dividedStep) ∧ Partings catalog [] (steps catalog words))
    ⟨fun ⟨intact, partings⟩ => ⟨intact, partings⟩, fun divisible => ⟨divisible.intact, divisible.partings⟩⟩

/-- Words are settled if nothing in them looks otherwise. -/
theorem settled_of_operands (solid : ∀ word ∈ words, IsWord word)
    (ranges : ∀ tail ∈ words.tails, tail[1]? = some "-" → ∀ lower ∈ tail[0]?, ∀ upper ∈ tail[2]?,
      Unkeyed catalog (lower ++ "-" ++ upper))
    (factors : ∀ operand ∈ operands catalog words, ∀ form ∈ forms catalog operand.1.token, form.1 ≠ [] →
      form.1.flatMap fold <+: operand.2.2.flatMap fold →
      (∀ first ∈ operand.2.2.head?, Inert catalog first operand.2.2.tail → form.1.head? = some first) →
        (catalogFactor? catalog [.operator operand.2.1, operand.1.token] operand.2.2).any fun found =>
          form.2 = found.2 ∨ (fold form.2).length < (fold found.2).length)
    (steady : ∀ operand ∈ operands catalog words,
      ∀ found ∈ catalogFactor? catalog [.operator operand.2.1, operand.1.token] operand.2.2,
        Steady catalog operand.1 (operand.2.2.take found.1) found.2) : Settled catalog words where
  ranges := by
    rintro lower upper ⟨before, after, split⟩
    have tail : [lower, "-", upper] ++ after <:+ words := ⟨before, by rw [← split, List.append_assoc]⟩
    exact ranges _ ((List.mem_tails _ _).mpr tail) rfl lower rfl upper rfl
  factors := by
    intro parameter symbol rest operand form offered nonempty resembles
    have solidRest : ∀ word ∈ rest, IsWord word := by
      obtain ⟨_, _, before, name, sign, rfl, _⟩ := operand
      exact fun word member => solid word (List.mem_append_right _ member)
    have first (word : String) (here : rest.head? = some word) (inert : Inert catalog word rest.tail) :
        form.1.head? = some word := by
      obtain ⟨shown, respelled, more, rfl⟩ := resembles
      rw [← respelled.head (List.eq_cons_of_mem_head? here) inert, List.head?_append_of_ne_nil _ nonempty]
    have found := factors _ (mem_operands operand) form offered nonempty (resembles.begins solidRest) first
    obtain ⟨⟨count, value⟩, read, closest⟩ := Option.any_eq_true _ _ |>.mp found
    exact ⟨count, value, read, of_decide_eq_true closest⟩
  steady := fun parameter symbol rest operand count value found =>
    steady _ (mem_operands operand) (count, value) found

end Criteria.Reading
