import Criteria.Proofs.ReadingSteps
import Criteria.Proofs.ShownWords
import Criteria.Proofs.TypedRanges
/-!
The order of the tokens in a first reading. Runs are brought into normal form when they are read, and what stands behind
a run is neither a factor nor a parameter. Behind a name or a listed factor there is at most a run, and it stands right
behind that name or factor in the text.
-/

namespace Criteria

open Text

namespace Text

theorem exists_last_word (cs : List Char) :
    ∃ earlier last, cs = earlier ++ last ∧ (∀ c ∈ last, isBlank c = false) ∧
      ∀ rest, splitBlank (earlier ++ rest) = splitBlank earlier ++ splitBlank rest := by
  induction cs using List.reverseRecOn with
  | nil => exact ⟨[], [], rfl, by simp, fun rest => by rw [splitBlank_nil]; rfl⟩
  | append_singleton cs c ih =>
    cases blank : isBlank c with
    | true =>
      refine ⟨cs ++ [c], [], (List.append_nil _).symm, by simp, fun rest => ?_⟩
      rw [List.append_assoc, List.singleton_append, splitBlank_append_blank blank, splitBlank_append_blank blank,
        splitBlank_nil, List.append_nil]
    | false =>
      obtain ⟨earlier, last, rfl, solid, ended⟩ := ih
      refine ⟨earlier, last ++ [c], List.append_assoc .., ?_, ended⟩
      exact List.forall_mem_append.mpr ⟨solid, List.forall_mem_singleton.mpr blank⟩

theorem splitBlank_append (front back : List Char) :
    (splitBlank front).dropLast <+: splitBlank (front ++ back) ∧
      (splitBlank front).length ≤ (splitBlank (front ++ back)).length := by
  obtain ⟨earlier, last, rfl, solid, ended⟩ := exists_last_word front
  rw [List.append_assoc, ended, ended]
  cases last with
  | nil =>
    rw [splitBlank_nil, List.append_nil]
    exact ⟨(List.dropLast_prefix _).trans (List.prefix_append _ _), by simp⟩
  | cons c last =>
    have occupied : splitBlank (c :: last ++ back) ≠ [] := by
      intro empty
      have kept := flatten_splitBlank (c :: last ++ back)
      rw [empty] at kept
      simp [solid c List.mem_cons_self] at kept
    have more := List.length_pos_iff.mpr occupied
    rw [splitBlank_of_solid (List.cons_ne_nil _ _) solid, List.dropLast_concat]
    refine ⟨List.prefix_append _ _, ?_⟩
    rw [List.length_append, List.length_append, List.length_singleton]
    omega

end Text

namespace Reading

open Grammar

variable {catalog : Catalog}

theorem normalizeFactor_collapse (text : String) : normalizeFactor (collapse text) = normalizeFactor text := by
  have solid : ∀ word ∈ words text, IsWord word := fun _ => isWord_of_mem_words
  simp only [normalizeFactor, collapse, unwords_of_solid solid]

/-- The normal form keeps the words or closes them up to one. -/
theorem words_normalizeFactor (text : String) :
    words (normalizeFactor text) = words text ∧ normalizeFactor text = collapse text ∨
      IsWord (normalizeFactor text) := by
  have solid : ∀ word ∈ words text, IsWord word := fun _ => isWord_of_mem_words
  rw [← normalizeFactor_collapse]
  rcases normalizeFactor_unwords solid with same | ⟨lower, upper, shape, closed⟩
  · exact .inl ⟨by rw [collapse, same, unwords_of_solid solid], same⟩
  · right
    rw [collapse, closed]
    exact (solid lower (by simp [shape])).hyphen (solid upper (by simp [shape]))

theorem normalizeFactor_normal (text : String) : normalizeFactor (normalizeFactor text) = normalizeFactor text := by
  rcases words_normalizeFactor text with ⟨_, same⟩ | solid
  · rw [same, normalizeFactor_collapse, same]
  · exact normalizeFactor_of_isWord solid

/-- The text is read from a beginning of the words. -/
structure Opens (text : String) (run : List String) : Prop where
  nonempty : words text ≠ []
  begins : (words text).dropLast <+: run
  short : (words text).length ≤ run.length

theorem opens_normalizeFactor {front back : List Char} (nonblank : words (String.ofList front) ≠ []) :
    Opens (normalizeFactor (String.ofList front)) (words (String.ofList (front ++ back))) := by
  have pieces := splitBlank_append front back
  have begins : (words (String.ofList front)).dropLast <+: words (String.ofList (front ++ back)) := by
    simp only [words, String.toList_ofList, ← List.map_dropLast]
    exact pieces.1.map _
  have short : (words (String.ofList front)).length ≤ (words (String.ofList (front ++ back))).length := by
    simp only [words, String.toList_ofList, List.length_map]
    exact pieces.2
  have occupied := List.length_pos_iff.mpr nonblank
  rcases words_normalizeFactor (String.ofList front) with ⟨same, _⟩ | solid
  · constructor <;> rw [same]
    · exact nonblank
    · exact begins
    · exact short
  · constructor <;> rw [words_of_isWord solid]
    · exact List.cons_ne_nil _ _
    · exact List.nil_prefix
    · exact occupied.trans_le short

variable {words taken remaining : List String} {passed tokens rest : List Token} {value : String}

theorem cutBlocks_factor {pending : List Char} {pieces : List (List Char)}
    (cut : cutBlocks pending pieces = .factor value :: rest) :
    ∃ front back, pending ++ pieces.flatten = front ++ back ∧ Text.words (String.ofList front) ≠ [] ∧
      value = normalizeFactor (String.ofList front) := by
  induction pieces generalizing pending with
  | nil =>
    rw [cutBlocks] at cut
    rcases factorPart_cases pending with nothing | ⟨nonblank, one⟩
    · rw [nothing] at cut
      cases cut
    · rw [one] at cut
      exact ⟨pending, [], rfl, nonblank, (Token.factor.inj (List.cons.inj cut).1).symm⟩
  | cons block pieces ih =>
    rw [cutBlocks] at cut
    split at cut
    · rcases factorPart_cases pending with nothing | ⟨nonblank, one⟩
      · rw [nothing] at cut
        cases cut
      · rw [one] at cut
        exact ⟨pending, _, rfl, nonblank, (Token.factor.inj (List.cons.inj cut).1).symm⟩
    · obtain ⟨front, back, whole, found⟩ := ih cut
      exact ⟨front, back, by rw [← whole, List.append_assoc, List.flatten_cons], found⟩

theorem runTokens_factor (solid : ∀ word ∈ taken, IsWord word) (nonempty : taken ≠ [])
    (read : runTokens catalog passed (unwords taken) = .factor value :: rest) :
    normalizeFactor value = value ∧ Opens value taken := by
  obtain ⟨front, back, whole, nonblank, rfl⟩ : ∃ front back, (unwords taken).toList = front ++ back ∧
      Text.words (String.ofList front) ≠ [] ∧ value = normalizeFactor (String.ofList front) := by
    simp only [runTokens] at read
    split at read
    · refine ⟨(unwords taken).toList, [], (List.append_nil _).symm, ?_, ?_⟩
      · rwa [String.ofList_toList, unwords_of_solid solid]
      · rw [String.ofList_toList]
        exact (Token.factor.inj (List.cons.inj read).1).symm
    · have cut := cutBlocks_factor read
      rwa [List.nil_append, blocks, List.flatten_splitBy] at cut
  have opens := @opens_normalizeFactor front back nonblank
  rw [← whole, String.ofList_toList, unwords_of_solid solid] at opens
  exact ⟨normalizeFactor_normal _, opens⟩

/-- A name or a listed factor as these words spell it. -/
inductive Head (catalog : Catalog) (taken : List String) : String → Prop
  | name {parameter : ParameterDef} (nonempty : taken ≠ []) (known : parameter ∈ catalog.parameters)
      (same : taken.map lowercase = PhraseTrie.key parameter.name) : Head catalog taken parameter.name
  | listed {parameter : ParameterDef} {value : String} (nonempty : taken ≠ [])
      (known : parameter ∈ catalog.parameters) (read : (taken, value) ∈ forms catalog parameter.token) :
      Head catalog taken value

/-- What a token stands behind, as far as the reading of a factor depends on it. -/
inductive Place where
  | elsewhere
  | subject (parameter : Token)
  | operand (subject : Option Token)

def Place.next : Place → Token → Place
  | _, .parameter name id => .subject (.parameter name id)
  | .subject parameter, .operator _ => .operand (some parameter)
  | _, .operator _ => .operand none
  | _, _ => .elsewhere

/-- The tokens already passed come last first. -/
def placeOf : List Token → Place
  | [] => .elsewhere
  | token :: earlier => (placeOf earlier).next token

/-- Neither a factor nor a parameter, so it stays what it is and keeps its neighbours apart. -/
def Apart (token : Token) : Prop := token.kind ≠ .factor ∧ token.kind ≠ .parameter

theorem apart_phrase (phrase : Phrase) : Apart phrase.token := by
  cases phrase <;> simp [Apart, Phrase.token, Token.logical, Token.kind]

theorem apart_logical (symbol : String) : Apart (.logical symbol) := by simp [Apart, Token.logical, Token.kind]

/-- If a factor is read next then it is a run, which opens the words behind those that were taken. -/
def Follows (total taken : List String) (tokens : List Token) : Prop :=
  ∀ value later, tokens = .factor value :: later →
    normalizeFactor value = value ∧ ∃ run, taken ++ run <:+: total ∧ Opens value run

/-- The order in which the tokens of a first reading stand. Behind a run there is neither a factor nor a parameter, and
behind a name or a listed factor there is at most a run. -/
inductive Laid (catalog : Catalog) (total : List String) : Place → List Token → Prop
  | nil (place : Place) : Laid catalog total place []
  | sign {place : Place} {token : Token} {tokens : List Token} (apart : Apart token)
      (later : Laid catalog total (place.next token) tokens) : Laid catalog total place (token :: tokens)
  | name {place : Place} {parameter : ParameterDef} {taken : List String} {tokens : List Token}
      (known : parameter ∈ catalog.parameters) (head : Head catalog taken parameter.name)
      (follows : Follows total taken tokens) (later : Laid catalog total (.subject parameter.token) tokens) :
      Laid catalog total place (parameter.token :: tokens)
  | listed {parameter : ParameterDef} {taken : List String} {value : String} {tokens : List Token}
      (known : parameter ∈ catalog.parameters) (nonempty : taken ≠ [])
      (read : (taken, value) ∈ forms catalog parameter.token) (follows : Follows total taken tokens)
      (later : Laid catalog total .elsewhere tokens) :
      Laid catalog total (.operand (some parameter.token)) (.factor value :: tokens)
  | run {place : Place} {value : String} {tokens : List Token} (normal : normalizeFactor value = value)
      (apart : ∀ token ∈ tokens.head?, Apart token) (later : Laid catalog total .elsewhere tokens) :
      Laid catalog total place (.factor value :: tokens)

theorem runTokens_ne_nil (solid : ∀ word ∈ taken, IsWord word) (nonempty : taken ≠ []) (passed : List Token) :
    runTokens catalog passed (unwords taken) ≠ [] := by
  intro nothing
  have folded := @foldTokens_runTokens catalog passed (unwords taken)
  rw [nothing, fold_unwords] at folded
  exact flatMap_fold_ne_nil solid nonempty folded.symm

theorem Stretch.opens {piece : List Token} (stretch : Stretch catalog passed remaining taken piece)
    (solid : ∀ word ∈ taken, IsWord word) (shape : piece ++ tokens = .factor value :: rest) :
    normalizeFactor value = value ∧ Opens value taken := by
  cases stretch with
  | paren listed =>
    simp only [List.mem_cons, Prod.mk.injEq, List.not_mem_nil, or_false] at listed
    rcases listed with ⟨_, rfl⟩ | ⟨_, rfl⟩ <;> cases shape
  | @phrase _ _ phrase => cases phrase <;> cases shape
  | name => cases shape
  | run nonempty =>
    obtain ⟨first, later, read⟩ := List.exists_cons_of_ne_nil (@runTokens_ne_nil catalog _ solid nonempty passed)
    rw [read] at shape
    rw [(List.cons.inj shape).1] at read
    exact runTokens_factor solid nonempty read

theorem Scanned.follows {total consumed : List String} (scanned : Scanned catalog passed remaining tokens)
    (apart : ∀ symbol earlier, passed ≠ .operator symbol :: earlier) (solid : ∀ word ∈ remaining, IsWord word)
    (split : total = consumed ++ taken ++ remaining) : Follows total taken tokens := by
  intro value later shape
  cases scanned with
  | nil => cases shape
  | listed found =>
    rw [catalogFactor?_of_apart _ apart] at found
    cases found
  | @stretch _ piece _ front back _ stretch =>
    obtain ⟨normal, opens⟩ := stretch.opens (fun word member => solid word (List.mem_append_left _ member)) shape
    exact ⟨normal, front, ⟨consumed, back, by rw [split]; simp only [List.append_assoc]⟩, opens⟩

theorem Scanned.apart_of_boundary (scanned : Scanned catalog passed remaining tokens)
    (apart : ∀ symbol earlier, passed ≠ .operator symbol :: earlier) (stop : isBoundary catalog remaining = true) :
    ∀ token ∈ tokens.head?, Apart token := by
  intro token first
  cases scanned with
  | nil => cases first
  | listed found =>
    rw [catalogFactor?_of_apart _ apart] at found
    cases found
  | @stretch _ _ _ front back _ stretch =>
    have interior (unbroken : Unbroken catalog front back) (nonempty : front ≠ []) :
        isBoundary catalog (front ++ back) = false :=
      unbroken front (List.suffix_refl _) nonempty
    cases stretch with
    | paren listed =>
      simp only [List.mem_cons, Prod.mk.injEq, List.not_mem_nil, or_false] at listed
      obtain rfl := Option.some.inj first
      rcases listed with ⟨_, rfl⟩ | ⟨_, rfl⟩ <;> exact ⟨by decide, by decide⟩
    | @phrase _ _ phrase => exact Option.some.inj first ▸ apart_phrase phrase
    | name nonempty unbroken =>
      rw [interior unbroken nonempty] at stop
      cases stop
    | run nonempty unbroken =>
      rw [interior unbroken nonempty] at stop
      cases stop

variable {total : List String} {place : Place}

theorem laid_factorPart {part : List Char} (apart : ∀ token ∈ tokens.head?, Apart token)
    (later : Laid catalog total .elsewhere tokens) (same : Laid catalog total place tokens) :
    Laid catalog total place (factorPart part ++ tokens) := by
  rcases factorPart_cases part with nothing | ⟨_, one⟩
  · rwa [nothing]
  · rw [one]
    exact .run (normalizeFactor_normal _) apart later

/-- A run that is cut stands as factors between logical operators. -/
theorem laid_cutBlocks (apart : ∀ token ∈ tokens.head?, Apart token) (later : Laid catalog total .elsewhere tokens)
    (pending : List Char) (pieces : List (List Char)) (place : Place)
    (occupied : cutBlocks pending pieces = [] → place = .elsewhere) :
    Laid catalog total place (cutBlocks pending pieces ++ tokens) := by
  induction pieces generalizing pending place with
  | nil =>
    rw [cutBlocks] at occupied ⊢
    rcases factorPart_cases pending with nothing | ⟨_, one⟩
    · rw [nothing]
      exact occupied nothing ▸ later
    · rw [one]
      exact .run (normalizeFactor_normal _) apart later
  | cons block pieces ih =>
    rw [cutBlocks] at occupied ⊢
    split
    next =>
      have behind := ih [] .elsewhere fun _ => rfl
      have logical (place : Place) : Laid catalog total place
          (.logical (String.ofList block) :: (cutBlocks [] pieces ++ tokens)) :=
        .sign (apart_logical _) (by cases place <;> exact behind)
      rw [List.append_assoc, List.cons_append]
      exact laid_factorPart (by simpa using apart_logical _) (logical .elsewhere) (logical place)
    next plain =>
      rw [if_neg plain] at occupied
      exact ih _ _ occupied

theorem laid_runTokens (apart : ∀ token ∈ tokens.head?, Apart token) (later : Laid catalog total .elsewhere tokens)
    (solid : ∀ word ∈ taken, IsWord word) (nonempty : taken ≠ []) (place : Place) :
    Laid catalog total place (runTokens catalog passed (unwords taken) ++ tokens) := by
  have occupied := @runTokens_ne_nil catalog _ solid nonempty passed
  simp only [runTokens] at occupied ⊢
  split
  next => exact .run (normalizeFactor_normal _) apart later
  next unknown =>
    rw [if_neg unknown] at occupied
    exact laid_cutBlocks apart later _ _ _ fun nothing => absurd nothing occupied

theorem kind_of_mem_cutBlocks {pending : List Char} {pieces : List (List Char)} {token : Token}
    (member : token ∈ cutBlocks pending pieces) : token.kind = .factor ∨ token.kind = .logicalOperator := by
  have part {part : List Char} (member : token ∈ factorPart part) : token.kind = .factor := by
    rcases factorPart_cases part with nothing | ⟨_, one⟩
    · rw [nothing] at member
      cases member
    · rw [one] at member
      rw [List.mem_singleton.mp member, Token.kind]
  induction pieces generalizing pending with
  | nil => exact .inl (part member)
  | cons block pieces ih =>
    rw [cutBlocks] at member
    split at member
    · rcases List.mem_append.mp member with inside | inside
      · exact .inl (part inside)
      · rcases List.mem_cons.mp inside with rfl | later
        · exact .inr rfl
        · exact ih later
    · exact ih member

theorem kind_of_mem_runTokens {run : String} {token : Token} (member : token ∈ runTokens catalog passed run) :
    token.kind = .factor ∨ token.kind = .logicalOperator := by
  simp only [runTokens] at member
  split at member
  · rw [List.mem_singleton.mp member]
    exact .inl rfl
  · exact kind_of_mem_cutBlocks member

theorem Place.next_of_run {token : Token} (kind : token.kind = .factor ∨ token.kind = .logicalOperator) :
    place.next token = .elsewhere := by
  cases token with
  | factor | logicalOperator => cases place <;> rfl
  | parameter | operator | openParen | closeParen | unknown => simp [Token.kind] at kind

def Known (catalog : Catalog) (passed : List Token) : Prop :=
  ∀ token ∈ passed, token.isParameter = true → ∃ parameter ∈ catalog.parameters, token = parameter.token

theorem Known.append {piece : List Token} (known : Known catalog passed)
    (listed : ∀ token ∈ piece, token.isParameter = true → ∃ parameter ∈ catalog.parameters, token = parameter.token) :
    Known catalog (piece.reverse ++ passed) := by
  intro token inside
  rcases List.mem_append.mp inside with here | before
  · exact listed token (List.mem_reverse.mp here)
  · exact known token before

theorem Known.push {piece : List Token} (known : Known catalog passed)
    (others : ∀ token ∈ piece, token.isParameter = false) : Known catalog (piece.reverse ++ passed) := by
  refine known.append fun token inside isParameter => ?_
  rw [others token inside] at isParameter
  cases isParameter

theorem isParameter_of_kind {token : Token} (kind : token.kind = .factor ∨ token.kind = .logicalOperator) :
    token.isParameter = false := by
  rw [Bool.eq_false_iff, ne_eq, Token.isParameter_eq_true_iff]
  rcases kind with kind | kind <;> simp [kind]

theorem Known.reads (indexed : catalog.Indexed) {piece : List Token} (known : Known catalog passed)
    (reads : Reads catalog passed remaining taken piece) : Known catalog (piece.reverse ++ passed) := by
  cases reads with
  | listed => exact known.push (by simp [Token.isParameter])
  | stretch _ stretch =>
    cases stretch with
    | paren listed =>
      simp only [List.mem_cons, Prod.mk.injEq, List.not_mem_nil, or_false] at listed
      rcases listed with ⟨_, rfl⟩ | ⟨_, rfl⟩ <;> exact known.push (by simp [Token.isParameter])
    | @phrase _ _ phrase => exact known.push (by cases phrase <;> simp [Phrase.token, Token.logical, Token.isParameter])
    | @name _ parameter _ _ matched =>
      exact known.append fun token member _ =>
        ⟨parameter, (indexed.of_matchParameter? matched).1, List.mem_singleton.mp member⟩
    | run => exact known.push fun token member => isParameter_of_kind (kind_of_mem_runTokens member)

theorem laid_scanned (indexed : catalog.Indexed) {consumed : List String}
    (scanned : Scanned catalog passed words tokens) (split : total = consumed ++ words)
    (solid : ∀ word ∈ words, IsWord word) (known : Known catalog passed) :
    Laid catalog total (placeOf passed) tokens := by
  induction scanned generalizing consumed with
  | nil => exact .nil _
  | @listed passed tokens taken remaining value found later ih =>
    obtain ⟨symbol, subject, earlier, rfl, isParameter, member, positive, _⟩ := catalogFactor?_shape found
    obtain ⟨parameter, listed, rfl⟩ := known subject (by simp) isParameter
    rw [List.take_left] at member
    obtain ⟨_, rest⟩ := List.forall_mem_append.mp solid
    have follows : Follows total taken tokens :=
      later.follows (fun _ _ same => by cases same) rest (by rw [split, List.append_assoc])
    have behind := ih (by rw [split, List.append_assoc]) rest (known.reads indexed (.listed found))
    exact .listed listed (List.length_pos_iff.mp positive) member follows behind
  | @stretch passed piece tokens taken remaining unclaimed stretch later ih =>
    obtain ⟨first, rest⟩ := List.forall_mem_append.mp solid
    have behind := ih (by rw [split, List.append_assoc]) rest (known.reads indexed (.stretch unclaimed stretch))
    cases stretch with
    | paren listed =>
      simp only [List.mem_cons, Prod.mk.injEq, List.not_mem_nil, or_false] at listed
      rcases listed with ⟨_, rfl⟩ | ⟨_, rfl⟩ <;> exact .sign ⟨by decide, by decide⟩ behind
    | @phrase _ _ phrase => exact .sign (apart_phrase phrase) behind
    | @name _ parameter nonempty unbroken matched =>
      obtain ⟨listed, _, _, place⟩ := indexed.of_matchParameter? matched
      rw [List.take_left] at place
      have follows : Follows total taken tokens :=
        later.follows (fun _ _ same => by cases same) rest (by rw [split, List.append_assoc])
      exact .name listed (.name nonempty listed place) follows behind
    | run nonempty _ stop =>
      have kinds (token : Token) (member : token ∈ runTokens catalog passed (unwords taken)) :=
        kind_of_mem_runTokens member
      obtain ⟨last, front, shape⟩ := List.exists_cons_of_ne_nil
        (List.reverse_ne_nil_iff.mpr (@runTokens_ne_nil catalog _ first nonempty passed))
      have lastKind := kinds last (List.mem_reverse.mp (shape ▸ List.mem_cons_self))
      rw [shape, List.cons_append] at behind later
      rw [placeOf, Place.next_of_run lastKind] at behind
      have apart := later.apart_of_boundary (fun symbol earlier same => by
        rw [(List.cons.inj same).1] at lastKind
        simp [Token.kind] at lastKind) stop
      exact laid_runTokens apart behind first nonempty _

end Reading

end Criteria
