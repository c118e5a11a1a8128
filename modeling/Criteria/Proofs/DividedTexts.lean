import Criteria.Proofs.LaidReading
import Criteria.Proofs.ShownReading
/-!
Divided texts. What reading cuts out of a word is displayed as a word of its own, so the text is read again with the
words of the runs that were cut divided into their parts. A text is divisible if the catalog takes no part for a piece
of anything; then dividing it makes no difference to what it is read as.
-/

namespace Criteria.Reading

open Text

/-- A word of a divided text. If it is `cut` it is only a part of a word of the text. -/
structure Shard where
  text : String
  cut : Bool

def wholes (words : List String) : List Shard := words.map (⟨·, false⟩)

def shards (word : String) : List Shard := (parts word).map (⟨·, decide (1 < (parts word).length)⟩)

def Entire (found : List Shard) : Prop := ∀ shard ∈ found, shard.cut = false

def untilLogical (words : List String) : List String := words.takeWhile fun word => !isLogicalWord word.toList

variable (catalog : Catalog)

/-- Where the shards are an operator, a name or a listed factor of the catalog, no part of a word is among them. A name
that is read has no AND or OR in it. -/
structure Intact (held : List Shard) : Prop where
  operators : ∀ symbol ∈ catalog.operators, ∀ found, found <:+: held →
    (found.map Shard.text).map lowercase = PhraseTrie.key symbol → Entire found
  names : ∀ parameter ∈ catalog.parameters, ∀ found, found <:+: held →
    (found.map Shard.text).map lowercase = PhraseTrie.key parameter.name →
      (∀ word ∈ found.map Shard.text, isLogicalWord word.toList = false) → Entire found
  factors : ∀ parameter ∈ catalog.parameters, ∀ form ∈ forms catalog parameter.token, ∀ found, found <:+: held →
    found.map Shard.text = form.1 → Entire found

/-- As words of their own, the words of a factor that is a name are read as the parameter. -/
def recognize : Token → Token
  | .factor value => ((catalog.findParameter? value).map ParameterDef.token).getD (.factor value)
  | token => token

def recognizedStep (step : Step) : List Token :=
  if step.1.length = 1 then step.1 else step.1.map (recognize catalog)

def dividedStep (step : Step) : List Shard := if step.1.length = 1 then wholes step.2 else step.2.flatMap shards

/-- The text in which each word of a run that is cut is written as the words that it is cut into. -/
def divided (text : String) : String :=
  unwords (((steps catalog (expressionWords text)).flatMap dividedStep).map Shard.text)

/-- Where a name begins behind AND or OR in a run that is cut, it is what stands up to an operator behind the run, and
what stands there is read the same behind the parameter. -/
structure Parting (passed : List Token) (step : Step) (later : List Step) : Prop where
  names : ∀ operator back, operator :: back <:+ step.2.flatMap parts → isLogicalWord operator.toList = true →
    ∀ count parameter, catalog.matchParameter? (untilLogical back) = some (count, parameter) →
      catalog.findParameter? (normalizeFactor (unwords back)) = some parameter ∧
        startsWithOperator (later.flatMap Prod.fst) = true
  behind : stepsFrom catalog ((recognizedStep catalog step).reverse ++ passed) 0 (later.flatMap Prod.snd) = later

/-- Every run that is cut can be divided, behind the tokens of the steps before it with names recognized. -/
def Partings (passed : List Token) (steps : List Step) : Prop :=
  ∀ before step later, steps = before ++ step :: later → step.1.length ≠ 1 →
    Parting catalog ((before.flatMap (recognizedStep catalog)).reverse ++ passed) step later

structure Divisible (words : List String) : Prop where
  intact : Intact catalog ((steps catalog words).flatMap dividedStep)
  partings : Partings catalog [] (steps catalog words)

/-- The words beside the shards that they are divided into. -/
inductive Parted : List String → List Shard → Prop
  | nil : Parted [] []
  | kept {words : List String} {held : List Shard} (word : String) (rest : Parted words held) :
      Parted (word :: words) (⟨word, false⟩ :: held)
  | cut {words : List String} {held pieces : List Shard} {word : String} (nonempty : pieces ≠ [])
      (cut : ∀ shard ∈ pieces, shard.cut = true) (rest : Parted words held) : Parted (word :: words) (pieces ++ held)

variable {catalog} {passed tokens recognized piece : List Token} {words taken remaining : List String}
  {held found : List Shard}

section Shards

@[simp] theorem text_wholes (words : List String) : (wholes words).map Shard.text = words := by
  simp [wholes, Function.comp_def]

@[simp] theorem text_shards (words : List String) : (words.flatMap shards).map Shard.text = words.flatMap parts := by
  simp [List.map_flatMap, shards, Function.comp_def]

theorem Intact.of_infix {less : List Shard} (intact : Intact catalog held) (within : less <:+: held) :
    Intact catalog less where
  operators := fun symbol listed found inside => intact.operators symbol listed found (inside.trans within)
  names := fun parameter listed found inside => intact.names parameter listed found (inside.trans within)
  factors := fun parameter listed form member found inside =>
    intact.factors parameter listed form member found (inside.trans within)

end Shards

section Parted

theorem Parted.append {more : List String} {others : List Shard} (first : Parted words held)
    (second : Parted more others) : Parted (words ++ more) (held ++ others) := by
  induction first with
  | nil => exact second
  | kept word rest ih => exact .kept word ih
  | cut nonempty cut rest ih =>
    rw [List.append_assoc]
    exact .cut nonempty cut ih

theorem parted_wholes (words : List String) : Parted words (wholes words) := by
  induction words with
  | nil => exact .nil
  | cons word words ih => exact .kept word ih

theorem shards_spec {word : String} (isWord : IsWord word) (plain : isLogicalWord word.toList = false) :
    shards word = [⟨word, false⟩] ∨ shards word ≠ [] ∧ ∀ shard ∈ shards word, shard.cut = true := by
  rcases parts_spec isWord plain with same | several
  · left
    simp [shards, same]
  · right
    exact ⟨by simpa [shards] using List.ne_nil_of_length_pos (by omega), by simp [shards, several]⟩

theorem parted_shards (solid : ∀ word ∈ taken, IsWord word)
    (plain : ∀ word ∈ taken, isLogicalWord word.toList = false) : Parted taken (taken.flatMap shards) := by
  induction taken with
  | nil => exact .nil
  | cons word taken ih =>
    rw [List.forall_mem_cons] at solid plain
    have later := ih solid.2 plain.2
    rw [List.flatMap_cons]
    rcases shards_spec solid.1 plain.1 with same | ⟨nonempty, cut⟩
    · rw [same]
      exact .kept word later
    · exact .cut nonempty cut later

/-- What has no parts in it and begins the shards begins the words. -/
theorem Parted.begins (divides : Parted words held) (entire : Entire found) (begins : found <+: held) :
    found.map Shard.text <+: words := by
  induction divides generalizing found with
  | nil =>
    rw [List.prefix_nil.mp begins]
    exact List.nil_prefix
  | kept word rest ih =>
    cases found with
    | nil => exact List.nil_prefix
    | cons first found =>
      obtain ⟨rfl, later⟩ := List.cons_prefix_cons.mp begins
      exact List.cons_prefix_cons.mpr ⟨rfl, ih (List.forall_mem_cons.mp entire).2 later⟩
  | @cut words held pieces word nonempty cut rest ih =>
    cases found with
    | nil => exact List.nil_prefix
    | cons first found =>
      obtain ⟨part, more, rfl⟩ := List.exists_cons_of_ne_nil nonempty
      obtain ⟨rfl, _⟩ := List.cons_prefix_cons.mp begins
      have whole := (List.forall_mem_cons.mp entire).1
      rw [(List.forall_mem_cons.mp cut).1] at whole
      cases whole

theorem Parted.phrase {word : String} (divides : Parted words held) (intact : Intact catalog (⟨word, false⟩ :: held))
    {phrase : Phrase} (member : phrase ∈ catalog.phraseList)
    (begins : PhraseTrie.key phrase.text <+: (word :: held.map Shard.text).map lowercase) :
    PhraseTrie.key phrase.text <+: (word :: words).map lowercase := by
  cases phrase with
  | operator symbol =>
    obtain ⟨spelled, inside, same⟩ := List.prefix_map_iff.mp begins
    obtain ⟨found, within, rfl⟩ : ∃ found, found <+: ⟨word, false⟩ :: held ∧ spelled = found.map Shard.text :=
      List.prefix_map_iff.mp inside
    have entire := intact.operators symbol (Catalog.operator_mem_phraseList.mp member) found within.isInfix same.symm
    rw [same]
    exact ((divides.kept word).begins entire within).map lowercase
  | logical symbol =>
    have single : ∀ symbol ∈ Catalog.logicalOperators, PhraseTrie.key symbol = [lowercase symbol] := by decide
    rw [Phrase.text, single symbol (Catalog.logical_mem_phraseList.mp member)] at begins ⊢
    exact List.cons_prefix_cons.mpr ⟨(List.cons_prefix_cons.mp begins).1, List.nil_prefix⟩

/-- No operator begins with a part. -/
theorem Intact.unmatched {shard : Shard} (intact : Intact catalog (shard :: held)) (cut : shard.cut = true)
    {symbol : String} (listed : symbol ∈ catalog.operators)
    (begins : PhraseTrie.key symbol <+: ((shard :: held).map Shard.text).map lowercase) :
    PhraseTrie.key symbol = [] := by
  obtain ⟨spelled, inside, same⟩ := List.prefix_map_iff.mp begins
  obtain ⟨found, within, rfl⟩ := List.prefix_map_iff.mp inside
  have entire := intact.operators symbol listed found within.isInfix same.symm
  cases found with
  | nil => exact same
  | cons first found =>
    obtain ⟨rfl, _⟩ := List.cons_prefix_cons.mp within
    rw [(List.forall_mem_cons.mp entire).1] at cut
    cases cut

theorem Parted.unbroken (indexed : catalog.Indexed) (divides : Parted remaining held)
    (intact : Intact catalog (wholes taken ++ held)) (unbroken : Unbroken catalog taken remaining) :
    Unbroken catalog taken (held.map Shard.text) := by
  intro suffix ends nonempty
  have before := unbroken suffix ends nonempty
  obtain ⟨word, rest, rfl⟩ := List.exists_cons_of_ne_nil nonempty
  have within : ⟨word, false⟩ :: (wholes rest ++ held) <:+ wholes taken ++ held := by
    obtain ⟨front, rfl⟩ := ends
    exact ⟨wholes front, by simp [wholes]⟩
  rw [List.cons_append] at before ⊢
  obtain ⟨notOpen, notClose, unmatched⟩ := isBoundary_eq_false.mp before
  refine isBoundary_eq_false.mpr ⟨notOpen, notClose, ?_⟩
  rw [Catalog.matchPhrase?, indexed.phrases.longestMatch_eq_none] at unmatched ⊢
  intro phrase member begins
  refine unmatched phrase member ?_
  refine ((parted_wholes rest).append divides).phrase (intact.of_infix within.isInfix) member ?_
  rwa [List.map_append, text_wholes]

theorem Parted.form (divides : Parted words held) (intact : Intact catalog held) {parameter : ParameterDef}
    (listed : parameter ∈ catalog.parameters) {form : List String × String}
    (member : form ∈ forms catalog parameter.token) (begins : form.1 <+: held.map Shard.text) : form.1 <+: words := by
  obtain ⟨found, within, same⟩ := List.prefix_map_iff.mp begins
  rw [same]
  exact divides.begins (intact.factors parameter listed form member found within.isInfix same.symm) within

theorem Parted.catalogFactor? (divides : Parted words held) (intact : Intact catalog held)
    (known : Known catalog passed) (kept : ∀ count value, catalogFactor? catalog passed words = some (count, value) →
      words.take count <+: held.map Shard.text) :
    catalogFactor? catalog passed (held.map Shard.text) = catalogFactor? catalog passed words := by
  by_cases operand : ∃ symbol subject earlier, passed = .operator symbol :: subject :: earlier ∧
      subject.isParameter = true
  · obtain ⟨symbol, subject, earlier, rfl, isParameter⟩ := operand
    obtain ⟨parameter, listed, rfl⟩ := known subject (by simp) isParameter
    exact catalogFactor?_of_fewer (fun form member => divides.form intact listed member) kept
  · have none (words : List String) : Reading.catalogFactor? catalog passed words = none := by
      rw [Option.eq_none_iff_forall_ne_some]
      rintro ⟨count, value⟩ found
      obtain ⟨symbol, subject, earlier, shape, isParameter, _⟩ := catalogFactor?_shape found
      exact operand ⟨symbol, subject, earlier, shape, isParameter⟩
    rw [none, none]

end Parted

/-- What stands between two logical operators of a run, or at its ends: a factor, or a name as a whole. -/
inductive Named (catalog : Catalog) (ends : Prop) (group : List String) : Prop
  | factor (unnamed : catalog.matchParameter? group = none)
      (unknown : catalog.findParameter? (normalizeFactor (unwords group)) = none)
  | name (parameter : ParameterDef) (matched : catalog.matchParameter? group = some (group.length, parameter))
      (known : catalog.findParameter? (normalizeFactor (unwords group)) = some parameter) (ends : ends)

/-- A run that is cut and can be divided. What `follows` stands behind a run that ends with a name. -/
structure CutRun (catalog : Catalog) (follows : Prop) (passed : List Token) (remaining taken : List String) : Prop where
  unclaimed : catalogFactor? catalog passed (taken ++ remaining) = none
  nonempty : taken ≠ []
  unbroken : Unbroken catalog taken remaining
  stop : isBoundary catalog remaining = true
  unnamed : catalog.matchParameter? taken = none
  names : ∀ operator back, operator :: back <:+ taken.flatMap parts → isLogicalWord operator.toList = true →
    ∀ count parameter, catalog.matchParameter? (untilLogical back) = some (count, parameter) →
      catalog.findParameter? (normalizeFactor (unwords back)) = some parameter ∧ follows

/-- The words are read as the tokens, and the shards as those with the names among the parts recognized. -/
inductive Division (catalog : Catalog) : List Token → List String → List Shard → List Token → List Token → Prop
  | nil (passed : List Token) : Division catalog passed [] [] [] []
  | whole {passed tokens recognized piece : List Token} {taken remaining : List String} {held : List Shard}
      (reads : Reads catalog passed remaining taken piece) (single : piece.length = 1)
      (later : Division catalog (piece.reverse ++ passed) remaining held tokens recognized) :
      Division catalog passed (taken ++ remaining) (wholes taken ++ held) (piece ++ tokens) (piece ++ recognized)
  | cut {passed tokens recognized : List Token} {taken remaining : List String} {held : List Shard}
      (run : CutRun catalog (startsWithOperator tokens = true) passed remaining taken)
      (later : Division catalog (((cutRun (unwords taken)).map (recognize catalog)).reverse ++ passed) remaining held
        tokens recognized) :
      Division catalog passed (taken ++ remaining) (taken.flatMap shards ++ held) (cutRun (unwords taken) ++ tokens)
        ((cutRun (unwords taken)).map (recognize catalog) ++ recognized)

theorem flatMap_steps (indexed : catalog.Indexed) {later : List Step}
    (read : stepsFrom catalog passed 0 words = later) : later.flatMap Prod.snd = words := by
  induction later generalizing passed words with
  | nil => exact (stepsFrom_eq_nil read).symm
  | cons step later ih =>
    obtain ⟨remaining, rfl, _, behind⟩ := stepsFrom_eq_cons indexed read
    rw [List.flatMap_cons, ih behind]

theorem Reads.cut (reads : Reads catalog passed remaining taken piece) (several : piece.length ≠ 1) :
    catalogFactor? catalog passed (taken ++ remaining) = none ∧ Unbroken catalog taken remaining ∧
      isBoundary catalog remaining = true ∧ catalog.matchParameter? taken = none ∧
      piece = cutRun (unwords taken) := by
  cases reads with
  | listed => exact absurd rfl several
  | stretch unclaimed stretch =>
    cases stretch with
    | paren | phrase | name => exact absurd rfl several
    | run _ unbroken stop unnamed =>
      refine ⟨unclaimed, unbroken, stop, unnamed, ?_⟩
      simp only [runTokens] at several ⊢
      split at several
      · exact absurd rfl several
      next unknown => rw [if_neg unknown]

theorem Partings.of_cons {step : Step} {later : List Step} (partings : Partings catalog passed (step :: later)) :
    (step.1.length ≠ 1 → Parting catalog passed step later) ∧
      Partings catalog ((recognizedStep catalog step).reverse ++ passed) later := by
  refine ⟨partings [] step later rfl, fun before other behind same several => ?_⟩
  have parting := partings (step :: before) other behind (by rw [same, List.cons_append]) several
  rwa [List.flatMap_cons, List.reverse_append, List.append_assoc] at parting

theorem division_of_partings (indexed : catalog.Indexed) {later : List Step}
    (read : stepsFrom catalog passed 0 words = later) (partings : Partings catalog passed later) :
    Division catalog passed words (later.flatMap dividedStep) (later.flatMap Prod.fst)
      (later.flatMap (recognizedStep catalog)) := by
  induction later generalizing passed words with
  | nil =>
    obtain rfl := stepsFrom_eq_nil read
    exact .nil passed
  | cons step later ih =>
    obtain ⟨piece, taken⟩ := step
    obtain ⟨parting, partings⟩ := partings.of_cons
    obtain ⟨remaining, rfl, reads, behind⟩ := stepsFrom_eq_cons indexed read
    simp only [List.flatMap_cons]
    dsimp only at reads behind
    by_cases single : piece.length = 1
    · simp only [recognizedStep, dividedStep, if_pos single] at partings ⊢
      exact .whole reads single (ih behind partings)
    · obtain ⟨unclaimed, unbroken, stop, unnamed, rfl⟩ := reads.cut single
      obtain ⟨names, follows⟩ := parting single
      rw [flatMap_steps indexed behind] at follows
      have division := ih follows partings
      simp only [recognizedStep, dividedStep, if_neg single] at division ⊢
      exact .cut ⟨unclaimed, reads.nonempty, unbroken, stop, unnamed, names⟩ division

theorem apart_of_kinds (nonempty : piece ≠ []) (kinds : ∀ token ∈ piece, token.kind ≠ .operator) :
    ∀ symbol earlier, piece.reverse ++ passed ≠ .operator symbol :: earlier := by
  intro symbol earlier same
  obtain ⟨last, before, shape⟩ := List.exists_cons_of_ne_nil (List.reverse_ne_nil_iff.mpr nonempty)
  rw [shape, List.cons_append] at same
  refine kinds last (List.mem_reverse.mp (shape ▸ List.mem_cons_self)) ?_
  rw [(List.cons.inj same).1]
  rfl

theorem Stretch.unbroken (stretch : Stretch catalog passed remaining taken piece)
    (inside : isBoundary catalog (taken ++ remaining) = false) :
    Unbroken catalog taken remaining ∧ ∀ token ∈ piece, token.kind ≠ .operator := by
  cases stretch with
  | paren listed =>
    simp only [List.mem_cons, Prod.mk.injEq, List.not_mem_nil, or_false] at listed
    rcases listed with ⟨rfl, rfl⟩ | ⟨rfl, rfl⟩ <;> cases inside
  | phrase _ _ matched =>
    rw [isBoundary_of_match (by rw [matched]; rfl)] at inside
    cases inside
  | name _ unbroken => exact ⟨unbroken, by simp [ParameterDef.token, Token.kind]⟩
  | run _ unbroken =>
    refine ⟨unbroken, fun token member => ?_⟩
    rcases kind_of_mem_runTokens member with kind | kind <;> simp [kind]

theorem cutRun_ne_nil (solid : ∀ word ∈ taken, IsWord word) (nonempty : taken ≠ []) :
    cutRun (unwords taken) ≠ [] := by
  intro nothing
  have folded := foldTokens_cutRun (unwords taken)
  rw [nothing, fold_unwords] at folded
  exact flatMap_fold_ne_nil solid nonempty folded.symm

theorem recognize_cases (catalog : Catalog) (token : Token) : recognize catalog token = token ∨
    ∃ value parameter, token = .factor value ∧ catalog.findParameter? value = some parameter ∧
      recognize catalog token = parameter.token := by
  cases token with
  | factor value =>
    cases found : catalog.findParameter? value with
    | none => exact .inl (by rw [recognize, found]; rfl)
    | some parameter => exact .inr ⟨value, parameter, rfl, found, by rw [recognize, found]; rfl⟩
  | parameter | operator | logicalOperator | openParen | closeParen | unknown => exact .inl rfl

theorem apart_recognized (solid : ∀ word ∈ taken, IsWord word) (nonempty : taken ≠ []) :
    ∀ symbol earlier,
      ((cutRun (unwords taken)).map (recognize catalog)).reverse ++ passed ≠ .operator symbol :: earlier := by
  apply apart_of_kinds (by simpa using cutRun_ne_nil solid nonempty)
  simp only [List.forall_mem_map]
  intro token member
  rcases recognize_cases catalog token with same | ⟨_, parameter, _, _, same⟩
  · rw [same]
    rcases kind_of_mem_cutBlocks member with kind | kind <;> simp [kind]
  · rw [same]
    simp [ParameterDef.token, Token.kind]

theorem untilBoundary_stops (words : List String) (stop : isBoundary catalog remaining = true) :
    untilBoundary catalog (words ++ remaining) <+: words := by
  induction words with
  | nil => rw [List.nil_append, untilBoundary_of_isBoundary stop]
  | cons word words ih =>
    rw [List.cons_append, untilBoundary]
    split
    · exact List.nil_prefix
    · exact List.cons_prefix_cons.mpr ⟨rfl, ih⟩

theorem plain_of_mem_untilBoundary (indexed : catalog.Indexed) {word : String}
    (member : word ∈ untilBoundary catalog words) : isLogicalWord word.toList = false := by
  induction words with
  | nil => cases member
  | cons first words ih =>
    rw [untilBoundary] at member
    split at member
    · cases member
    next inside =>
      rcases List.mem_cons.mp member with rfl | later
      · exact Bool.eq_false_iff.mpr fun logical => inside (isBoundary_of_isLogicalWord indexed logical _)
      · exact ih later

theorem CutRun.divides (indexed : catalog.Indexed) {follows : Prop}
    (run : CutRun catalog follows passed remaining taken) (solid : ∀ word ∈ taken, IsWord word) :
    Parted taken (taken.flatMap shards) := parted_shards solid fun _ => run.unbroken.plain indexed

namespace Division

theorem divides (division : Division catalog passed words held tokens recognized) (indexed : catalog.Indexed)
    (solid : ∀ word ∈ words, IsWord word) : Parted words held := by
  induction division with
  | nil => exact .nil
  | whole reads single later ih => exact (parted_wholes _).append (ih (List.forall_mem_append.mp solid).2)
  | cut run later ih =>
    obtain ⟨here, rear⟩ := List.forall_mem_append.mp solid
    exact (run.divides indexed here).append (ih rear)

variable (indexed : catalog.Indexed)

include indexed

theorem isBoundary (division : Division catalog passed words held tokens recognized)
    (apart : ∀ symbol earlier, passed ≠ .operator symbol :: earlier) (stop : isBoundary catalog words = true) :
    isBoundary catalog (held.map Shard.text) = true := by
  cases division with
  | nil => rfl
  | @whole _ tokens recognized piece taken remaining held reads single later =>
    have unstopped (nonempty : taken ≠ []) (unbroken : Unbroken catalog taken remaining) :
        Reading.isBoundary catalog (taken ++ remaining) = false := unbroken taken (List.suffix_refl _) nonempty
    cases reads with
    | listed found =>
      rw [catalogFactor?_of_apart _ apart] at found
      cases found
    | stretch unclaimed stretch =>
      cases stretch with
      | paren listed =>
        simp only [List.mem_cons, Prod.mk.injEq, List.not_mem_nil, or_false] at listed
        rcases listed with ⟨rfl, rfl⟩ | ⟨rfl, rfl⟩ <;> rfl
      | @phrase word rest phrase notOpen notClose matched =>
        obtain ⟨member, _, _, place⟩ := indexed.phrases.of_longestMatch matched
        rw [List.take_left] at place
        have begins : PhraseTrie.key phrase.text <+: (word :: rest ++ held.map Shard.text).map lowercase := by
          rw [List.map_append, place]
          exact List.prefix_append _ _
        rw [List.map_append, text_wholes]
        obtain ⟨count, stored, found, _⟩ := indexed.phrases.exists_longestMatch member begins
        exact isBoundary_of_match (by rw [Catalog.matchPhrase?, found]; rfl)
      | name nonempty unbroken => rw [unstopped nonempty unbroken] at stop; cases stop
      | run nonempty unbroken => rw [unstopped nonempty unbroken] at stop; cases stop
  | cut run =>
    rw [run.unbroken _ (List.suffix_refl _) run.nonempty] at stop
    cases stop

/-- What has no parts in it and begins the shards, up to a boundary, begins the words up to a boundary. -/
theorem begins (division : Division catalog passed words held tokens recognized) (intact : Intact catalog held)
    (solid : ∀ word ∈ words, IsWord word) (apart : ∀ symbol earlier, passed ≠ .operator symbol :: earlier)
    (entire : Entire found) (begins : found <+: held)
    (within : found.map Shard.text <+: untilBoundary catalog (held.map Shard.text)) :
    found.map Shard.text <+: untilBoundary catalog words := by
  induction division generalizing found with
  | nil =>
    rw [List.prefix_nil.mp begins]
    exact List.nil_prefix
  | @whole passed tokens recognized piece taken remaining held reads single later ih =>
    cases stop : Reading.isBoundary catalog (taken ++ remaining) with
    | true =>
      have stopped := (Division.whole reads single later).isBoundary indexed apart stop
      rw [untilBoundary_of_isBoundary stopped] at within
      rw [List.prefix_nil.mp within]
      exact List.nil_prefix
    | false =>
      have rear := (List.forall_mem_append.mp solid).2
      cases reads with
      | listed found =>
        rw [catalogFactor?_of_apart _ apart] at found
        cases found
      | stretch unclaimed stretch =>
        obtain ⟨unbroken, kinds⟩ := stretch.unbroken stop
        have divides := later.divides indexed rear
        rw [untilBoundary_append_unbroken unbroken]
        rw [List.map_append, text_wholes, untilBoundary_append_unbroken (divides.unbroken indexed intact unbroken)]
          at within
        rcases List.prefix_or_prefix_of_prefix begins (List.prefix_append _ _) with inside | ⟨rest, rfl⟩
        · have inside := inside.map Shard.text
          rw [text_wholes] at inside
          exact inside.trans (List.prefix_append _ _)
        · rw [List.map_append, text_wholes, List.prefix_append_right_inj] at within ⊢
          refine ih (intact.of_infix (List.suffix_append _ _).isInfix) rear (apart_of_kinds ?_ kinds)
            (List.forall_mem_append.mp entire).2 ((List.prefix_append_right_inj _).mp begins) within
          exact List.ne_nil_of_length_pos (by omega)
  | @cut passed tokens recognized taken remaining held run later ih =>
    obtain ⟨here, rear⟩ := List.forall_mem_append.mp solid
    have stopped := later.isBoundary indexed (apart_recognized here run.nonempty) run.stop
    rw [List.map_append, text_shards] at within
    -- It ends before the boundary behind the run, so it lies in the run.
    have short := (within.trans (untilBoundary_stops (taken.flatMap parts) stopped)).length_le
    rw [← text_shards, List.length_map, List.length_map] at short
    have inside : found <+: taken.flatMap shards :=
      List.prefix_of_prefix_length_le begins (List.prefix_append _ _) short
    rw [untilBoundary_append_unbroken run.unbroken]
    exact ((run.divides indexed here).begins entire inside).trans (List.prefix_append _ _)

/-- A step that made one token is found again in front of the shards. -/
theorem again (later : Division catalog (piece.reverse ++ passed) remaining held tokens recognized)
    (solid : ∀ word ∈ remaining, IsWord word) (known : Known catalog passed)
    (reads : Reads catalog passed remaining taken piece) (single : piece.length = 1)
    (intact : Intact catalog (wholes taken ++ held)) : Reads catalog passed (held.map Shard.text) taken piece := by
  have divides := later.divides indexed solid
  have whole : Parted (taken ++ remaining) (wholes taken ++ held) := (parted_wholes taken).append divides
  have shown : (wholes taken ++ held).map Shard.text = taken ++ held.map Shard.text := by simp
  cases reads with
  | @listed value found =>
    refine .listed ?_
    rw [← shown, whole.catalogFactor? intact known, found]
    intro count other same
    rw [found] at same
    obtain ⟨rfl, _⟩ := Prod.mk.inj (Option.some.inj same)
    rw [List.take_left, shown]
    exact List.prefix_append _ _
  | stretch unclaimed stretch =>
    refine .stretch ?_ ?_
    · rw [← shown, whole.catalogFactor? intact known, unclaimed]
      intro count value same
      rw [unclaimed] at same
      cases same
    cases stretch with
    | paren listed => exact .paren listed
    | @phrase word rest phrase notOpen notClose matched =>
      refine .phrase notOpen notClose ?_
      refine longestMatch_of_alike indexed.phrases matched rfl fun other member more split begins => ?_
      have begins : PhraseTrie.key other.text <+: (word :: (wholes rest ++ held).map Shard.text).map lowercase := by
        rw [split, List.map_append, text_wholes, ← List.cons_append, List.map_append]
        exact (List.prefix_append_right_inj _).mpr begins
      have same := ((parted_wholes rest).append divides).phrase intact member begins
      rwa [split, ← List.cons_append, List.map_append, List.prefix_append_right_inj] at same
    | @name _ parameter nonempty unbroken matched =>
      refine .name nonempty (divides.unbroken indexed intact unbroken) ?_
      refine matchParameter?_of_alike indexed matched rfl fun other member more split begins => ?_
      obtain ⟨spelled, inside, rfl⟩ := List.prefix_map_iff.mp begins
      obtain ⟨found, within, rfl⟩ := List.prefix_map_iff.mp (inside.trans <| untilBoundary_prefix _)
      have entire : Entire (wholes taken ++ found) := by
        refine intact.names other member _ ((List.prefix_append_right_inj _).mpr within).isInfix ?_ ?_
        · rw [split, List.map_append, text_wholes, List.map_append]
        · rw [List.map_append, text_wholes]
          exact List.forall_mem_append.mpr ⟨fun word => unbroken.plain indexed,
            fun word member => plain_of_mem_untilBoundary indexed (inside.subset member)⟩
      refine (later.begins indexed (intact.of_infix (List.suffix_append _ _).isInfix) solid ?_
        (List.forall_mem_append.mp entire).2 within inside).map lowercase
      simp [ParameterDef.token]
    | run nonempty unbroken stop unnamed =>
      refine .run nonempty (divides.unbroken indexed intact unbroken) (later.isBoundary indexed ?_ stop) unnamed
      apply apart_of_kinds (List.ne_nil_of_length_pos (by omega))
      intro token member
      rcases kind_of_mem_runTokens member with kind | kind <;> simp [kind]

end Division

end Criteria.Reading
