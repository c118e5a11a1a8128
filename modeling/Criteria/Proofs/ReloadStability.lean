import Criteria.Proofs.DisplayReading
import Criteria.Proofs.RepairedPieces
import Criteria.Proofs.SettledTexts
import Mathlib.Logic.Function.Iterate
/-!
Reopening what was opened. Tokens that were read, repaired and marked are displayed as the catalog's spelling of the
words that they were read from, so a settled text comes back as the same tokens however often it is displayed and
opened again.
-/

namespace Criteria

open Grammar Rendering

namespace Reading

variable {catalog : Catalog} {before passed tokens raw piece : List Token} {token : Token} {words front : List String}

/-- Where both go on, the tokens that are left end in a parameter, or in one and an operator, only if those that were
read do. What would be a parameter behind these is illegal. -/
structure Tracks (catalog : Catalog) (before passed rest : List Token) : Prop where
  subject : ∀ subject earlier, before.reverse = subject :: earlier → subject.isParameter = true →
    factorsOf catalog subject ≠ [] → ∃ others, passed = subject :: others
  comparison : ∀ symbol subject earlier, before.reverse = .operator symbol :: subject :: earlier →
    subject.isParameter = true → factorsOf catalog subject ≠ [] →
    ∃ others, passed = .operator symbol :: subject :: others
  operator : ∀ subject earlier, passed = subject :: earlier → subject.isParameter = true →
    startsWithOperator rest = true → (position catalog before).legalNext.contains .operator = true
  operand : ∀ symbol subject earlier, passed = .operator symbol :: subject :: earlier → subject.isParameter = true →
    (position catalog before).legalNext.contains .parameter = false

theorem tracks_nil (rest : List Token) : Tracks catalog [] [] rest where
  subject := fun _ _ same => by cases same
  comparison := fun _ _ _ same => by cases same
  operator := fun _ _ same => by cases same
  operand := fun _ _ _ same => by cases same

theorem factorsOf_asParameter {value : String} (unnamed : catalog.findParameter? value = none) :
    factorsOf catalog (asParameter catalog value) = [] := by
  rw [asParameter, unnamed, factorsOf, parameterId?, unnamed]
  rfl

theorem tracks_itself (tracks : Tracks catalog before passed (token :: raw)) :
    Tracks catalog (before ++ [markedAfter catalog before token]) (token :: passed) raw := by
  have marked := markedAfter_cases catalog before token
  constructor
  · intro subject earlier same parameter offers
    rw [List.reverse_concat] at same
    obtain ⟨rfl, _⟩ := List.cons.inj same
    rcases marked with ⟨kept, _⟩ | ⟨lost, _⟩
    · exact ⟨passed, by rw [kept]⟩
    · rw [lost] at parameter
      cases parameter
  · intro symbol subject earlier same parameter offers
    rw [List.reverse_concat] at same
    obtain ⟨last, same⟩ := List.cons.inj same
    obtain ⟨others, rfl⟩ := tracks.subject subject earlier same parameter offers
    rcases marked with ⟨kept, _⟩ | ⟨lost, _⟩
    · exact ⟨others, by rw [← kept, last]⟩
    · rw [lost] at last
      cases last
  · intro subject earlier same parameter starts
    obtain ⟨rfl, _⟩ := List.cons.inj same
    rw [GrammarPosition.operator_legal, position_concat]
    rcases marked with ⟨kept, _⟩ | ⟨lost, _⟩
    · rw [kept, Token.isParameter_eq_true_iff.mp parameter]
      exact .inl rfl
    · rw [lost]
      exact .inr rfl
  · intro symbol subject earlier same parameter
    obtain ⟨rfl, rfl⟩ := List.cons.inj same
    have legal := tracks.operator subject earlier rfl parameter rfl
    have kept : markedAfter catalog before (.operator symbol) = .operator symbol := if_pos legal
    rw [kept, Bool.eq_false_iff, Ne, GrammarPosition.parameter_legal, position_concat]
    simp [Token.kind, GrammarState.afterKind]

theorem tracks_other {marked : Token} (offerless : marked.isParameter = true → factorsOf catalog marked = [])
    (solid : marked.kind ≠ .operator) (last : ∀ symbol earlier, passed ≠ .operator symbol :: earlier)
    (apart : ∀ subject earlier, passed = subject :: earlier → subject.isParameter = true →
      startsWithOperator raw = false) : Tracks catalog (before ++ [marked]) passed raw where
  subject := by
    intro subject earlier same parameter offers
    rw [List.reverse_concat] at same
    obtain ⟨rfl, _⟩ := List.cons.inj same
    exact absurd (offerless parameter) offers
  comparison := by
    intro symbol subject earlier same
    rw [List.reverse_concat] at same
    obtain ⟨rfl, _⟩ := List.cons.inj same
    exact absurd rfl solid
  operator := by
    intro subject earlier same parameter starts
    rw [apart subject earlier same parameter] at starts
    cases starts
  operand := fun symbol subject earlier same => absurd same (last symbol (subject :: earlier))

theorem Tracks.step (tracks : Tracks catalog before passed (piece ++ raw)) (made : MadeOf catalog token piece)
    (apart : startsWithOperator raw = true → token.kind ≠ .factor)
    (read : ∀ value parameter, piece = [.factor value] → catalog.findParameter? value = some parameter →
      ∃ symbol, ∃ subject : ParameterDef, ∃ earlier, passed = .operator symbol :: subject.token :: earlier) :
    Tracks catalog (before ++ [markedAfter catalog before token]) (piece.reverse ++ passed) raw := by
  have marked := markedAfter_cases catalog before token
  cases made with
  | itself => exact tracks_itself tracks
  | @subject value _ =>
    have parameter := isParameter_asParameter catalog value
    refine tracks_other ?_ ?_ (by simp) ?_
    · intro kept
      cases named : catalog.findParameter? value with
      | none =>
        rcases marked with ⟨same, _⟩ | ⟨same, _⟩
        · rw [same, factorsOf_asParameter named]
        · rw [same] at kept
          cases kept
      | some other =>
        -- A listed factor stands behind an operator, where no parameter is legal.
        obtain ⟨symbol, subject, earlier, rfl⟩ := read value other rfl named
        have illegal := tracks.operand symbol subject.token earlier rfl rfl
        rw [← Token.isParameter_eq_true_iff.mp parameter] at illegal
        rcases marked with ⟨_, legal⟩ | ⟨same, _⟩
        · rw [illegal] at legal
          cases legal
        · rw [same] at kept
          cases kept
    · rcases marked with ⟨same, _⟩ | ⟨same, _⟩
      · rw [same, kind_asParameter]
        decide
      · rw [same]
        simp [Token.kind]
    · rintro subject earlier ⟨⟩ parameter
      cases parameter
  | joined nonempty operands =>
    refine tracks_other ?_ ?_ ?_ ?_
    · intro parameter
      rcases marked with ⟨same, _⟩ | ⟨same, _⟩ <;> rw [same] at parameter <;> cases parameter
    · rcases marked with ⟨same, _⟩ | ⟨same, _⟩ <;> rw [same] <;> simp [Token.kind]
    · intro symbol earlier same
      obtain ⟨first, more, shape⟩ := List.exists_cons_of_ne_nil (List.reverse_ne_nil_iff.mpr nonempty)
      rw [shape] at same
      obtain ⟨rfl, _⟩ := List.cons.inj same
      exact operands (.operator symbol) (List.mem_reverse.mp (shape ▸ List.mem_cons_self)) rfl
    · intro _ _ _ _
      cases starts : startsWithOperator raw with
      | false => rfl
      | true => exact absurd rfl (apart starts)

/-- A factor that is displayed with spaces around its hyphen stands right behind a parameter and an operator. -/
def Placed (catalog : Catalog) (spaced : Bool) (tokens : List Token) : Prop :=
  ∀ before value after, tokens = before ++ .factor value :: after →
    displayPart catalog spaced (governing? before) (.factor value) ≠ value →
      ∃ earlier subject symbol, before = earlier ++ [subject, .operator symbol] ∧ subject.isParameter = true

theorem governing?_comparison {subject : Token} (earlier : List Token) (symbol : String)
    (parameter : subject.isParameter = true) : governing? (earlier ++ [subject, .operator symbol]) = some subject := by
  have split : earlier ++ [subject, .operator symbol] = earlier ++ [subject] ++ [.operator symbol] := by simp
  rw [split, governing?_concat, governing?_concat, if_pos parameter]
  rfl

theorem factor_of_displayPart {spaced : Bool} {governing : Option Token}
    (other : displayPart catalog spaced governing (markedAfter catalog before token) ≠ token.text) :
    ∃ value, token = .factor value ∧ markedAfter catalog before token = .factor value := by
  rcases markedAfter_cases catalog before token with ⟨same, _⟩ | ⟨same, _⟩
  · rw [same] at other ⊢
    cases token with
    | factor value => exact ⟨value, rfl, rfl⟩
    | parameter | operator | logicalOperator | openParen | closeParen | unknown => exact absurd rfl other
  · rw [same] at other
    exact absurd rfl other

theorem Reread.displayed (indexed : catalog.Indexed) {spaced : Bool} (made : AllMadeOf catalog tokens raw)
    (tracks : Tracks catalog before passed raw) (reread : Reread catalog passed words front raw)
    (spelled : ∀ word ∈ words, Spelled word)
    (placed : Placed catalog spaced (before ++ markFrom catalog (position catalog before) tokens)) :
    Reread catalog passed words
      (shown catalog spaced (governing? before) (markFrom catalog (position catalog before) tokens)) raw := by
  induction made generalizing before passed words front with
  | nil =>
    cases reread
    exact .nil passed
  | @cons token piece tokens raw made apart later ih =>
    have next := tracks.step made apart fun value parameter same named => by
      subst same
      exact reread.listed_of_named indexed spelled named
    rw [markFrom_cons, shown_cons, ← governing?_concat]
    rw [markFrom_cons] at placed
    have placedLater := placed
    rw [List.append_cons] at placedLater
    by_cases plain : displayPart catalog spaced (governing? before) (markedAfter catalog before token) = token.text
    · obtain ⟨remaining, others, ends, rest, rebuild⟩ := reread.behind
      rw [plain, made.expressionWords_text]
      exact rebuild _ (ih next rest (fun word member => spelled word (ends.subset member)) placedLater)
    · obtain ⟨value, rfl, kept⟩ := factor_of_displayPart plain
      rw [kept] at plain placed next placedLater ⊢
      obtain ⟨earlier, subject, symbol, rfl, parameter⟩ := placed before value _ rfl plain
      have governs := governing?_comparison earlier symbol parameter
      rw [governs] at plain ⊢
      rcases displayPart_factor catalog spaced (some subject) value with same | ⟨_, ⟨⟩, factor, offered, _, rfl, part⟩
      · exact absurd same plain
      have offers : factorsOf catalog subject ≠ [] := List.ne_nil_of_mem offered
      obtain ⟨others, rfl⟩ := tracks.comparison symbol subject earlier.reverse (by simp) parameter offers
      have canonical : (expressionWords factor.canonical, factor.canonical) ∈ forms catalog subject :=
        List.mem_flatMap.mpr ⟨factor, offered, List.mem_cons_self⟩
      have spelling : (expressionWords factor.spaced, factor.canonical) ∈ forms catalog subject :=
        List.mem_flatMap.mpr ⟨factor, offered, List.mem_cons_of_mem _ (List.mem_singleton_self _)⟩
      obtain ⟨rfl, remaining, _, ends, rest, rebuild⟩ :=
        reread.respell indexed made.operands spelled canonical spelling
      rw [part]
      exact rebuild _ (ih next rest (fun word member => spelled word (ends.subset member)) placedLater)

/-- A settled text in which nothing is cut is read as tokens whose display is read as the same. -/
theorem parse_display_of_uncut (indexed : catalog.Indexed) {spaced : Bool} {text : String}
    (uncut : Uncut catalog (expressionWords text)) (settled : Settled catalog (expressionWords text))
    (placed : Placed catalog spaced (parse catalog text)) :
    parse catalog (display catalog spaced (parse catalog text)) = parse catalog text := by
  have spelled : ∀ word ∈ expressionWords text, Spelled word := fun word member => ⟨text, member⟩
  obtain ⟨raw, reread⟩ := exists_reread indexed settled (fun word member => (spelled word member).isWord)
    (List.nil_append _).symm behind_nil uncut
  have scanned : scan catalog (expressionWords text) = raw := reread.scan spelled
  have parsed : parse catalog text = markFrom catalog .start (mergeFactors (reclassify catalog false raw)) := by
    rw [parse, scanned]
  have made := allMadeOf_mergeFactors (allMadeOf_reclassify false (reread.lasting indexed spelled))
  rw [parsed] at placed
  have again := reread.displayed indexed made (tracks_nil raw) spelled placed
  have rescanned : scan catalog (expressionWords (display catalog spaced (parse catalog text))) = raw := by
    rw [expressionWords_display, parsed]
    exact again.scan_shown indexed spelled
  conv_lhs => rw [parse, rescanned]
  exact parsed.symm

/-- If nothing comes of dividing a text, its tokens are displayed as those of the divided one. -/
theorem parse_display_parse (indexed : catalog.Indexed) {spaced : Bool} {text : String}
    (divisible : Divisible catalog (expressionWords text))
    (settled : Settled catalog (expressionWords (divided catalog text)))
    (placed : Placed catalog spaced (parse catalog text)) :
    parse catalog (display catalog spaced (parse catalog text)) = parse catalog text := by
  obtain ⟨uncut, same⟩ := parse_divided indexed divisible settled.ranges
  rw [← same] at placed ⊢
  exact parse_display_of_uncut indexed uncut settled placed

end Reading

namespace Session

private def townForm : Except CatalogError Catalog :=
  Catalog.build [⟨7, "Salary"⟩, ⟨12, "City"⟩] (.ofList [(7, [.range "20" "30", .single "Gold,OR,Silver"])])
    [">", "In List"]

private def townText : String := "CITY > R-AND-D,or Salary in list 20-30 and salary > gold,or,silver )"

private def townParts : String := "CITY > R- AND -D, OR Salary in list 20-30 and salary > gold,or,silver )"

/-- Opening the display of the opened text gives other tokens. -/
def Strays (built : Except CatalogError Catalog) (spaced : Bool) (text : String) : Prop :=
  ∃ catalog, built = .ok catalog ∧
    (load catalog spaced (load catalog spaced text).display).tokens ≠ (load catalog spaced text).tokens

end Session

end Criteria
