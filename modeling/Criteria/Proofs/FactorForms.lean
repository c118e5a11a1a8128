import Criteria.Proofs.KnownFactors
import Criteria.Proofs.LaidReading
import Criteria.Proofs.RepairedPieces
/-!
The form of the factors in a reading. A run is brought into normal form when it is read. Repairing puts a name in the
place of a factor and joins what is left of its text to it, and does not look at the form again: so a factor can have
the form of a name, or be a range with spaces around its hyphen. A listed factor has the form that the catalog gives it,
also when the parameter that it belongs to ends up unknown.
-/

namespace Criteria

open Text

namespace Reading

open Grammar

variable {catalog : Catalog} {taken total : List String} {tokens rest : List Token} {value : String} {place : Place}

def Place.isOperand : Place → Bool
  | .operand _ => true
  | _ => false

theorem Place.isOperand_next (place : Place) (token : Token) :
    (place.next token).isOperand = (token.kind == .operator) := by
  cases token <;> cases place <;> rfl

theorem reclassify_apart {token : Token} (apart : Apart token) (behind : Bool) :
    reclassify catalog behind (token :: tokens) = token :: reclassify catalog (token.kind == .operator) tokens := by
  obtain ⟨noFactor, noParameter⟩ := apart
  have kept : asOperand token = token ∧ asSubject catalog token = token := by
    cases token with
    | factor => exact absurd rfl noFactor
    | parameter => exact absurd rfl noParameter
    | operator | logicalOperator | openParen | closeParen | unknown => exact ⟨rfl, rfl⟩
  rw [reclassify]
  simp only [kept.1, kept.2, ite_self]

theorem kind_asParameter_ne (text : String) : (asParameter catalog text).kind ≠ .factor := by
  rw [kind_asParameter]
  decide

theorem mergeFactors_cons_of_ne {token : Token} (apart : token.kind ≠ .factor) :
    mergeFactors (token :: tokens) = token :: mergeFactors tokens := by
  cases token with
  | factor => exact absurd rfl apart
  | parameter | operator | logicalOperator | openParen | closeParen | unknown => rw [mergeFactors]; simp

theorem mergeFactors_run (apart : ∀ token ∈ tokens.head?, Apart token) (behind : Bool) (value : String) :
    mergeFactors (.factor value :: reclassify catalog behind tokens) =
      .factor value :: mergeFactors (reclassify catalog behind tokens) := by
  refine mergeFactors_cons_factor value ?_ rfl
  intro next later same
  cases tokens with
  | nil => cases same
  | cons token tokens =>
    have here := apart token rfl
    rw [reclassify_apart here, mergeFactors_cons_of_ne here.1] at same
    exact here.1 ((List.cons.inj same).1 ▸ rfl)

/-- Where the text of a factor comes from when the tokens are repaired. -/
inductive Origin (catalog : Catalog) (total : List String) : Place → String → Prop
  | normal {place : Place} {value : String} (normal : normalizeFactor value = value) : Origin catalog total place value
  | named {subject : Option Token} {parameter : ParameterDef} (known : parameter ∈ catalog.parameters) :
      Origin catalog total (.operand subject) parameter.name
  | listed {parameter : ParameterDef} {taken : List String} {value : String} (known : parameter ∈ catalog.parameters)
      (read : (taken, value) ∈ forms catalog parameter.token) :
      Origin catalog total (.operand (some parameter.token)) value
  | joined {place : Place} {taken run : List String} {head value : String} (spelled : Head catalog taken head)
      (normal : normalizeFactor value = value) (stands : taken ++ run <:+: total) (opens : Opens value run) :
      Origin catalog total place (head ++ " " ++ value)

/-- Every factor among the repaired tokens has an origin at the place where it stands. -/
inductive Formed (catalog : Catalog) (total : List String) : Place → List Token → Prop
  | nil (place : Place) : Formed catalog total place []
  | other {place : Place} {token : Token} {tokens : List Token} (apart : token.kind ≠ .factor)
      (later : Formed catalog total (place.next token) tokens) : Formed catalog total place (token :: tokens)
  | factor {place : Place} {value : String} {tokens : List Token} (origin : Origin catalog total place value)
      (later : Formed catalog total .elsewhere tokens) : Formed catalog total place (.factor value :: tokens)

/-- Repairing leaves operators where they are, and the parameters before them. -/
structure Agrees (tokens : List Token) (place repaired : Place) : Prop where
  operator : ∀ subject, place = .operand subject → ∃ other, repaired = .operand other
  operand : ∀ subject, place = .operand (some subject) → repaired = place
  subject : startsWithOperator tokens = true → ∀ parameter, place = .subject parameter → repaired = place

theorem agrees_elsewhere (repaired : Place) : Agrees tokens .elsewhere repaired where
  operator := fun _ same => by cases same
  operand := fun _ same => by cases same
  subject := fun _ _ same => by cases same

theorem agrees_itself (place : Place) : Agrees tokens place place where
  operator := fun subject same => ⟨subject, same⟩
  operand := fun _ _ => rfl
  subject := fun _ _ _ => rfl

theorem agrees_subject (starts : startsWithOperator tokens = false) {parameter : Token} (repaired : Place) :
    Agrees tokens (.subject parameter) repaired where
  operator := fun _ same => by cases same
  operand := fun _ same => by cases same
  subject := fun begins => by
    rw [starts] at begins
    cases begins

theorem Agrees.next {token : Token} {repaired : Place} (agrees : Agrees (token :: tokens) place repaired)
    (apart : Apart token) : Agrees tokens (place.next token) (repaired.next token) := by
  cases token with
  | factor => exact absurd rfl apart.1
  | parameter => exact absurd rfl apart.2
  | operator symbol =>
    cases place with
    | subject parameter =>
      rw [agrees.subject rfl parameter rfl]
      exact agrees_itself _
    | elsewhere | operand =>
      have there : ∃ other, repaired.next (.operator symbol) = .operand other := by
        cases repaired <;> exact ⟨_, rfl⟩
      constructor
      · exact fun _ _ => there
      · exact fun _ same => by cases same
      · exact fun _ _ same => by cases same
  | logicalOperator | openParen | closeParen | unknown => cases place <;> exact agrees_elsewhere _

/-- Only a run can be left as the first factor where no operator stands before. -/
theorem Laid.head_of_merged (laid : Laid catalog total place tokens) (elsewhere : place.isOperand = false)
    (merged : mergeFactors (reclassify catalog false tokens) = .factor value :: rest) :
    ∃ later, tokens = .factor value :: later := by
  cases laid with
  | nil => cases merged
  | sign apart =>
    rw [reclassify_apart apart, mergeFactors_cons_of_ne apart.1] at merged
    exact absurd ((List.cons.inj merged).1 ▸ rfl) apart.1
  | name =>
    rw [reclassify_parameter, mergeFactors_cons_of_ne (by simp [ParameterDef.token, Token.kind])] at merged
    cases merged
  | listed => cases elsewhere
  | @run _ text tokens _ apart =>
    rw [reclassify_factor] at merged
    split at merged
    next =>
      have kind := @kind_asParameter_ne catalog text
      rw [mergeFactors_cons_of_ne kind] at merged
      rw [(List.cons.inj merged).1] at kind
      exact absurd rfl kind
    next =>
      rw [mergeFactors_run apart] at merged
      exact ⟨_, by rw [(List.cons.inj merged).1]⟩

theorem formed_head {repaired : Place} {head : String} (spelled : Head catalog taken head)
    (follows : Follows total taken tokens) (laid : Laid catalog total place tokens)
    (elsewhere : place.isOperand = false) (origin : Origin catalog total repaired head)
    (later : Formed catalog total .elsewhere (mergeFactors (reclassify catalog false tokens))) :
    Formed catalog total repaired (mergeFactors (.factor head :: reclassify catalog false tokens)) := by
  unfold mergeFactors
  split
  next next behind same =>
    obtain ⟨more, shape⟩ := laid.head_of_merged elsewhere same
    obtain ⟨normal, run, stands, opens⟩ := follows next more shape
    rw [same] at later
    cases later with
    | other apart => exact absurd rfl apart
    | factor _ later => exact .factor (.joined spelled normal stands opens) later
  next => exact .factor origin later

theorem asParameter_name (indexed : catalog.Indexed) {parameter : ParameterDef}
    (known : parameter ∈ catalog.parameters) : asParameter catalog parameter.name = parameter.token := by
  have found : catalog.findParameter? parameter.name = some parameter :=
    indexed.findParameter?_eq_some_iff.mpr ⟨known, rfl⟩
  rw [asParameter, found]
  rfl

theorem reclassify_name_between (indexed : catalog.Indexed) {parameter : ParameterDef}
    (known : parameter ∈ catalog.parameters) (starts : startsWithOperator tokens = true) :
    reclassify catalog true (parameter.token :: tokens) = parameter.token :: reclassify catalog false tokens := by
  have subject : asSubject catalog (asOperand parameter.token) = parameter.token := asParameter_name indexed known
  rw [reclassify, starts]
  simp only [if_true, subject]
  rfl

/-- The tokens as they were read stand at one place and the repaired ones at another. The induction carries that the
two agree about operators, so that a listed factor stays behind the parameter that lists it. -/
theorem Laid.formed (indexed : catalog.Indexed) {repaired : Place} (laid : Laid catalog total place tokens)
    (agrees : Agrees tokens place repaired) :
    Formed catalog total repaired (mergeFactors (reclassify catalog place.isOperand tokens)) := by
  induction laid generalizing repaired with
  | nil => exact .nil _
  | @sign place token tokens apart _ ih =>
    rw [reclassify_apart apart, mergeFactors_cons_of_ne apart.1, ← place.isOperand_next]
    exact .other apart.1 (ih (agrees.next apart))
  | @name place parameter taken tokens known head follows later ih =>
    have kind : parameter.token.kind ≠ .factor := by simp [ParameterDef.token, Token.kind]
    have kept : Formed catalog total repaired
        (mergeFactors (parameter.token :: reclassify catalog false tokens)) := by
      rw [mergeFactors_cons_of_ne kind]
      exact .other kind (ih (agrees_itself _))
    cases behind : place.isOperand with
    | false => rwa [reclassify_parameter]
    | true =>
      cases starts : startsWithOperator tokens with
      | true => rwa [reclassify_name_between indexed known starts]
      | false =>
        rw [reclassify_name parameter starts]
        have elsewhere : Agrees tokens (.subject parameter.token) .elsewhere := agrees_subject starts _
        obtain ⟨subject, rfl⟩ : ∃ subject, place = .operand subject := by
          cases place <;> first | exact ⟨_, rfl⟩ | cases behind
        obtain ⟨other, rfl⟩ := agrees.operator subject rfl
        exact formed_head head follows later rfl (.named known) (ih elsewhere)
  | @listed parameter taken value tokens known nonempty read follows later ih =>
    rw [agrees.operand _ rfl, reclassify_factor]
    split
    next =>
      rw [mergeFactors_cons_of_ne (kind_asParameter_ne value)]
      exact .other (kind_asParameter_ne value) (ih (agrees_elsewhere _))
    next =>
      exact formed_head (.listed nonempty known read) follows later rfl (.listed known read) (ih (agrees_elsewhere _))
  | @run place value tokens normal apart later ih =>
    rw [reclassify_factor]
    split
    next =>
      rw [mergeFactors_cons_of_ne (kind_asParameter_ne value)]
      exact .other (kind_asParameter_ne value) (ih (agrees_elsewhere _))
    next =>
      rw [mergeFactors_run apart]
      exact .factor (.normal normal) (ih (agrees_elsewhere _))

/-- What has become of a parameter: it stands as it is, or it was illegal and is unknown. -/
def Remains (parameter token : Token) : Prop := token = parameter ∨ token = .unknown parameter.text

/-- The marked tokens end as the place says. An operator behind a parameter is always legal, so it is still there. -/
def Reaches (marked : List Token) : Place → Prop
  | .elsewhere => True
  | .subject parameter =>
    parameter.kind = .parameter ∧ ∃ earlier last, marked = earlier ++ [last] ∧ Remains parameter last
  | .operand none => True
  | .operand (some parameter) =>
    ∃ earlier last symbol, marked = earlier ++ [last, .operator symbol] ∧ Remains parameter last

variable {marked before after : List Token}

theorem remains_markedAfter (marked : List Token) (token : Token) : Remains token (markedAfter catalog marked token) :=
  (markedAfter_cases catalog marked token).imp And.left And.left

theorem Reaches.next (reaches : Reaches marked place) (token : Token) :
    Reaches (marked ++ [markedAfter catalog marked token]) (place.next token) := by
  cases token with
  | parameter name id =>
    have subject : place.next (.parameter name id) = .subject (.parameter name id) := by cases place <;> rfl
    rw [subject]
    exact ⟨rfl, marked, _, rfl, remains_markedAfter marked _⟩
  | operator symbol =>
    cases place with
    | subject parameter =>
      obtain ⟨kind, earlier, last, rfl, left⟩ := reaches
      have legal : (position catalog (earlier ++ [last])).legalNext.contains .operator = true := by
        rw [position_concat, GrammarPosition.operator_legal]
        rcases left with rfl | rfl
        · exact .inl (by rw [kind]; rfl)
        · exact .inr rfl
      have kept : markedAfter catalog (earlier ++ [last]) (.operator symbol) = .operator symbol := if_pos legal
      rw [kept, List.append_assoc]
      exact ⟨earlier, last, symbol, rfl, left⟩
    | elsewhere | operand => exact trivial
  | factor | logicalOperator | openParen | closeParen | unknown => cases place <;> exact trivial

theorem Formed.origin (formed : Formed catalog total place tokens) (reaches : Reaches marked place)
    (split : markFrom catalog (position catalog marked) tokens = before ++ .factor value :: after) :
    ∃ place, Origin catalog total place value ∧ Reaches (marked ++ before) place := by
  induction formed generalizing marked before with
  | nil => simp [markFrom] at split
  | @other place token tokens apart _ ih =>
    rw [markFrom_cons] at split
    cases before with
    | nil =>
      have here := (List.cons.inj split).1
      rcases remains_markedAfter marked token with same | unknown
      · rw [← same, here] at apart
        exact absurd rfl apart
      · rw [unknown] at here
        cases here
    | cons first before =>
      obtain ⟨here, later⟩ := List.cons.inj split
      obtain ⟨found, origin, reached⟩ := ih (reaches.next token) later
      exact ⟨found, origin, by rwa [here, List.append_assoc] at reached⟩
  | @factor place text tokens origin _ ih =>
    rw [markFrom_cons] at split
    cases before with
    | nil =>
      have here := (List.cons.inj split).1
      rcases remains_markedAfter marked (.factor text) with same | unknown
      · rw [same] at here
        rw [← Token.factor.inj here, List.append_nil]
        exact ⟨place, origin, reaches⟩
      · rw [unknown] at here
        cases here
    | cons first before =>
      obtain ⟨here, later⟩ := List.cons.inj split
      obtain ⟨found, origin, reached⟩ := @ih (marked ++ [markedAfter catalog marked (.factor text)]) _ trivial later
      exact ⟨found, origin, by rwa [here, List.append_assoc] at reached⟩

/-- Where a factor comes from that was not read as such: from a name, from a list whose parameter became unknown, or
from what was read of one of these and of the words behind it. -/
inductive Borrowed (catalog : Catalog) (total : List String) (before : List Token) : String → Prop
  | name {parameter : ParameterDef} (known : parameter ∈ catalog.parameters) :
      Borrowed catalog total before parameter.name
  | stranded {earlier : List Token} {parameter : ParameterDef} {symbol : String} {factor : FactorDef}
      (known : parameter ∈ catalog.parameters)
      (shape : before = earlier ++ [.unknown parameter.name, .operator symbol])
      (offered : factor ∈ factorsOf catalog parameter.token) : Borrowed catalog total before factor.canonical
  | joined {taken run : List String} {head value : String} (spelled : Head catalog taken head)
      (normal : normalizeFactor value = value) (stands : taken ++ run <:+: total) (opens : Opens value run) :
      Borrowed catalog total before (head ++ " " ++ value)

/-- The names and the listed factors are in normal form, and none of them is a bound of a range in the words. -/
structure Regular (catalog : Catalog) (total : List String) : Prop where
  names : ∀ parameter ∈ catalog.parameters, normalizeFactor parameter.name = parameter.name
  listed : ∀ parameter ∈ catalog.parameters, ∀ factor ∈ factorsOf catalog parameter.token,
    normalizeFactor factor.canonical = factor.canonical
  ranges : ∀ taken head rest lower upper, Head catalog taken head → rest ≠ [] → taken ++ rest <:+: total →
    Text.words head ++ rest ≠ [lower, "-", upper]

theorem exists_factor_of_form {parameter : ParameterDef} (read : (taken, value) ∈ forms catalog parameter.token) :
    ∃ factor ∈ factorsOf catalog parameter.token, factor.canonical = value := by
  obtain ⟨factor, offered, spelled⟩ := List.mem_flatMap.mp read
  refine ⟨factor, offered, ?_⟩
  simp only [factorForms, List.mem_cons, Prod.mk.injEq, List.not_mem_nil, or_false] at spelled
  rcases spelled with ⟨_, rfl⟩ | ⟨_, rfl⟩ <;> rfl

theorem Head.words_ne_nil {head : String} (spelled : Head catalog taken head) : Text.words head ≠ [] := by
  cases spelled with
  | @name parameter nonempty _ same =>
    intro blank
    rw [PhraseTrie.key, blank] at same
    exact nonempty (List.map_eq_nil_iff.mp same)
  | listed nonempty _ read =>
    have chars := flatMap_toList_of_mem_forms read
    obtain ⟨word, later, rfl⟩ := List.exists_cons_of_ne_nil nonempty
    have solid := (solid_of_mem_forms read word List.mem_cons_self)
    obtain ⟨c, rest, shape⟩ := List.exists_cons_of_ne_nil solid.1
    rw [List.flatMap_cons, shape, List.cons_append] at chars
    have inside : c ∈ head.toList.filter (!isBlank ·) := chars ▸ List.mem_cons_self
    obtain ⟨inside, visible⟩ := List.mem_filter.mp inside
    exact words_ne_nil_iff.mpr ⟨c, inside, by simpa using visible⟩

theorem Head.cases_text {head : String} (spelled : Head catalog taken head) :
    (∃ parameter ∈ catalog.parameters, parameter.name = head) ∨
      ∃ parameter ∈ catalog.parameters, ∃ factor ∈ factorsOf catalog parameter.token, factor.canonical = head := by
  cases spelled with
  | name _ known => exact .inl ⟨_, known, rfl⟩
  | listed _ known read => exact .inr ⟨_, known, exists_factor_of_form read⟩

theorem Regular.head_normal (regular : Regular catalog total) {head : String} (spelled : Head catalog taken head) :
    normalizeFactor head = head := by
  rcases spelled.cases_text with ⟨parameter, known, rfl⟩ | ⟨parameter, known, factor, offered, rfl⟩
  · exact regular.names parameter known
  · exact regular.listed parameter known factor offered

theorem Opens.exists_begin {text : String} {run : List String} (opens : Opens text run) :
    ∃ last, (Text.words text).dropLast ++ [last] <+: run := by
  obtain ⟨rest, rfl⟩ := opens.begins
  have short := opens.short
  have occupied := List.length_pos_iff.mpr opens.nonempty
  rw [List.length_append, List.length_dropLast] at short
  obtain ⟨last, later, rfl⟩ : ∃ last later, rest = last :: later :=
    List.exists_cons_of_ne_nil (List.length_pos_iff.mp (by omega))
  exact ⟨last, List.prefix_append_right_inj _ |>.mpr (by simp)⟩

theorem Regular.normal_of_borrowed (regular : Regular catalog total) (borrowed : Borrowed catalog total before value) :
    normalizeFactor value = value := by
  cases borrowed with
  | name known => exact regular.names _ known
  | stranded known _ offered => exact regular.listed _ known _ offered
  | @joined taken run head value spelled normal stands opens =>
    have solid (text : String) : ∀ word ∈ Text.words text, IsWord word := fun _ => isWord_of_mem_words
    have whole : head ++ " " ++ value = unwords (Text.words head ++ Text.words value) := by
      rw [unwords_append spelled.words_ne_nil opens.nonempty, unwords_words_of_normal (regular.head_normal spelled),
        unwords_words_of_normal normal]
    rw [whole, normalizeFactor_eq_self_iff (List.forall_mem_append.mpr ⟨solid head, solid value⟩)]
    rintro ⟨lower, upper, range⟩
    obtain ⟨last, begins⟩ := opens.exists_begin
    -- The text may end inside a word of the run, so the range in the words may have another upper bound.
    have spread : Text.words head ++ ((Text.words value).dropLast ++ [last]) = [lower, "-", last] := by
      rw [← List.append_assoc, ← List.dropLast_append_of_ne_nil opens.nonempty, range]
      rfl
    exact regular.ranges taken head _ lower last spelled (by simp)
      (((List.prefix_append_right_inj taken).mpr begins).isInfix.trans stands) spread

/-- Without a hyphen that stands alone there is no range with spaces. -/
theorem regular_of_unhyphened
    (names : ∀ parameter ∈ catalog.parameters,
      normalizeFactor parameter.name = parameter.name ∧ "-" ∉ Text.words parameter.name)
    (listed : ∀ parameter ∈ catalog.parameters, ∀ factor ∈ factorsOf catalog parameter.token,
      normalizeFactor factor.canonical = factor.canonical ∧ "-" ∉ Text.words factor.canonical)
    (plain : "-" ∉ total) : Regular catalog total where
  names := fun parameter known => (names parameter known).1
  listed := fun parameter known factor offered => (listed parameter known factor offered).1
  ranges := by
    intro taken head rest lower upper spelled _ stands spread
    have hyphen : "-" ∈ Text.words head ++ rest := by simp [spread]
    rcases List.mem_append.mp hyphen with inside | inside
    · rcases spelled.cases_text with ⟨parameter, known, rfl⟩ | ⟨parameter, known, factor, offered, rfl⟩
      · exact (names parameter known).2 inside
      · exact (listed parameter known factor offered).2 inside
    · exact plain (stands.subset (List.mem_append_right taken inside))

theorem parse_factor_cases (indexed : catalog.Indexed) (text : String)
    (split : parse catalog text = before ++ .factor value :: after) :
    normalizeFactor value = value ∨
      (∃ parameter ∈ catalog.parameters, governing? before = some parameter.token ∧
        ∃ factor ∈ factorsOf catalog parameter.token, factor.canonical = value) ∨
      Borrowed catalog (expressionWords text) before value := by
  obtain ⟨tokens, scanned, read⟩ := exists_scanned indexed [] (expressionWords text)
  have laid : Laid catalog (expressionWords text) .elsewhere tokens :=
    laid_scanned indexed scanned (List.nil_append _).symm (fun word => isWord_of_mem_expressionWords)
      fun _ none => by cases none
  have formed : Formed catalog (expressionWords text) .elsewhere (mergeFactors (reclassify catalog false tokens)) :=
    laid.formed indexed (agrees_itself _)
  rw [parse, scan, read, List.reverse_nil, List.nil_append, ← @position_nil catalog] at split
  obtain ⟨place, origin, reaches⟩ := formed.origin trivial split
  rw [List.nil_append] at reaches
  cases origin with
  | normal normal => exact .inl normal
  | named known => exact .inr (.inr (.name known))
  | joined spelled normal stands opens => exact .inr (.inr (.joined spelled normal stands opens))
  | @listed parameter taken _ known read =>
    obtain ⟨factor, offered, same⟩ := exists_factor_of_form read
    obtain ⟨earlier, last, symbol, shape, left⟩ := reaches
    rcases left with kept | unknown
    · refine .inr (.inl ⟨parameter, known, ?_, factor, offered, same⟩)
      rw [shape, kept, governing?, List.reverse_append]
      rfl
    · rw [unknown] at shape
      rw [← same]
      exact .inr (.inr (.stranded known shape offered))

/-- A factor in a reading is in normal form, or listed for the parameter before it, or borrowed. Where the catalog and
the words are regular every factor is in normal form. -/
theorem parsed_factors {parameters : List ParameterDef} {factors : FactorTable} {operators : List String}
    (built : Catalog.build parameters factors operators = .ok catalog) (text : String) :
    (∀ before value after, parse catalog text = before ++ .factor value :: after →
      normalizeFactor value = value ∨
      (∃ parameter ∈ catalog.parameters, governing? before = some parameter.token ∧
        ∃ factor ∈ factorsOf catalog parameter.token, factor.canonical = value) ∨
      Borrowed catalog (expressionWords text) before value) ∧
    (Regular catalog (expressionWords text) → ∀ value, .factor value ∈ parse catalog text →
      normalizeFactor value = value) := by
  have indexed := Catalog.indexed_of_build built
  refine ⟨fun before value after => parse_factor_cases indexed text, fun regular value member => ?_⟩
  obtain ⟨before, after, split⟩ := List.append_of_mem member
  rcases parse_factor_cases indexed text split with normal | ⟨_, known, _, _, offered, same⟩ | borrowed
  · exact normal
  · rw [← same]
    exact regular.listed _ known _ offered
  · exact regular.normal_of_borrowed borrowed

private def cityForm : Except CatalogError Catalog :=
  Catalog.build [⟨12, "City"⟩, ⟨9, "Loan"⟩] (.ofList [(12, [.single "New York", .range "A" "B"])]) ["="]

theorem parsed_factors_city :
    ∃ catalog, cityForm = .ok catalog ∧ Regular catalog (expressionWords "City = New York Loan AND Loan = 5") ∧
      ∀ value, .factor value ∈ parse catalog "City = New York Loan AND Loan = 5" → normalizeFactor value = value := by
  obtain ⟨catalog, built, names, listed⟩ :
      ∃ catalog, cityForm = .ok catalog ∧
        (∀ parameter ∈ catalog.parameters,
          normalizeFactor parameter.name = parameter.name ∧ "-" ∉ Text.words parameter.name) ∧
        ∀ parameter ∈ catalog.parameters, ∀ factor ∈ factorsOf catalog parameter.token,
          normalizeFactor factor.canonical = factor.canonical ∧ "-" ∉ Text.words factor.canonical :=
    ⟨_, rfl, by decide, by decide⟩
  have regular : Regular catalog (expressionWords "City = New York Loan AND Loan = 5") :=
    regular_of_unhyphened names listed (by decide)
  exact ⟨catalog, built, regular, (parsed_factors built _).2 regular⟩

/-- A name or a listed factor before a hyphen, a name with two spaces, and a factor with two spaces whose parameter is
unknown. -/
theorem parsed_factors_borrowed :
    ∃ catalog, Catalog.build [⟨12, "City"⟩, ⟨9, "Loan"⟩, ⟨11, "Loan  Amount"⟩]
        (.ofList [(12, [.single "Paris", .single "New  York"])]) ["="] = .ok catalog ∧
      parse catalog "City = Loan - Town" = [.parameter "City" (some 12), .operator "=", .factor "Loan - Town"] ∧
      parse catalog "City = Paris - Town" = [.parameter "City" (some 12), .operator "=", .factor "Paris - Town"] ∧
      parse catalog "City = loan amount" = [.parameter "City" (some 12), .operator "=", .factor "Loan  Amount"] ∧
      parse catalog "(Loan = 5) City = New York" =
        [.openParen, .parameter "Loan" (some 9), .operator "=", .factor "5", .closeParen, .unknown "City",
          .operator "=", .factor "New  York"] ∧
      (∀ value ∈ ["Loan - Town", "Paris - Town", "Loan  Amount", "New  York"], normalizeFactor value ≠ value) ∧
      (∀ factor ∈ factorsOf catalog (.parameter "City" (some 12)),
        factor.canonical ∉ ["Loan - Town", "Paris - Town", "Loan  Amount"]) ∧
      factorsOf catalog (.parameter "Loan" (some 9)) = [] :=
  ⟨_, rfl, by decide, by decide, by decide, by decide, by decide, by decide, by decide⟩

end Reading

end Criteria
