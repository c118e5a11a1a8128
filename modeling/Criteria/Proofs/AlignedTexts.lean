import Criteria.Proofs.DisplayReading
import Criteria.Proofs.FinishedSessions
import Criteria.Proofs.Parentheses
import Mathlib.Data.List.Forall2
/-!
The display and the payload of the same tokens, part by part. Both have one part for each token, and a part differs
between them only where a parameter stands, or where the display spreads a range. The first token without a part in the
payload decides its error.
-/

namespace Criteria

open Text

theorem Text.plain_toString (value : Int) : Reading.Plain (toString value) := by
  have digits (number : Nat) : ∀ c ∈ Nat.toDigits 10 number, c ≠ '(' ∧ c ≠ ')' := by
    intro c inside
    have digit := Nat.isDigit_of_mem_toDigits (by decide) (by decide) inside
    constructor <;> rintro rfl <;> exact absurd digit (by decide)
  cases value with
  | ofNat number =>
    have text : (toString (Int.ofNat number)).toList = Nat.toDigits 10 number := Nat.toList_repr
    intro c inside
    exact digits number c (text ▸ inside)
  | negSucc number =>
    have text : (toString (Int.negSucc number)).toList = '-' :: Nat.toDigits 10 (number + 1) := by
      change ("-" ++ Nat.repr (number + 1)).toList = _
      rw [String.toList_append, Nat.toList_repr]
      rfl
    intro c inside
    rw [text] at inside
    rcases List.mem_cons.mp inside with rfl | digit
    · decide
    · exact digits _ c digit

theorem FactorDef.bounds_of_isRange {factor : FactorDef} (range : factor.isRange = true) :
    ∃ lower upper, factor.canonical = lower ++ "-" ++ upper ∧ factor.spaced = lower ++ " - " ++ upper := by
  obtain ⟨upper, found⟩ := Option.isSome_iff_exists.mp range
  exact ⟨trim factor.value1, upper, by rw [canonical, found], by rw [spaced, found]⟩

namespace Rendering

open Grammar

variable {catalog : Catalog} {tokens : List Token} {token : Token} {error : ExpressionError}

section Payload

/-- What stands for a token in the payload. -/
inductive PayloadPart (catalog : Catalog) : Token → String → Prop where
  | id {parameter : ParameterDef} (listed : parameter ∈ catalog.parameters) :
      PayloadPart catalog (.parameter parameter.name (some parameter.id)) (toString parameter.id.toInt)
  | text {token : Token} (unnamed : token.kind ≠ .parameter) (known : token.kind ≠ .unknown) :
      PayloadPart catalog token token.text

/-- Nothing stands in the payload for unknown text, nor for a parameter that the catalog does not list with this id and
exactly this name. -/
inductive Partless (catalog : Catalog) : Token → Prop where
  | unknown (text : String) : Partless catalog (.unknown text)
  | unlisted {name : String} {id : Option ParameterId}
      (absent : ∀ parameter ∈ catalog.parameters, parameter.name = name → id ≠ some parameter.id) :
      Partless catalog (.parameter name id)

/-- The error that a token without a part causes at its place. -/
def partError (index : Nat) : Token → ExpressionError
  | .unknown text => .ambiguousText index text
  | token => .unresolvedParameter token.text

variable (indexed : catalog.Indexed)
include indexed

theorem resolve_eq (name : String) (id : Option ParameterId) :
    (∃ parameter ∈ catalog.parameters, name = parameter.name ∧ id = some parameter.id ∧
      resolve catalog name id = .ok parameter.id) ∨
    (∀ parameter ∈ catalog.parameters, parameter.name = name → id ≠ some parameter.id) ∧
      resolve catalog name id = .error (.unresolvedParameter name) := by
  cases resolved : resolve catalog name id with
  | ok found =>
    obtain ⟨parameter, listed, rfl, rfl, rfl⟩ := listed_of_resolve indexed resolved
    exact .inl ⟨parameter, listed, rfl, rfl, rfl⟩
  | error error =>
    refine .inr ⟨?_, ?_⟩
    · rintro parameter listed rfl rfl
      rw [resolve_listed indexed listed] at resolved
      cases resolved
    · unfold resolve at resolved
      split at resolved
      · cases resolved
      · rw [Except.error.inj resolved]

theorem payloadPart_eq (index : Nat) (token : Token) :
    (∃ part, PayloadPart catalog token part ∧ payloadPart catalog index token = .ok part) ∧ ¬ Partless catalog token ∨
      Partless catalog token ∧ payloadPart catalog index token = .error (partError index token) := by
  cases token with
  | parameter name id =>
    rcases resolve_eq indexed name id with ⟨parameter, listed, rfl, rfl, resolved⟩ | ⟨absent, unresolved⟩
    · refine .inl ⟨⟨_, .id listed, ?_⟩, ?_⟩
      · rw [payloadPart, resolved]
        exact congrArg Except.ok (String.ofList_toList ..)
      · rintro (_ | absent)
        exact absent parameter listed rfl rfl
    · refine .inr ⟨.unlisted absent, ?_⟩
      rw [payloadPart, unresolved]
      rfl
  | unknown text => exact .inr ⟨.unknown text, rfl⟩
  | factor | operator | logicalOperator | openParen | closeParen =>
    exact .inl ⟨⟨_, .text (by simp [Token.kind]) (by simp [Token.kind]), rfl⟩, by rintro ⟨⟩⟩

theorem payloadParts_eq (start : Nat) (tokens : List Token) :
    (∃ parts, List.Forall₂ (PayloadPart catalog) tokens parts ∧ payloadParts catalog start tokens = .ok parts) ∧
      (∀ token ∈ tokens, ¬ Partless catalog token) ∨
    ∃ before token after, tokens = before ++ token :: after ∧ Partless catalog token ∧
      (∀ other ∈ before, ¬ Partless catalog other) ∧
      payloadParts catalog start tokens = .error (partError (start + before.length) token) := by
  induction tokens generalizing start with
  | nil => exact .inl ⟨⟨[], .nil, rfl⟩, by simp⟩
  | cons first rest ih =>
    rcases payloadPart_eq indexed start first with ⟨⟨part, stands, read⟩, sound⟩ | ⟨partless, failed⟩
    · rcases ih (start + 1) with
        ⟨⟨parts, aligned, others⟩, later⟩ | ⟨before, token, after, rfl, partless, earlier, failed⟩
      · refine .inl ⟨⟨part :: parts, .cons stands aligned, ?_⟩, List.forall_mem_cons.mpr ⟨sound, later⟩⟩
        rw [payloadParts, read, others]
        rfl
      · refine .inr ⟨first :: before, token, after, rfl, partless, List.forall_mem_cons.mpr ⟨sound, earlier⟩, ?_⟩
        rw [payloadParts, read, failed, List.length_cons, Nat.add_comm before.length, ← Nat.add_assoc]
        rfl
    · refine .inr ⟨[], first, rest, rfl, partless, by simp, ?_⟩
      rw [payloadParts, failed]
      rfl

end Payload

section Display

theorem length_displayParts (spaced : Bool) (governing : Option Token) (tokens : List Token) :
    (displayParts catalog spaced governing tokens).length = tokens.length := by
  induction tokens generalizing governing with
  | nil => rfl
  | cons token rest ih => rw [displayParts, List.length_cons, List.length_cons, ih]

theorem getElem?_displayParts (spaced : Bool) (before tokens : List Token) (index : Nat) :
    (displayParts catalog spaced (governing? before) tokens)[index]? =
      tokens[index]?.map (displayPart catalog spaced (governing? (before ++ tokens.take index))) := by
  induction tokens generalizing before index with
  | nil => rfl
  | cons token rest ih =>
    rw [displayParts, ← Reading.governing?_concat]
    cases index with
    | zero => simp
    | succ index =>
      have later := ih (before ++ [token]) index
      rwa [List.append_assoc, List.singleton_append] at later

theorem displayParts_at {index : Nat} (spaced : Bool) (there : tokens[index]? = some token) :
    (displayParts catalog spaced none tokens)[index]? =
      some (displayPart catalog spaced (governing? (tokens.take index)) token) := by
  have part := @getElem?_displayParts catalog spaced [] tokens index
  rwa [there, List.nil_append] at part

theorem displayPart_unspaced (governing : Option Token) (token : Token) :
    displayPart catalog false governing token = token.text := by
  cases token <;> rfl

/-- The token is a factor that the governing parameter offers as a range. -/
def OfferedRange (catalog : Catalog) (governing : Option Token) (token : Token) : Prop :=
  ∃ value subject, token = .factor value ∧ governing = some subject ∧
    ∃ factor ∈ factorsOf catalog subject, factor.isRange = true ∧ factor.canonical = value

theorem spacedRange?_eq_none {governing : Option Token} {value : String}
    (missing : spacedRange? catalog governing value = none) : ¬ OfferedRange catalog governing (.factor value) := by
  rintro ⟨_, subject, ⟨⟩, rfl, factor, offered, range, rfl⟩
  simp only [spacedRange?, Option.bind_eq_bind, Option.bind_some, Option.pure_def, Option.bind_eq_none_iff,
    reduceCtorEq, imp_false] at missing
  have absent := Option.eq_none_iff_forall_ne_some.mpr missing
  simpa [range] using List.find?_eq_none.mp absent factor offered

theorem displayPart_spaced (governing : Option Token) (token : Token) :
    displayPart catalog true governing token = token.text ∧ ¬ OfferedRange catalog governing token ∨
      OfferedRange catalog governing token ∧ ∃ lower upper, token.text = lower ++ "-" ++ upper ∧
        displayPart catalog true governing token = lower ++ " - " ++ upper := by
  cases token with
  | factor value =>
    cases shown : spacedRange? catalog governing value with
    | none => exact .inl ⟨by simp [displayPart, shown, Token.text], spacedRange?_eq_none shown⟩
    | some spread =>
      have part : displayPart catalog true governing (.factor value) = spread := by simp [displayPart, shown]
      simp only [spacedRange?, Option.bind_eq_bind, Option.bind_eq_some_iff, Option.pure_def,
        Option.some.injEq] at shown
      obtain ⟨subject, rfl, factor, found, rfl⟩ := shown
      have same := List.find?_some found
      simp only [Bool.and_eq_true, beq_iff_eq] at same
      obtain ⟨lower, upper, closed, spread⟩ := FactorDef.bounds_of_isRange same.1
      exact .inr ⟨⟨value, subject, rfl, rfl, factor, List.mem_of_find?_eq_some found, same⟩, lower, upper,
        same.2.symm.trans closed, part.trans spread⟩
  | parameter | operator | logicalOperator | openParen | closeParen | unknown =>
    exact .inl ⟨rfl, by rintro ⟨_, _, ⟨⟩, _⟩⟩

theorem filter_displayPart {keep : Char → Bool} (dropped : keep ' ' = false) (spaced : Bool)
    (governing : Option Token) (token : Token) :
    (displayPart catalog spaced governing token).toList.filter keep = token.text.toList.filter keep := by
  cases spaced with
  | false => rw [displayPart_unspaced]
  | true =>
    rcases @displayPart_spaced catalog governing token with
      ⟨same, _⟩ | ⟨_, lower, upper, closed, spread⟩
    · rw [same]
    · have hyphen : " - ".toList.filter keep = "-".toList.filter keep := by
        change [' ', '-', ' '].filter keep = ['-'].filter keep
        simp only [List.filter_cons, dropped, Bool.false_eq_true, if_false, List.filter_nil]
      rw [closed, spread]
      simp only [String.toList_append, List.filter_append, hyphen]

theorem filter_display {keep : Char → Bool} (dropped : keep ' ' = false) (spaced : Bool) (tokens : List Token) :
    (display catalog spaced tokens).toList.filter keep = tokens.flatMap fun token => token.text.toList.filter keep := by
  have parts (governing : Option Token) :
      ((displayParts catalog spaced governing tokens).flatMap fun part => part.toList.filter keep) =
        tokens.flatMap fun token => token.text.toList.filter keep := by
    induction tokens generalizing governing with
    | nil => rfl
    | cons token rest ih => rw [displayParts, List.flatMap_cons, List.flatMap_cons, filter_displayPart dropped, ih]
  rw [display, filter_unwords dropped, parts]

end Display

theorem flatMap_parens_of_forall₂ (plain : ∀ parameter ∈ catalog.parameters, Reading.Plain parameter.name)
    {parts : List String} (aligned : List.Forall₂ (PayloadPart catalog) tokens parts) :
    (tokens.flatMap fun token => parens token.text) = parts.flatMap parens := by
  induction aligned with
  | nil => rfl
  | cons stands _ ih =>
    rw [List.flatMap_cons, List.flatMap_cons, ih]
    congr 1
    cases stands with
    | id listed => rw [Token.text, parens_eq_nil_iff.mpr (plain _ listed), parens_eq_nil_iff.mpr (plain_toString _)]
    | text => rfl

section Whole

theorem payloadPart_of_getElem? {parts : List String} (aligned : List.Forall₂ (PayloadPart catalog) tokens parts)
    {index : Nat} (there : tokens[index]? = some token) :
    ∃ part, parts[index]? = some part ∧ PayloadPart catalog token part := by
  obtain ⟨inside, rfl⟩ := List.getElem?_eq_some_iff.mp there
  have within : index < parts.length := aligned.length_eq ▸ inside
  exact ⟨parts[index], List.getElem?_eq_getElem within, by simpa using aligned.get inside within⟩

theorem first_partless_unique {before other : List Token} {token first : Token} {after rest : List Token}
    (same : before ++ token :: after = other ++ first :: rest) (earlier : ∀ token ∈ before, ¬ Partless catalog token)
    (partless : Partless catalog token) (others : ∀ token ∈ other, ¬ Partless catalog token)
    (lacking : Partless catalog first) : before = other ∧ token = first := by
  induction before generalizing other with
  | nil =>
    cases other with
    | nil => exact ⟨rfl, (List.cons.inj same).1⟩
    | cons head other => exact absurd partless ((List.cons.inj same).1 ▸ others head (List.mem_cons_self ..))
  | cons head before ih =>
    cases other with
    | nil => exact absurd lacking ((List.cons.inj same).1 ▸ earlier head (List.mem_cons_self ..))
    | cons head' other =>
      obtain ⟨rfl, later⟩ := List.cons.inj same
      obtain ⟨rfl, rfl⟩ := ih later (List.forall_mem_cons.mp earlier).2 (List.forall_mem_cons.mp others).2
      exact ⟨rfl, rfl⟩

variable (indexed : catalog.Indexed)
include indexed

theorem payload_eq (tokens : List Token) :
    (∃ parts, List.Forall₂ (PayloadPart catalog) tokens parts ∧ payload catalog tokens = .ok (unwords parts)) ∧
      (∀ token ∈ tokens, ¬ Partless catalog token) ∨
    ∃ before token after, tokens = before ++ token :: after ∧ (∀ other ∈ before, ¬ Partless catalog other) ∧
      Partless catalog token ∧ payload catalog tokens = .error (partError before.length token) := by
  rcases payloadParts_eq indexed 0 tokens with
    ⟨⟨parts, aligned, read⟩, sound⟩ | ⟨before, token, after, cut, partless, earlier, failed⟩
  · exact .inl ⟨⟨parts, aligned, by rw [payload, read]; rfl⟩, sound⟩
  · exact .inr ⟨before, token, after, cut, earlier, partless, by rw [payload, failed, Nat.zero_add]; rfl⟩

theorem parts_of_payload {text : String} (paid : payload catalog tokens = .ok text) :
    ∃ parts, List.Forall₂ (PayloadPart catalog) tokens parts ∧ text = unwords parts := by
  rcases payload_eq indexed tokens with ⟨⟨parts, aligned, read⟩, _⟩ | ⟨_, _, _, _, _, _, failed⟩
  · exact ⟨parts, aligned, Except.ok.inj (paid.symm.trans read)⟩
  · rw [failed] at paid
    cases paid

theorem payload_ne_ok : (∀ text, payload catalog tokens ≠ .ok text) ↔ ∃ token ∈ tokens, Partless catalog token := by
  rcases payload_eq indexed tokens with
    ⟨⟨parts, _, read⟩, sound⟩ | ⟨before, token, after, rfl, _, partless, failed⟩
  · refine iff_of_false (fun missing => missing _ read) ?_
    rintro ⟨token, member, partless⟩
    exact sound token member partless
  · refine iff_of_true (fun text paid => ?_) ⟨token, by simp, partless⟩
    rw [failed] at paid
    cases paid

theorem payload_eq_error : payload catalog tokens = .error error ↔
    ∃ before token after, tokens = before ++ token :: after ∧ (∀ other ∈ before, ¬ Partless catalog other) ∧
      Partless catalog token ∧ error = partError before.length token := by
  rcases payload_eq indexed tokens with
    ⟨⟨parts, _, read⟩, sound⟩ | ⟨before, token, after, cut, earlier, partless, failed⟩
  · refine iff_of_false (fun refused => ?_) ?_
    · rw [read] at refused
      cases refused
    · rintro ⟨before, token, after, rfl, _, partless, _⟩
      exact sound token (by simp) partless
  · rw [failed, Except.error.injEq]
    constructor
    · rintro rfl
      exact ⟨before, token, after, cut, earlier, partless, rfl⟩
    · rintro ⟨other, first, rest, again, others, lacking, rfl⟩
      obtain ⟨rfl, rfl⟩ := first_partless_unique (cut.symm.trans again) earlier partless others lacking
      rfl

end Whole

/-- How the texts of a token sequence go together. -/
structure Aligned (catalog : Catalog) (tokens : List Token) : Prop where
  shown : ∀ spaced, display catalog spaced tokens = unwords (displayParts catalog spaced none tokens) ∧
    (displayParts catalog spaced none tokens).length = tokens.length
  /-- Each token has one part, which is its id for a parameter and the displayed part for any other. -/
  paid : ∀ text, payload catalog tokens = .ok text →
    ∃ parts, text = unwords parts ∧ parts.length = tokens.length ∧
      ∀ (index : Nat) (token : Token), tokens[index]? = some token →
        (∃ parameter ∈ catalog.parameters, token = .parameter parameter.name (some parameter.id) ∧
          parts[index]? = some (toString parameter.id.toInt)) ∨
        token.kind ≠ .parameter ∧ parts[index]? = (displayParts catalog false none tokens)[index]?
  unpaid : (∀ text, payload catalog tokens ≠ .ok text) ↔ ∃ token ∈ tokens, Partless catalog token
  /-- The first token without a part decides the error. -/
  refused : ∀ error, payload catalog tokens = .error error ↔
    ∃ before token after, tokens = before ++ token :: after ∧ (∀ other ∈ before, ¬ Partless catalog other) ∧
      Partless catalog token ∧ error = partError before.length token
  indifferent : ∀ spaced, (render catalog spaced tokens).map (·.payload) = payload catalog tokens
  /-- Only a range that the last parameter before it offers is displayed in two ways. -/
  spread : ∀ (index : Nat) (token : Token), tokens[index]? = some token →
    ∃ closed spread, (displayParts catalog false none tokens)[index]? = some closed ∧
      (displayParts catalog true none tokens)[index]? = some spread ∧
      (spread = closed ∨ OfferedRange catalog (governing? (tokens.take index)) token ∧
        ∃ lower upper, closed = lower ++ "-" ++ upper ∧ spread = lower ++ " - " ++ upper)
  /-- The two displays are the same apart from white space. -/
  solid : (display catalog true tokens).toList.filter (!isBlank ·) =
    (display catalog false tokens).toList.filter (!isBlank ·)
  /-- Parentheses stand in the same order in the display and in the payload. -/
  enclosed : (∀ parameter ∈ catalog.parameters, Reading.Plain parameter.name) →
    ∀ spaced text, payload catalog tokens = .ok text → parens (display catalog spaced tokens) = parens text

theorem aligned_of_build {parameters : List ParameterDef} {factors : FactorTable} {operators : List String}
    (built : Catalog.build parameters factors operators = .ok catalog) (tokens : List Token) :
    Aligned catalog tokens := by
  have indexed := Catalog.indexed_of_build built
  refine {
    shown := fun spaced => ⟨rfl, length_displayParts spaced none tokens⟩
    paid := fun text paid => ?paid
    unpaid := payload_ne_ok indexed
    refused := fun error => payload_eq_error indexed
    indifferent := fun spaced => ?indifferent
    spread := fun index token there => ?spread
    solid := ?solid
    enclosed := fun plain spaced text paid => ?enclosed }
  case paid =>
    obtain ⟨parts, aligned, whole⟩ := parts_of_payload indexed paid
    refine ⟨parts, whole, aligned.length_eq.symm, fun index token there => ?_⟩
    obtain ⟨part, found, stands⟩ := payloadPart_of_getElem? aligned there
    cases stands with
    | id listed => exact .inl ⟨_, listed, rfl, found⟩
    | text unnamed =>
      refine .inr ⟨unnamed, found.trans ?_⟩
      rw [displayParts_at false there, displayPart_unspaced]
  case indifferent =>
    rw [render]
    cases payload catalog tokens <;> rfl
  case spread =>
    refine ⟨_, _, displayParts_at false there, displayParts_at true there, ?_⟩
    rw [displayPart_unspaced]
    exact (displayPart_spaced _ token).imp And.left id
  case solid =>
    have dropped : (!isBlank ' ') = false := by decide
    rw [filter_display dropped, filter_display dropped]
  case enclosed =>
    obtain ⟨parts, aligned, rfl⟩ := parts_of_payload indexed paid
    rw [parens_unwords, ← flatMap_parens_of_forall₂ plain aligned]
    exact filter_display (by decide) spaced tokens

theorem aligned_of_build_ageRange :
    ∃ catalog, Catalog.build [⟨9, "Home City"⟩, ⟨12, "Age"⟩] (.ofList [(12, [.range " 18" "30 "])]) [">"] =
        .ok catalog ∧
      let tokens :=
        [.openParen, .parameter "Age" (some 12), .factor "18-30", .parameter "Home City" (some 9), .factor "18-30",
          .factor "(any)"]
      Aligned catalog tokens ∧ display catalog true tokens = "( Age 18 - 30 Home City 18-30 (any)" ∧
      payload catalog tokens = .ok "( 12 18-30 9 18-30 (any)" ∧
      parens (display catalog true tokens) = parens "( 12 18-30 9 18-30 (any)" ∧
      payload catalog (tokens ++ [.parameter "age" (some 12), .unknown "?"]) = .error (.unresolvedParameter "age") := by
  obtain ⟨catalog, built, plain, displayed, paid, unlisted⟩ : ∃ catalog,
      Catalog.build [⟨9, "Home City"⟩, ⟨12, "Age"⟩] (.ofList [(12, [.range " 18" "30 "])]) [">"] = .ok catalog ∧
      (∀ parameter ∈ catalog.parameters, Reading.Plain parameter.name) ∧
      display catalog true [.openParen, .parameter "Age" (some 12), .factor "18-30", .parameter "Home City" (some 9),
        .factor "18-30", .factor "(any)"] = "( Age 18 - 30 Home City 18-30 (any)" ∧
      payload catalog [.openParen, .parameter "Age" (some 12), .factor "18-30", .parameter "Home City" (some 9),
        .factor "18-30", .factor "(any)"] = .ok "( 12 18-30 9 18-30 (any)" ∧
      ∀ parameter ∈ catalog.parameters, parameter.name ≠ "age" :=
    ⟨_, rfl, by decide, by decide, by decide, by decide⟩
  have aligned := aligned_of_build built
  refine ⟨catalog, built, aligned _, displayed, paid, (aligned _).enclosed plain true _ paid, ?_⟩
  refine ((aligned _).refused _).mpr ⟨_, .parameter "age" (some 12), [.unknown "?"], rfl, ?_, ?_, rfl⟩
  · intro other member partless
    exact (aligned _).unpaid.mpr ⟨other, member, partless⟩ _ paid
  · exact .unlisted fun parameter listed named => absurd named (unlisted parameter listed)

end Rendering

end Criteria
