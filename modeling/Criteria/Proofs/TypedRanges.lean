import Criteria.Proofs.ExpressionWords
import Criteria.Proofs.LegalSequences
import Criteria.Proofs.RunReading
/-!
Typing a range next to picking it. A picked range has its hyphen between the two bounds and nothing else. A typed one is
brought into normal form, which closes up two words around a hyphen and no longer text, so it is the picked one when the
bounds are single words.
-/

namespace Criteria

namespace Text

/-- Single spaces between the words and none outside, and some word. -/
structure Tidy (text : String) : Prop where
  occupied : text ≠ ""
  collapsed : collapse text = text

theorem Tidy.words_ne_nil {text : String} (tidy : Tidy text) : words text ≠ [] := by
  intro empty
  have blank := tidy.collapsed
  rw [collapse, empty] at blank
  exact tidy.occupied blank.symm

theorem Tidy.isWord_iff {text : String} (tidy : Tidy text) : IsWord text ↔ (words text).length = 1 := by
  constructor
  · intro solid
    rw [words_of_isWord solid, List.length_singleton]
  · intro single
    obtain ⟨word, shape⟩ := List.length_eq_one_iff.mp single
    have same := tidy.collapsed
    rw [collapse, shape, unwords_singleton] at same
    have member : word ∈ words text := shape ▸ List.mem_singleton_self word
    exact same ▸ isWord_of_mem_words member

/-- Two words with a hyphen that stands alone between them. -/
def Spread (text : String) : Prop := ∃ lower upper, IsWord lower ∧ IsWord upper ∧ text = lower ++ " - " ++ upper

theorem unwords_range (lower upper : String) : unwords [lower, "-", upper] = lower ++ " - " ++ upper := by
  rw [unwords_cons_cons, unwords_cons_cons, unwords_singleton, ← String.toList_inj]
  simp

theorem isWord_hyphen : IsWord "-" := by decide

theorem Tidy.spread_iff {text : String} (tidy : Tidy text) :
    Spread text ↔ ∃ lower upper, words text = [lower, "-", upper] := by
  constructor
  · rintro ⟨lower, upper, low, high, rfl⟩
    refine ⟨lower, upper, ?_⟩
    rw [← unwords_range]
    exact Reading.unwords_of_solid (by simp [low, high, isWord_hyphen])
  · rintro ⟨lower, upper, shape⟩
    have solid (word : String) (member : word ∈ [lower, "-", upper]) : IsWord word :=
      isWord_of_mem_words (shape ▸ member)
    refine ⟨lower, upper, solid lower (by simp), solid upper (by simp), ?_⟩
    rw [← unwords_range, ← shape]
    exact tidy.collapsed.symm

theorem spread_ne_closed (lower upper : String) : lower ++ " - " ++ upper ≠ lower ++ "-" ++ upper := by
  intro same
  have lengths := congrArg String.length same
  have spread : " - ".length = 3 := rfl
  have closed : "-".length = 1 := rfl
  simp only [String.length_append, spread, closed] at lengths
  omega

theorem IsWord.hyphen {lower upper : String} (low : IsWord lower) (high : IsWord upper) :
    IsWord (lower ++ "-" ++ upper) := by
  have letters : (lower ++ "-" ++ upper).toList = lower.toList ++ '-' :: upper.toList := by simp
  rw [IsWord, letters]
  refine ⟨by simp, ?_⟩
  simp only [List.forall_mem_append, List.forall_mem_cons]
  exact ⟨low.2, by decide, high.2⟩

theorem IsWord.hyphen_ne {lower upper : String} (low : IsWord lower) : lower ++ "-" ++ upper ≠ "-" := by
  intro same
  have letters := congrArg String.toList same
  rw [String.toList_append, String.toList_append, List.append_assoc] at letters
  have lengths := congrArg List.length letters
  have occupied := List.length_pos_iff.mpr low.1
  have single : "-".toList.length = 1 := rfl
  rw [List.length_append, List.length_append, single] at lengths
  omega

theorem append_cons_eq_range_iff {before later : List String} {word : String} (other : word ≠ "-") :
    (∃ lower upper, before ++ word :: later = [lower, "-", upper]) ↔
      before = [] ∧ (∃ upper, later = ["-", upper]) ∨ (∃ lower, before = [lower, "-"]) ∧ later = [] := by
  rcases before with _ | ⟨a, _ | ⟨b, before⟩⟩
  · simp
  · simp [other]
  · simp [List.append_eq_singleton_iff, and_assoc]

theorem trimBlank_of_ends {cs : List Char} (starts : ∀ c ∈ cs.head?, isBlank c = false)
    (ends : ∀ c ∈ cs.getLast?, isBlank c = false) : trimBlank cs = cs := by
  have kept {cs : List Char} (starts : ∀ c ∈ cs.head?, isBlank c = false) : cs.dropWhile isBlank = cs := by
    cases cs with
    | nil => rfl
    | cons c cs => rw [List.dropWhile_cons_of_neg (by simp [starts c rfl])]
  rw [trimBlank, kept starts, kept (by simpa using ends), List.reverse_reverse]

/-- There is nothing to trim. -/
theorem Tidy.trim_eq {text : String} (tidy : Tidy text) : trim text = text := by
  have whole : unwords (words text) = text := tidy.collapsed
  have solid {word : String} (member : word ∈ words text) := isWord_of_mem_words member
  rw [← whole, trim, trimBlank_of_ends, String.ofList_toList]
  · obtain ⟨first, later, shape⟩ := List.exists_cons_of_ne_nil tidy.words_ne_nil
    have word : IsWord first := solid (shape ▸ List.mem_cons_self)
    obtain ⟨tail, begins⟩ : ∃ tail, unwords (first :: later) = first ++ tail := by
      cases later with
      | nil => exact ⟨"", by rw [unwords_singleton, String.append_empty]⟩
      | cons next later => exact ⟨_, by rw [unwords_cons_cons, String.append_assoc]⟩
    intro c inside
    rw [shape, begins, String.toList_append, List.head?_append_of_ne_nil _ word.1] at inside
    exact word.2 c (List.mem_of_mem_head? inside)
  · obtain ⟨earlier, last, shape⟩ := (List.eq_nil_or_concat' (words text)).resolve_left tidy.words_ne_nil
    have word : IsWord last := solid (by simp [shape])
    obtain ⟨front, ends⟩ : ∃ front, unwords (earlier ++ [last]) = front ++ last := by
      by_cases empty : earlier = []
      · exact ⟨"", by rw [empty, List.nil_append, unwords_singleton, String.empty_append]⟩
      · exact ⟨_, by rw [unwords_append empty (List.cons_ne_nil _ _), unwords_singleton]⟩
    intro c inside
    rw [shape, ends, String.toList_append, List.getLast?_append_of_ne_nil _ word.1] at inside
    exact word.2 c (List.mem_of_mem_getLast? inside)

end Text

namespace Reading

open Text

theorem closeRange_spread {lower upper : List Char} (low : lower ≠ []) (high : upper ≠ [])
    (solidLow : ∀ c ∈ lower, isBlank c = false) (solidHigh : ∀ c ∈ upper, isBlank c = false) :
    closeRange (lower ++ ' ' :: '-' :: ' ' :: upper) = lower ++ '-' :: upper := by
  have passed : ∀ c ∈ lower, (!isBlank c) = true := fun c inside => by simp [solidLow c inside]
  have reached : upper.dropWhile isBlank = upper := by
    cases upper with
    | nil => rfl
    | cons c upper => rw [List.dropWhile_cons_of_neg (by simp [solidHigh c List.mem_cons_self])]
  have all : upper.all (!isBlank ·) = true := List.all_eq_true.mpr fun c inside => by simp [solidHigh c inside]
  simp [closeRange, List.takeWhile_append_of_pos passed, List.dropWhile_append_of_pos passed, reached, low, high, all,
    isBlank_space, show isBlank '-' = false by decide]

/-- The normal form closes up a range of two words. -/
theorem normalizeFactor_range {lower upper : String} (low : IsWord lower) (high : IsWord upper) :
    normalizeFactor (lower ++ " - " ++ upper) = lower ++ "-" ++ upper := by
  have collapsed : collapse (lower ++ " - " ++ upper) = lower ++ " - " ++ upper := by
    rw [← unwords_range, collapse, unwords_of_solid (by simp [low, high, isWord_hyphen])]
  have shape : (lower ++ " - " ++ upper).toList = lower.toList ++ ' ' :: '-' :: ' ' :: upper.toList := by simp
  rw [normalizeFactor, collapsed, shape, closeRange_spread low.1 high.1 low.2 high.2, ← String.toList_inj]
  simp

theorem normalizeFactor_eq_self_iff {run : List String} (solid : ∀ word ∈ run, IsWord word) :
    normalizeFactor (unwords run) = unwords run ↔ ¬ ∃ lower upper, run = [lower, "-", upper] := by
  constructor
  · rintro same ⟨lower, upper, rfl⟩
    rw [unwords_range, normalizeFactor_range (solid lower (by simp)) (solid upper (by simp))] at same
    exact spread_ne_closed lower upper same.symm
  · intro other
    rcases normalizeFactor_unwords solid with same | ⟨lower, upper, shape, _⟩
    · exact same
    · exact absurd ⟨lower, upper, shape⟩ other

section Bounds

variable {lower upper : String} (low : Tidy lower) (high : Tidy upper)
include low high

/-- With spaces, a range is closed up between single words only. -/
theorem normalizeFactor_spread :
    IsWord lower ∧ IsWord upper ∧ normalizeFactor (lower ++ " - " ++ upper) = lower ++ "-" ++ upper ∨
      ¬ (IsWord lower ∧ IsWord upper) ∧ normalizeFactor (lower ++ " - " ++ upper) = lower ++ " - " ++ upper := by
  by_cases single : IsWord lower ∧ IsWord upper
  · exact .inl ⟨single.1, single.2, normalizeFactor_range single.1 single.2⟩
  · refine .inr ⟨single, ?_⟩
    have whole : lower ++ " - " ++ upper = unwords (words lower ++ "-" :: words upper) := by
      rw [unwords_append low.words_ne_nil (List.cons_ne_nil _ _), ← List.singleton_append,
        unwords_append (List.cons_ne_nil _ _) high.words_ne_nil, unwords_singleton]
      change _ = collapse lower ++ " " ++ ("-" ++ " " ++ collapse upper)
      rw [low.collapsed, high.collapsed, ← String.toList_inj]
      simp
    have solid : ∀ word ∈ words lower ++ "-" :: words upper, IsWord word := by
      simp only [List.forall_mem_append, List.forall_mem_cons]
      exact ⟨fun _ => isWord_of_mem_words, isWord_hyphen, fun _ => isWord_of_mem_words⟩
    rw [whole, normalizeFactor_eq_self_iff solid]
    rintro ⟨first, last, shape⟩
    have few := congrArg List.length shape
    have some_low := List.length_pos_iff.mpr low.words_ne_nil
    have some_high := List.length_pos_iff.mpr high.words_ne_nil
    simp only [List.length_append, List.length_cons, List.length_nil] at few
    exact single ⟨low.isWord_iff.mpr (by omega), high.isWord_iff.mpr (by omega)⟩

theorem normalizeFactor_spread_iff :
    normalizeFactor (lower ++ " - " ++ upper) = lower ++ "-" ++ upper ↔ IsWord lower ∧ IsWord upper := by
  rcases normalizeFactor_spread low high with ⟨oneLow, oneHigh, closed⟩ | ⟨other, kept⟩
  · exact iff_of_true closed ⟨oneLow, oneHigh⟩
  · exact iff_of_false (fun same => spread_ne_closed lower upper (kept.symm.trans same)) other

/-- Without spaces, a range is left alone unless one bound is a word and the other a range with spaces. -/
theorem normalizeFactor_closed :
    normalizeFactor (lower ++ "-" ++ upper) = lower ++ "-" ++ upper ↔
      ¬ (IsWord lower ∧ Spread upper ∨ Spread lower ∧ IsWord upper) := by
  obtain ⟨before, last, left⟩ := (List.eq_nil_or_concat' (words lower)).resolve_left low.words_ne_nil
  obtain ⟨first, later, right⟩ := List.exists_cons_of_ne_nil high.words_ne_nil
  have whole : lower ++ "-" ++ upper = unwords (before ++ (last ++ "-" ++ first) :: later) := by
    rw [← unwords_append_joined, ← left, ← right]
    exact congrArg₂ (· ++ "-" ++ ·) low.collapsed.symm high.collapsed.symm
  have solidLow {word : String} (member : word ∈ before ++ [last]) : IsWord word := isWord_of_mem_words (left ▸ member)
  have solidHigh {word : String} (member : word ∈ first :: later) : IsWord word := isWord_of_mem_words (right ▸ member)
  have solid : ∀ word ∈ before ++ (last ++ "-" ++ first) :: later, IsWord word := by
    simp only [List.forall_mem_append, List.forall_mem_cons]
    exact ⟨fun word member => solidLow (by simp [member]), (solidLow (by simp)).hyphen (solidHigh (by simp)),
      fun word member => solidHigh (by simp [member])⟩
  have oneLow : (before ++ [last]).length = 1 ↔ before = [] := by simp
  have oneHigh : (first :: later).length = 1 ↔ later = [] := by simp
  have rangeLow : (∃ lower upper, before ++ [last] = [lower, "-", upper]) ↔ ∃ lower, before = [lower, "-"] := by
    constructor
    · rintro ⟨lower, upper, shape⟩
      exact ⟨lower, (List.append_inj' (shape.trans (List.append_cons [lower] "-" [upper])) rfl).1⟩
    · rintro ⟨lower, rfl⟩
      exact ⟨lower, last, rfl⟩
  have rangeHigh : (∃ lower upper, first :: later = [lower, "-", upper]) ↔ ∃ upper, later = ["-", upper] := by simp
  rw [whole, normalizeFactor_eq_self_iff solid, not_iff_not, low.isWord_iff, high.isWord_iff, low.spread_iff,
    high.spread_iff, left, right, oneLow, oneHigh, rangeLow, rangeHigh]
  exact append_cons_eq_range_iff (solidLow (by simp)).hyphen_ne

end Bounds

end Reading

namespace FactorDef

open Text

variable {lower upper : String}

theorem upper?_range (high : Tidy upper) : (range lower upper).upper? = some upper := by
  have given : upper.isEmpty = false := by simpa using high.occupied
  simp [upper?, range, high.trim_eq, Option.filter_some, given]

theorem spaced_range (low : Tidy lower) (high : Tidy upper) :
    (range lower upper).spaced = lower ++ " - " ++ upper := by
  rw [spaced, upper?_range high, range, low.trim_eq]

theorem canonical_range (low : Tidy lower) (high : Tidy upper) :
    (range lower upper).canonical = lower ++ "-" ++ upper := by
  rw [canonical, upper?_range high, range, low.trim_eq]

end FactorDef

namespace Rendering

open Text

variable {catalog : Catalog} {tokens : List Token}

theorem payloadParts_cons_eq_accepted {start : Nat} {token : Token} {parts : List String} :
    payloadParts catalog start (token :: tokens) = .ok parts ↔
      ∃ part later, payloadPart catalog start token = .ok part ∧
        payloadParts catalog (start + 1) tokens = .ok later ∧ parts = part :: later := by
  rw [payloadParts]
  cases payloadPart catalog start token with
  | error error => simp [bind, Except.bind]
  | ok part => cases payloadParts catalog (start + 1) tokens <;> simp [bind, Except.bind, pure, Except.pure, eq_comm]

theorem payloadParts_concat_factor {start : Nat} {parts : List String} (value : String)
    (paid : payloadParts catalog start tokens = .ok parts) :
    payloadParts catalog start (tokens ++ [.factor value]) = .ok (parts ++ [value]) := by
  induction tokens generalizing start parts with
  | nil =>
    cases paid
    rfl
  | cons token rest ih =>
    obtain ⟨part, later, first, others, rfl⟩ := payloadParts_cons_eq_accepted.mp paid
    exact payloadParts_cons_eq_accepted.mpr ⟨part, later ++ [value], first, ih others, rfl⟩

theorem payload_concat_factor (nonempty : tokens ≠ []) {text : String} (value : String)
    (paid : payload catalog tokens = .ok text) :
    payload catalog (tokens ++ [.factor value]) = .ok (text ++ " " ++ value) := by
  cases read : payloadParts catalog 0 tokens with
  | error error =>
    rw [payload, read] at paid
    cases paid
  | ok parts =>
    obtain ⟨token, rest, rfl⟩ := List.exists_cons_of_ne_nil nonempty
    obtain ⟨part, later, _, _, rfl⟩ := payloadParts_cons_eq_accepted.mp read
    rw [payload, read] at paid
    obtain rfl := Except.ok.inj paid
    rw [payload, payloadParts_concat_factor value read, Except.map,
      unwords_append (List.cons_ne_nil _ _) (List.cons_ne_nil _ _), unwords_singleton]

end Rendering

namespace Session

open Text Reading

variable {session : Session} {symbol : String} (ends : session.tokens.getLast? = some (.operator symbol))
include ends

theorem factor_legal_of_operator : session.snapshot.legalNext.contains .factor = true := by
  refine GrammarPosition.factor_legal.mpr (.inl ?_)
  simp [Grammar.position, GrammarState.ofTail, ends, GrammarState.afterKind, Token.kind]

theorem append_factor {value : String} (nonblank : words value ≠ []) :
    session.append .factor value = (session.push (.factor (normalizeFactor value))).accepted := by
  refine append_eq_accepted.mpr ⟨by decide, factor_legal_of_operator ends, _, ?_, rfl⟩
  simp only [resolve, isEmpty_trim nonblank, normalizeFactor_trim]
  rfl

/-- Behind an operator, a range can be typed in either spelling and can be picked. The spelling with spaces is the same
as picking it between single words, and is left as it is otherwise. The spelling without is taken for a range of two
words when one bound is a range itself. -/
theorem append_range {lower upper : String} (low : Tidy lower) (high : Tidy upper) :
    let range := FactorDef.range lower upper
    ∃ spaced closed picked : Session, session.append .factor range.spaced = spaced.accepted ∧
      session.append .factor range.canonical = closed.accepted ∧ session.appendFactor range = picked.accepted ∧
      (spaced = picked → closed = picked) ∧ (spaced = picked ↔ IsWord lower ∧ IsWord upper) ∧
      (spaced ≠ picked → spaced = session.push (.factor (lower ++ " - " ++ upper))) ∧
      (closed = picked ↔ ¬ (IsWord lower ∧ Spread upper ∨ Spread lower ∧ IsWord upper)) ∧
      picked = session.push (.factor (lower ++ "-" ++ upper)) ∧
      ∀ value text, Rendering.payload session.catalog session.tokens = .ok text →
        (session.push (.factor value)).outcome.payload = some (text ++ " " ++ value) := by
  intro range
  have spelled : range.spaced = lower ++ " - " ++ upper := FactorDef.spaced_range low high
  have written : range.canonical = lower ++ "-" ++ upper := FactorDef.canonical_range low high
  have occupied (hyphen : String) : words (lower ++ hyphen ++ upper) ≠ [] := by
    rw [words_ne_nil_iff]
    obtain ⟨c, inside, solid⟩ := words_ne_nil_iff.mp low.words_ne_nil
    exact ⟨c, by simp [inside], solid⟩
  refine ⟨_, _, _, append_factor ends (spelled ▸ occupied " - "), append_factor ends (written ▸ occupied "-"),
    appendFactor_eq_accepted.mpr ⟨factor_legal_of_operator ends, rfl⟩, ?_, ?_, ?_, ?_, by rw [written], ?_⟩
  · rw [push_inj, push_inj, spelled, written, Token.factor.injEq, Token.factor.injEq]
    intro same
    obtain ⟨oneLow, oneHigh⟩ := (normalizeFactor_spread_iff low high).mp same
    exact normalizeFactor_of_isWord (oneLow.hyphen oneHigh)
  · rw [push_inj, spelled, written, Token.factor.injEq]
    exact normalizeFactor_spread_iff low high
  · rw [ne_eq, push_inj, push_inj, spelled, written, Token.factor.injEq, Token.factor.injEq]
    intro different
    exact ((normalizeFactor_spread low high).resolve_left fun ⟨_, _, closed⟩ => different closed).2
  · rw [push_inj, written, Token.factor.injEq]
    exact normalizeFactor_closed low high
  · intro value text paid
    have nonempty : session.tokens ≠ [] := by
      intro empty
      rw [empty] at ends
      cases ends
    exact congrArg Except.toOption (Rendering.payload_concat_factor nonempty value paid)

omit ends in
/-- Both bounds are one word, so typing the range in either spelling is picking it. -/
theorem append_range_years :
    ∃ catalog, Catalog.build [⟨12, "Age"⟩] (.ofList [(12, [.range "20" "30"])]) ["In"] = .ok catalog ∧
      let session := (new catalog true).run [.append .parameter "Age", .append .operator "in"]
      ∃ next : Session, session.append .factor "20 - 30" = next.accepted ∧ session.append .factor "20-30" = next.accepted ∧
        session.appendFactor (.range "20" "30") = next.accepted ∧ next.display = "Age In 20 - 30" ∧
        next.outcome.payload = some "12 In 20-30" := by
  obtain ⟨catalog, built, ends, paid, shown⟩ : ∃ catalog,
      Catalog.build [⟨12, "Age"⟩] (.ofList [(12, [.range "20" "30"])]) ["In"] = .ok catalog ∧
      let session := (new catalog true).run [.append .parameter "Age", .append .operator "in"]
      session.tokens.getLast? = some (.operator "In") ∧
        Rendering.payload session.catalog session.tokens = .ok "12 In" ∧
        (session.push (.factor "20-30")).display = "Age In 20 - 30" :=
    ⟨_, rfl, by decide, by decide, by decide⟩
  have words : IsWord "20" ∧ IsWord "30" := by decide
  have tidy : collapse "20" = "20" ∧ collapse "30" = "30" := by decide
  obtain ⟨spaced, closed, picked, spread, typed, chosen, alike, iff, _, _, same, priced⟩ :=
    append_range ends ⟨by decide, tidy.1⟩ ⟨by decide, tidy.2⟩
  obtain rfl := iff.mpr words
  obtain rfl := alike rfl
  exact ⟨catalog, built, _, spread, typed, chosen, same ▸ shown, same ▸ priced _ _ paid⟩

omit ends in
/-- Typed with spaces, a range with a bound of two words keeps them in the payload. Opening the display again takes them
out. -/
theorem append_range_cities :
    ∃ catalog, Catalog.build [⟨12, "Route"⟩] (.ofList [(12, [.range "New York" "Boston"])]) ["In"] = .ok catalog ∧
      let range := FactorDef.range "New York" "Boston"
      let session := (new catalog false).run [.append .parameter "Route", .append .operator "In"]
      Tidy "New York" ∧ Tidy "Boston" ∧ Grammar.activeFactors catalog session.tokens = [range] ∧
      ∃ typed picked : Session, session.append .factor range.spaced = typed.accepted ∧ session.appendFactor range = picked.accepted ∧
        typed.finalize = .ok ⟨"Route In New York - Boston", "12 In New York - Boston"⟩ ∧
        picked.finalize = .ok ⟨"Route In New York-Boston", "12 In New York-Boston"⟩ ∧
        (load catalog false "Route In New York - Boston").finalize = picked.finalize :=
  ⟨_, rfl, ⟨by decide, by decide⟩, ⟨by decide, by decide⟩, by decide, _, _, rfl, rfl, by decide, by decide,
    by decide +kernel⟩

end Session

end Criteria
