import Criteria.Proofs.LegalSequences
import Criteria.Proofs.SessionSteps
/-!
Sessions after any run of edits. Whatever text a session is opened on and whatever is tried in it, its tokens stay
legal, and unknown tokens are only those of the opened text that were never removed.
-/

namespace Criteria

namespace Reading

theorem mem_ambiguitiesFrom {start index : Nat} {text : String} {tokens : List Token} :
    ⟨index, text⟩ ∈ ambiguitiesFrom start tokens ↔
      ∃ offset, index = start + offset ∧ tokens[offset]? = some (.unknown text) := by
  induction tokens generalizing start with
  | nil => simp [ambiguitiesFrom]
  | cons token rest ih =>
    -- The first place is split off, so the rest begins one further on.
    have places : (∃ offset, index = start + offset ∧ (token :: rest)[offset]? = some (.unknown text)) ↔
        (index = start ∧ token = .unknown text) ∨
          ∃ offset, index = start + 1 + offset ∧ rest[offset]? = some (.unknown text) := by
      constructor
      · rintro ⟨_ | offset, same, found⟩
        · exact .inl ⟨same, by simpa using found⟩
        · exact .inr ⟨offset, by omega, by simpa using found⟩
      · rintro (⟨same, found⟩ | ⟨offset, same, found⟩)
        · exact ⟨0, same, by simpa using found⟩
        · exact ⟨offset + 1, by omega, by simpa using found⟩
    rw [places, ← ih]
    cases token with
    | unknown other => simp [ambiguitiesFrom, eq_comm]
    | parameter | factor | operator | logicalOperator | openParen | closeParen => simp [ambiguitiesFrom]

theorem ambiguitiesFrom_ascend (start : Nat) (tokens : List Token) :
    (ambiguitiesFrom start tokens).Pairwise fun first second => first.index < second.index := by
  induction tokens generalizing start with
  | nil => exact .nil
  | cons token rest ih =>
    cases token with
    | unknown text =>
      apply List.pairwise_cons.mpr
      refine ⟨?_, ih (start + 1)⟩
      intro ⟨index, later⟩ member
      obtain ⟨offset, same, _⟩ := mem_ambiguitiesFrom.mp member
      show start < index
      omega
    | parameter | factor | operator | logicalOperator | openParen | closeParen => exact ih (start + 1)

end Reading

namespace Session

/-- A session for a blank form, or for the text that was saved. -/
def opened (catalog : Catalog) (spaced : Bool) : Option String → Session
  | none => new catalog spaced
  | some text => load catalog spaced text

/-- How many of the tokens that a run starts with stay in place throughout it. -/
def leftover (session : Session) : List Edit → Nat
  | [] => session.tokens.length
  | edit :: rest => min session.tokens.length ((session.next edit).leftover rest)

theorem leftover_le_length (session : Session) (edits : List Edit) :
    session.leftover edits ≤ session.tokens.length := by
  cases edits with
  | nil => exact Nat.le_refl _
  | cons edit rest => exact Nat.min_le_left _ _

variable {before after : Session}

theorem Step.keeps_legal (step : Step before after) (legal : Grammar.Legal before.catalog before.tokens) :
    Grammar.Legal after.catalog after.tokens := by
  cases step with
  | unchanged => exact legal
  | pushed token known allowed => exact Grammar.legal_concat.mpr ⟨legal, fun _ => allowed⟩
  | removed =>
    show Grammar.Legal before.catalog before.tokens.dropLast
    rw [List.dropLast_eq_take]
    exact legal.take _
  | cleared => exact .nil

theorem legal_opened (catalog : Catalog) (spaced : Bool) (saved : Option String) :
    Grammar.Legal catalog (opened catalog spaced saved).tokens := by
  cases saved with
  | none => exact .nil
  | some text =>
    simp only [opened, load]
    exact Grammar.legal_parse catalog text

theorem catalog_opened (catalog : Catalog) (spaced : Bool) (saved : Option String) :
    (opened catalog spaced saved).catalog = catalog := by cases saved <;> rfl

theorem legal_run {catalog : Catalog} {session : Session} (same : session.catalog = catalog)
    (legal : Grammar.Legal catalog session.tokens) (edits : List Edit) :
    Grammar.Legal catalog (session.run edits).tokens := by
  subst same
  rw [← catalog_run session edits]
  exact run_invariant (fun later => Grammar.Legal later.catalog later.tokens) (fun step => step.keeps_legal) legal edits

private theorem Step.same_prefix (step : Step before after) {index : Nat}
    (inBefore : index < before.tokens.length) (inAfter : index < after.tokens.length) :
    after.tokens[index]? = before.tokens[index]? := by
  cases step with
  | unchanged => rfl
  | pushed token _ _ => exact List.getElem?_append_left inBefore
  | removed =>
    have inAfter : index < before.tokens.length - 1 := by simpa [removeLast] using inAfter
    simp [removeLast, inAfter]
  | cleared => simp [reset] at inAfter

/-- What was never removed stands where it stood, and some edit added whatever stands beyond it. -/
theorem run_origin (session : Session) (edits : List Edit) :
    (∀ index < session.leftover edits, (session.run edits).tokens[index]? = session.tokens[index]?) ∧
      ∀ index token, (session.run edits).tokens[index]? = some token → session.leftover edits ≤ index →
        ∃ edit ∈ edits, Adds session.catalog edit token := by
  induction edits generalizing session with
  | nil =>
    refine ⟨fun _ _ => rfl, ?_⟩
    intro index token found beyond
    have found : session.tokens[index]? = some token := found
    simp [List.getElem?_eq_none (show session.tokens.length ≤ index from beyond)] at found
  | cons edit rest ih =>
    have step := session.step_next edit
    have bound := (session.next edit).leftover_le_length rest
    obtain ⟨kept, added⟩ := ih (session.next edit)
    rw [step.catalog_eq] at added
    constructor
    · intro index inside
      have inside := Nat.lt_min.mp inside
      exact (kept index inside.2).trans (step.same_prefix inside.1 (by omega))
    · intro index token found beyond
      by_cases later : (session.next edit).leftover rest ≤ index
      · obtain ⟨other, member, adds⟩ := added index token found later
        exact ⟨other, List.mem_cons_of_mem _ member, adds⟩
      · have beyond : session.tokens.length ≤ index := by
          simp only [leftover] at beyond
          omega
        have place : ((session.next edit).run rest).tokens[index]? = (session.next edit).tokens[index]? :=
          kept index (by omega)
        exact ⟨edit, List.mem_cons_self, adds_of_next (place ▸ found) beyond⟩

theorem run_leftover (session : Session) (edits : List Edit) :
    (∀ index < session.leftover edits, (session.run edits).tokens[index]? = session.tokens[index]?) ∧
      ∀ index token, (session.run edits).tokens[index]? = some token → session.leftover edits ≤ index →
        token.kind ≠ .unknown := by
  obtain ⟨kept, added⟩ := session.run_origin edits
  refine ⟨kept, fun index token found beyond => ?_⟩
  obtain ⟨edit, _, adds⟩ := added index token found beyond
  exact adds.known

/-- Every reachable session is grammatical: known tokens are legal after their prefix, parentheses never close more
than was opened and the depth is their exact difference, and unknown tokens are leftovers of the opened text, which
the ambiguities list in order. -/
theorem reachable_grammatical (catalog : Catalog) (spaced : Bool) (saved : Option String) (edits : List Edit) :
    let initial := opened catalog spaced saved
    let session := initial.run edits
    (∀ index token, session.tokens[index]? = some token → token.kind ≠ .unknown →
      (Grammar.analyze catalog (session.tokens.take index)).legalNext.contains token.kind = true) ∧
    Grammar.violations catalog session.tokens = [] ∧
    (∀ count, Grammar.closes (session.tokens.take count) ≤ Grammar.opens (session.tokens.take count) ∧
      Grammar.parenDepth (session.tokens.take count) =
        Grammar.opens (session.tokens.take count) - Grammar.closes (session.tokens.take count)) ∧
    session.snapshot.depth = Grammar.opens session.tokens - Grammar.closes session.tokens ∧
    (∀ index, session.tokens[index]? = some .closeParen → 0 < Grammar.parenDepth (session.tokens.take index)) ∧
    (∀ index < initial.leftover edits, session.tokens[index]? = initial.tokens[index]?) ∧
    (∀ index text, session.tokens[index]? = some (.unknown text) → index < initial.leftover edits) ∧
    (∀ index text, ⟨index, text⟩ ∈ session.ambiguities ↔ session.tokens[index]? = some (.unknown text)) ∧
    session.ambiguities.Pairwise (fun first second => first.index < second.index) := by
  intro initial session
  have legal : Grammar.Legal catalog session.tokens :=
    legal_run (catalog_opened ..) (legal_opened catalog spaced saved) edits
  have balance (count : Nat) := (legal.take count).depth_add_closes
  obtain ⟨kept, known⟩ := run_leftover initial edits
  refine ⟨fun index token found => legal.at_index found, Grammar.violations_eq_nil.mpr legal, fun count => ?_, ?_,
    fun index found => ?_, kept, fun index text found => ?_, fun index text => ?_,
    Reading.ambiguitiesFrom_ascend 0 session.tokens⟩
  · have exact_depth := balance count
    omega
  · have exact_depth := legal.depth_add_closes
    show Grammar.parenDepth session.tokens = _
    omega
  · exact (GrammarPosition.closeParen_legal.mp (legal.at_index found (by simp [Token.kind]))).1
  · exact Nat.lt_of_not_le fun beyond => known index _ found beyond rfl
  · rw [ambiguities, Reading.ambiguities, Reading.mem_ambiguitiesFrom]
    simp

end Session

end Criteria
