import Criteria.Proofs.DisplayReading
import Criteria.Proofs.ReachableSessions
/-!
Saving an expression and opening it again. The factors of a session that its catalog keeps apart are read back as they
are, and so the display of a session gives the session back.
-/

namespace Criteria

theorem FactorDef.hyphen_mem_spaced {factor : FactorDef} (range : factor.isRange = true) :
    '-' ∈ factor.spaced.toList := by
  obtain ⟨upper, found⟩ := Option.isSome_iff_exists.mp range
  rw [spaced, found]
  simp

namespace Reading

open Text Grammar

theorem expressionWords_ne_nil {text : String} {c : Char} (inside : c ∈ text.toList) (solid : isBlank c = false) :
    expressionWords text ≠ [] := by
  have kept : c ∈ text.toList.flatMap setApart := by
    refine List.mem_flatMap.mpr ⟨c, inside, ?_⟩
    unfold setApart
    split <;> simp
  exact words_ne_nil_iff.mpr ⟨c, by rwa [String.toList_ofList], solid⟩

variable {catalog : Catalog} {spaced : Bool}

/-- A factor is read whole, as the catalog's or as a text of its own. -/
theorem readsBack_of_readable (indexed : catalog.Indexed) (unambiguous : catalog.Unambiguous)
    {parameter : ParameterDef} (known : parameter ∈ catalog.parameters) {value : String}
    (readable : Readable catalog parameter.token value) :
    ReadsBack catalog spaced parameter.token value value := by
  intro symbol earlier remaining ends
  have listed {spelling : List String} (nonempty : spelling ≠ [])
      (member : (spelling, value) ∈ forms catalog parameter.token) :
      ∃ piece, ReadAs (.factor value) piece ∧
        scanFrom catalog (.operator symbol :: parameter.token :: earlier) 0 (spelling ++ remaining) =
          scanFrom catalog (piece.reverse ++ .operator symbol :: parameter.token :: earlier) 0 remaining :=
    ⟨_, .itself _, scan_listed (unambiguous.formsApart parameter known) rfl nonempty member remaining⟩
  have mem_forms {factor : FactorDef} (offered : factor ∈ factorsOf catalog parameter.token) {spelling : List String}
      (form : (spelling, value) ∈ factorForms factor) : (spelling, value) ∈ forms catalog parameter.token :=
    List.mem_flatMap.mpr ⟨factor, offered, form⟩
  rcases Rendering.displayPart_factor catalog spaced (some parameter.token) value with
    asItself | ⟨subject, governs, factor, offered, range, rfl, asRange⟩
  · rw [asItself]
    cases readable with
    | listed offered nonblank =>
      obtain ⟨c, inside, solid⟩ := words_ne_nil_iff.mp nonblank
      exact listed (expressionWords_ne_nil inside solid) (mem_forms offered (by simp [factorForms]))
    | free text =>
      rw [expressionWords_of_plain text.plain]
      exact scan_free indexed unambiguous.separate text rfl ends
  · -- The range is offered by the catalog, whatever the value was given as.
    obtain rfl := Option.some.inj governs
    rw [asRange]
    exact listed (expressionWords_ne_nil (FactorDef.hyphen_mem_spaced range) (by decide))
      (mem_forms offered (by simp [factorForms]))

theorem parse_display (indexed : catalog.Indexed) (unambiguous : catalog.Unambiguous) {tokens : List Token}
    (legal : Legal catalog tokens) (written : ∀ token ∈ tokens, catalog.Writes token)
    (readable : ∀ before value after subject, tokens = before ++ .factor value :: after →
      governing? before = some subject → Readable catalog subject value) :
    parse catalog (Rendering.display catalog spaced tokens) = tokens := by
  rw [parse_display_respelled indexed unambiguous.separate legal written, Token.respell_id, List.map_id]
  intro before value after parameter known same governs
  exact readsBack_of_readable indexed unambiguous known (readable before value after _ same governs)

end Reading

namespace Session

theorem ambiguities_of_written {session : Session} (written : session.Written) : session.ambiguities = [] := by
  apply List.eq_nil_iff_forall_not_mem.mpr
  intro ⟨index, text⟩ member
  obtain ⟨offset, _, found⟩ := Reading.mem_ambiguitiesFrom.mp member
  exact (written _ (List.mem_of_getElem? found)).known rfl

theorem load_display {session : Session} (indexed : session.catalog.Indexed)
    (unambiguous : session.catalog.Unambiguous) (legal : Grammar.Legal session.catalog session.tokens)
    (written : session.Written)
    (readable : ∀ before value after subject, session.tokens = before ++ .factor value :: after →
      Grammar.governing? before = some subject → Reading.Readable session.catalog subject value) (again : Bool) :
    load session.catalog again session.display = { session with spaced := again } := by
  unfold load display
  rw [Reading.parse_display indexed unambiguous legal written readable]

/-- A session that was edited from a blank form is found again in its own display, whether or not ranges are to be
displayed with spaces afterwards, and nothing in it is unknown. -/
theorem load_display_run {parameters : List ParameterDef} {factors : FactorTable} {operators : List String}
    {catalog : Catalog} (built : Catalog.build parameters factors operators = .ok catalog)
    (unambiguous : catalog.Unambiguous) (spaced again : Bool) {edits : List Edit}
    (typed : ∀ token, Edit.appendToken token ∉ edits)
    (readable : ∀ before value after subject,
      ((new catalog spaced).run edits).tokens = before ++ .factor value :: after →
        Grammar.governing? before = some subject → Reading.Readable catalog subject value) :
    let session := (new catalog spaced).run edits
    let reopened := load catalog again session.display
    reopened = { session with spaced := again } ∧ reopened.ambiguities = [] := by
  have indexed := Catalog.indexed_of_build built
  have blank : (new catalog spaced).Written := fun token member => absurd member List.not_mem_nil
  have written := written_run indexed blank typed
  have legal : Grammar.Legal catalog ((new catalog spaced).run edits).tokens :=
    legal_run (catalog_opened catalog spaced none) (legal_opened catalog spaced none) edits
  have same : ((new catalog spaced).run edits).catalog = catalog := catalog_run (new catalog spaced) edits
  dsimp only
  generalize (new catalog spaced).run edits = session at written legal same readable ⊢
  clear blank
  subst same
  have found := load_display indexed unambiguous legal written readable again
  rw [found]
  exact ⟨rfl, ambiguities_of_written written⟩

private def loanForm : Except CatalogError Catalog :=
  Catalog.build [⟨7, "Salary"⟩, ⟨12, "City"⟩, ⟨11, "Loan"⟩]
    (.ofList [(7, [.range "20" "30", .single "Gold OR Silver", .single "Tier (1)"])]) [">", "In  List"]

private def loanEdits : List Edit :=
  [.append .parameter "salary", .append .operator "in list", .append .factor "20 - 30", .append .logicalOperator "and",
    .append .closeParen "", .append .parameter "City", .append .operator ">", .appendFactor (.single "Town"),
    .removeLast, .append .factor "Loan  Town"]

/-- A range of the catalog, a refused parenthesis, a factor that was taken back, and a text that begins as a name. -/
theorem load_display_run_loanForm :
    ∃ catalog, loanForm = .ok catalog ∧ catalog.Unambiguous ∧
      let session := (new catalog true).run loanEdits
      session.display = "Salary In List 20 - 30 AND City > Loan Town" ∧
        load catalog false session.display = { session with spaced := false } ∧
        (load catalog false session.display).ambiguities = [] := by
  have spelled : (FactorDef.range "20" "30").canonical = "20-30" ∧ "Loan" ++ " " ++ "Town" = "Loan Town" := by decide
  obtain ⟨catalog, built, unambiguous, tokens, shown, range, town⟩ : ∃ catalog, loanForm = .ok catalog ∧
      catalog.Unambiguous ∧
      ((new catalog true).run loanEdits).tokens =
        [.parameter "Salary" (some 7), .operator "In List", .factor "20-30", .logicalOperator "AND",
          .parameter "City" (some 12), .operator ">", .factor "Loan Town"] ∧
      ((new catalog true).run loanEdits).display = "Salary In List 20 - 30 AND City > Loan Town" ∧
      Reading.Readable catalog (.parameter "Salary" (some 7)) (FactorDef.range "20" "30").canonical ∧
      Reading.FreeText catalog (.parameter "City" (some 12)) ("Loan" ++ " " ++ "Town") := by
    refine ⟨_, rfl, ⟨by decide, by decide, by decide, by decide, by decide⟩, by decide, by decide,
      .listed (by decide) (by decide), ⟨by decide, by decide, by decide, ?_⟩⟩
    refine @Reading.OneFactor.begun _ _ ⟨11, "Loan"⟩ "Town" (by decide) ?_
    exact ⟨by decide, by decide, by decide, .inr (by decide)⟩
  rw [spelled.1] at range
  rw [spelled.2] at town
  refine ⟨catalog, built, unambiguous, shown, load_display_run built unambiguous true false (by simp [loanEdits]) ?_⟩
  intro before value after subject same governs
  simp only [tokens, List.cons_eq_append_iff, List.cons.injEq, reduceCtorEq, false_and, and_false, Token.factor.injEq,
    List.nil_eq, List.append_eq_nil_iff, exists_const, or_false, ↓existsAndEq, true_and, false_or] at same
  obtain ⟨clause, rfl, ⟨rfl, rfl, _⟩ | ⟨rfl, rfl, _⟩⟩ := same
  · cases governs
    exact range
  · cases governs
    exact .free town

end Session

end Criteria
