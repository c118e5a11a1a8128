import Criteria.Proofs.ReachableSessions
import Criteria.Proofs.TextConservation
import Criteria.Proofs.TokenPasses
import Mathlib.Data.List.Nodup
/-!
Tokens in the catalog's own spelling, wherever they come from. Reading a text gives names, operators and logical
operators as the catalog has them and factors that are not blank, through every pass, and so does typing. A name that
the catalog does not know has no id, and it comes from an opened text only.
-/

namespace Criteria

open Text

namespace Catalog

variable {catalog : Catalog}

/-- What the catalog writes, a factor not being blank. -/
structure Spells (catalog : Catalog) (token : Token) : Prop where
  written : catalog.Writes token
  solid : ∀ value, token = .factor value → Nonblank value

theorem spells_factor {value : String} (solid : Nonblank value) : catalog.Spells (.factor value) where
  written := .factor value
  solid := fun _ same => Token.factor.inj same ▸ solid

theorem spells_of_not_factor {token : Token} (written : catalog.Writes token) (apart : token.kind ≠ .factor) :
    catalog.Spells token where
  written := written
  solid := fun _ same => absurd rfl (same ▸ apart)

/-- The tokens of a session: spelled by the catalog, a parameter that the catalog does not know, or unknown. -/
inductive Canonical (catalog : Catalog) : Token → Prop where
  | spelled {token} (spells : catalog.Spells token) : Canonical catalog token
  | unlisted {name} (missing : catalog.findParameter? name = none) : Canonical catalog (.parameter name none)
  | unknown (text : String) : Canonical catalog (.unknown text)

theorem canonical_factor {value : String} : catalog.Canonical (.factor value) ↔ Nonblank value := by
  constructor
  · intro canonical
    cases canonical with
    | spelled spells => exact spells.solid value rfl
  · exact fun solid => .spelled (spells_factor solid)

end Catalog

namespace Reading

open Catalog

variable {catalog : Catalog}

theorem nonblank_normalizeFactor {text : String} (solid : Nonblank text) : Nonblank (normalizeFactor text) := by
  rw [← fold_ne_nil_iff, fold_normalizeFactor]
  exact fold_ne_nil_iff.mpr solid

theorem nonblank_name (indexed : catalog.Indexed) {parameter : ParameterDef} (listed : parameter ∈ catalog.parameters) :
    Nonblank parameter.name :=
  words_ne_nil_iff.mp (words_ne_nil_of_key (indexed.key_name_ne_nil listed))

theorem spells_factorPart (part : List Char) : ∀ token ∈ factorPart part, catalog.Spells token := by
  intro token member
  simp only [factorPart] at member
  split at member
  · cases member
  next occupied =>
    rw [List.mem_singleton.mp member]
    exact spells_factor (nonblank_normalizeFactor (nonblank_trimBlank (by simpa using occupied)))

/-- A cut leaves the logical operator in capitals, however it was typed. -/
theorem logical_of_isLogicalWord {block : List Char} (logical : isLogicalWord block = true) :
    ∃ symbol ∈ logicalOperators, Token.logical (String.ofList block) = .logicalOperator symbol := by
  have capital : logicalLetters.all (fun c => upperCharacter c == [c.toLower.toUpper]) = true := by decide
  have raised : block.flatMap upperCharacter = (block.map Char.toLower).map Char.toUpper := by
    have letters := mem_logicalLetters_of_isLogicalWord logical
    clear logical
    induction block with
    | nil => rfl
    | cons c block ih =>
      have first := beq_iff_eq.mp (List.all_eq_true.mp capital c (letters c List.mem_cons_self))
      rw [List.flatMap_cons, first,
        ih fun other member => letters other (List.mem_cons_of_mem _ member)]
      rfl
  simp only [isLogicalWord, Bool.or_eq_true, beq_iff_eq] at logical
  rw [Token.logical, uppercase, String.toList_ofList, raised]
  rcases logical with same | same
  · exact ⟨"AND", by decide, by rw [same]; rfl⟩
  · exact ⟨"OR", by decide, by rw [same]; rfl⟩

theorem spells_cutBlocks (pending : List Char) (pieces : List (List Char)) :
    ∀ token ∈ cutBlocks pending pieces, catalog.Spells token := by
  induction pieces generalizing pending with
  | nil => exact spells_factorPart pending
  | cons block pieces ih =>
    intro token member
    unfold cutBlocks at member
    split at member
    next logical =>
      obtain ⟨symbol, listed, same⟩ := logical_of_isLogicalWord logical
      rcases List.mem_append.mp member with before | later
      · exact spells_factorPart pending token before
      · rcases List.mem_cons.mp later with rfl | behind
        · rw [same]
          exact spells_of_not_factor (.logicalOperator listed) (by simp [Token.kind])
        · exact ih [] token behind
    next => exact ih _ token member

theorem spells_runTokens (passed : List Token) {run : String} (solid : Nonblank run) :
    ∀ token ∈ runTokens catalog passed run, catalog.Spells token := by
  intro token member
  simp only [runTokens] at member
  split at member
  · rw [List.mem_singleton.mp member]
    exact spells_factor (nonblank_normalizeFactor solid)
  · exact spells_cutBlocks [] _ token member

/-- Whatever is read at a word is spelled by the catalog. -/
theorem spells_tokensAt (indexed : catalog.Indexed) (passed : List Token) {word : String} {rest : List String}
    (solid : IsWord word) : ∀ token ∈ (tokensAt catalog passed word rest).1, catalog.Spells token := by
  have first : fold word ≠ [] := fold_ne_nil_iff.mpr solid.nonblank
  intro token member
  unfold tokensAt at member
  split at member
  next count value found =>
    rw [List.mem_singleton.mp member]
    obtain ⟨positive, _, same⟩ := catalogFactor?_spec found
    obtain ⟨count, rfl⟩ := Nat.exists_eq_add_one.mpr positive
    refine spells_factor (fold_ne_nil_iff.mp ?_)
    rw [same, List.take_succ_cons, List.flatMap_cons]
    exact List.append_ne_nil_of_left_ne_nil first _
  next =>
    split at member
    · rw [List.mem_singleton.mp member]
      exact spells_of_not_factor .openParen (by simp [Token.kind])
    split at member
    · rw [List.mem_singleton.mp member]
      exact spells_of_not_factor .closeParen (by simp [Token.kind])
    split at member
    next count symbol matched =>
      rw [List.mem_singleton.mp member]
      have listed := (indexed.phrases.of_longestMatch matched).1
      exact spells_of_not_factor (.operator (operator_mem_phraseList.mp listed)) (by simp [Token.kind])
    next count symbol matched =>
      have listed := logical_mem_phraseList.mp (indexed.phrases.of_longestMatch matched).1
      rw [List.mem_singleton.mp member, writes_logical listed]
      exact spells_of_not_factor (.logicalOperator listed) (by simp [Token.kind])
    next =>
      dsimp only at member
      split at member
      next count parameter matched =>
        rw [List.mem_singleton.mp member]
        exact spells_of_not_factor (.parameter (indexed.of_matchParameter? matched).1) (by simp [Token.kind])
      next =>
        refine spells_runTokens passed (fold_ne_nil_iff.mp ?_) token member
        rw [fold_unwords, List.flatMap_cons]
        exact List.append_ne_nil_of_left_ne_nil first _

theorem spells_scanFrom (indexed : catalog.Indexed) {passed : List Token} (taken : Nat) {words : List String}
    (spelled : ∀ token ∈ passed, catalog.Spells token) (solid : ∀ word ∈ words, IsWord word) :
    ∀ token ∈ scanFrom catalog passed taken words, catalog.Spells token :=
  forall_scanFrom taken spelled solid fun passed word _ _ given =>
    spells_tokensAt indexed passed (given word List.mem_cons_self)

theorem canonical_asSubject (indexed : catalog.Indexed) {token : Token} (spells : catalog.Spells token) :
    catalog.Canonical (asSubject catalog token) := by
  cases token with
  | factor value =>
    simp only [asSubject, asParameter]
    split
    next parameter found =>
      exact .spelled (spells_of_not_factor (.parameter (indexed.findParameter?_eq_some_iff.mp found).1) (by simp [Token.kind]))
    next missing => exact .unlisted missing
  | parameter | operator | logicalOperator | openParen | closeParen | unknown => exact .spelled spells

theorem spells_asOperand (indexed : catalog.Indexed) {token : Token} (spells : catalog.Spells token) :
    catalog.Spells (asOperand token) := by
  cases token with
  | parameter name id =>
    cases spells.written with
    | parameter listed => exact spells_factor (nonblank_name indexed listed)
  | factor | operator | logicalOperator | openParen | closeParen | unknown => exact spells

theorem canonical_reclassify (indexed : catalog.Indexed) (afterOperator : Bool) {tokens : List Token}
    (spelled : ∀ token ∈ tokens, catalog.Spells token) :
    ∀ token ∈ reclassify catalog afterOperator tokens, catalog.Canonical token :=
  forall_reclassify afterOperator spelled (fun _ => spells_asOperand indexed) (fun _ => canonical_asSubject indexed)
    fun _ => .spelled

theorem canonical_mergeFactors {tokens : List Token} (canonical : ∀ token ∈ tokens, catalog.Canonical token) :
    ∀ token ∈ mergeFactors tokens, catalog.Canonical token := by
  refine forall_mergeFactors canonical fun first second solid _ => ?_
  obtain ⟨c, inside, solid⟩ := canonical_factor.mp solid
  exact canonical_factor.mpr ⟨c, by simp [inside], solid⟩

theorem canonical_markFrom (position : GrammarPosition) {tokens : List Token}
    (canonical : ∀ token ∈ tokens, catalog.Canonical token) :
    ∀ token ∈ markFrom catalog position tokens, catalog.Canonical token := by
  induction tokens generalizing position with
  | nil => exact canonical
  | cons token rest ih =>
    intro other member
    unfold markFrom at member
    rcases List.mem_cons.mp member with rfl | later
    · split
      · exact canonical token List.mem_cons_self
      · exact .unknown token.text
    · exact ih _ (fun other member => canonical other (List.mem_cons_of_mem _ member)) other later

theorem canonical_parse (indexed : catalog.Indexed) (text : String) :
    ∀ token ∈ parse catalog text, catalog.Canonical token := by
  have solid : ∀ word ∈ expressionWords text, IsWord word := fun _ member => isWord_of_mem_expressionWords member
  have blank : ∀ token ∈ ([] : List Token), catalog.Spells token := fun token member => by cases member
  have scanned := spells_scanFrom indexed 0 blank solid
  exact canonical_markFrom .start (canonical_mergeFactors (canonical_reclassify indexed false scanned))

end Reading

namespace Session

open Catalog

variable {catalog : Catalog}

theorem canonical_opened (indexed : catalog.Indexed) (spaced : Bool) (saved : Option String) :
    ∀ token ∈ (opened catalog spaced saved).tokens, catalog.Canonical token := by
  cases saved with
  | none => exact fun token member => by cases member
  | some text =>
    simp only [opened, load]
    exact Reading.canonical_parse indexed text

theorem nonblank_trim {value : String} (given : (trim value).isEmpty = false) : Nonblank (trim value) := by
  unfold trim at given ⊢
  apply nonblank_trimBlank
  intro empty
  simp [empty] at given

/-- A typed factor is refused when it is blank. -/
theorem spells_of_resolve (indexed : catalog.Indexed) {kind : TokenKind} {value : String} {token : Token}
    (resolved : resolve catalog kind value = .ok token) : catalog.Spells token where
  written := writes_of_resolve indexed resolved
  solid := by
    rintro text rfl
    obtain rfl := kind_of_resolve resolved
    simp only [resolve, Token.kind] at resolved
    split at resolved
    · cases resolved
    next given =>
      rw [← Token.factor.inj (Except.ok.inj resolved)]
      exact Reading.nonblank_normalizeFactor (nonblank_trim (by simpa using given))

theorem spells_of_adds (indexed : catalog.Indexed) {edit : Edit} {token : Token} (adds : Adds catalog edit token)
    (typed : edit ≠ .appendToken token) (solid : ∀ factor, edit = .appendFactor factor → Nonblank factor.canonical) :
    catalog.Spells token := by
  cases adds with
  | typed known resolved => exact spells_of_resolve indexed resolved
  | finished known accepted => exact absurd rfl typed
  | chosen factor => exact spells_factor (solid factor rfl)

/-- Every token of a session that was never handed a finished token is in the catalog's spelling. Parameters have the
name that the catalog gives their id, and those without an id are leftovers of the opened text under a name that the
catalog does not know; operators and logical operators are the listed ones; no factor is blank. -/
theorem reachable_canonical {parameters : List ParameterDef} {factors : FactorTable} {operators : List String}
    {catalog : Catalog} (built : Catalog.build parameters factors operators = .ok catalog) (spaced : Bool)
    (saved : Option String) {edits : List Edit} (typed : ∀ token, Edit.appendToken token ∉ edits)
    (solid : ∀ factor, Edit.appendFactor factor ∈ edits → Nonblank factor.canonical) :
    let initial := opened catalog spaced saved
    let session := initial.run edits
    (∀ name id, .parameter name (some id) ∈ session.tokens →
      ∃ parameter, catalog.parameter? id = some parameter ∧ parameter.name = name) ∧
    (∀ index name, session.tokens[index]? = some (.parameter name none) →
      saved.isSome = true ∧ index < initial.leftover edits ∧ catalog.findParameter? name = none) ∧
    (∀ symbol, .operator symbol ∈ session.tokens → symbol ∈ catalog.operators) ∧
    (∀ symbol, .logicalOperator symbol ∈ session.tokens → symbol = "AND" ∨ symbol = "OR") ∧
    (∀ value, .factor value ∈ session.tokens → ∃ c ∈ value.toList, isBlank c = false) := by
  intro initial session
  have indexed := indexed_of_build built
  obtain ⟨kept, added⟩ := initial.run_origin edits
  have same : initial.catalog = catalog := catalog_opened catalog spaced saved
  -- Beyond the leftovers everything was typed or chosen.
  have recent (index : Nat) (token : Token) (found : session.tokens[index]? = some token)
      (beyond : initial.leftover edits ≤ index) : catalog.Spells token := by
    obtain ⟨edit, member, adds⟩ := added index token found beyond
    rw [same] at adds
    exact spells_of_adds indexed adds (fun finished => typed token (finished ▸ member))
      fun factor chosen => solid factor (chosen ▸ member)
  have canonical (index : Nat) (token : Token) (found : session.tokens[index]? = some token) :
      catalog.Canonical token := by
    by_cases old : index < initial.leftover edits
    · exact canonical_opened indexed spaced saved token (List.mem_of_getElem? (kept index old ▸ found))
    · exact .spelled (recent index token found (Nat.le_of_not_lt old))
  have spells (token : Token) (member : token ∈ session.tokens) (known : token.kind ≠ .unknown)
      (identified : ∀ name, token ≠ .parameter name none) : catalog.Spells token := by
    obtain ⟨index, found⟩ := List.mem_iff_getElem?.mp member
    cases canonical index token found with
    | spelled spells => exact spells
    | unlisted missing => exact absurd rfl (identified _)
    | unknown text => exact absurd rfl known
  refine ⟨?_, ?_, ?_, ?_, ?_⟩
  · intro name id member
    cases (spells _ member (by simp [Token.kind]) (by simp)).written with
    | @parameter parameter listed => exact ⟨parameter, indexed.parameter?_eq_some.mpr ⟨listed, rfl⟩, rfl⟩
  · intro index name found
    have old : index < initial.leftover edits := by
      apply Nat.lt_of_not_le
      intro beyond
      cases (recent index _ found beyond).written
    have inside := Nat.lt_of_lt_of_le old (initial.leftover_le_length edits)
    refine ⟨?_, old, ?_⟩
    · cases saved with
      | none => exact absurd inside (Nat.not_lt_zero index)
      | some text => rfl
    · cases canonical index _ found with
      | spelled spells => cases spells.written
      | unlisted missing => exact missing
  · intro symbol member
    cases (spells _ member (by simp [Token.kind]) (by simp)).written with
    | operator listed => exact listed
  · intro symbol member
    cases (spells _ member (by simp [Token.kind]) (by simp)).written with
    | logicalOperator listed => simpa [logicalOperators] using listed
  · intro value member
    exact (spells _ member (by simp [Token.kind]) (by simp)).solid value rfl

private def creditForm : Except CatalogError Catalog :=
  Catalog.build [⟨9, "Loan  Amount"⟩] (.ofList [(9, [.range "20" "30"])]) [">", "Not  In List"]

private def creditEdits : List Edit :=
  [.removeLast, .append .parameter "loan amount", .append .operator "NOT in list", .append .factor " ",
    .appendFactor (.range " 20" "30")]

/-- A name that the catalog lacks is opened, what follows a cut is taken back, and a blank factor is refused. -/
theorem reachable_canonical_creditForm :
    ∃ catalog, creditForm = .ok catalog ∧
      let session := (opened catalog false (some "Credit Score > 700,and,x")).run creditEdits
      session.tokens =
        [.parameter "Credit Score" none, .operator ">", .factor "700,", .logicalOperator "AND",
          .parameter "Loan  Amount" (some 9), .operator "Not In List", .factor "20-30"] ∧
      catalog.findParameter? "Credit Score" = none ∧
      (∃ parameter, catalog.parameter? 9 = some parameter ∧ parameter.name = "Loan  Amount") ∧
      "Not In List" ∈ catalog.operators ∧ ∃ c ∈ "20-30".toList, isBlank c = false := by
  obtain ⟨catalog, built, tokens⟩ : ∃ catalog, creditForm = .ok catalog ∧
      ((opened catalog false (some "Credit Score > 700,and,x")).run creditEdits).tokens =
        [.parameter "Credit Score" none, .operator ">", .factor "700,", .logicalOperator "AND",
          .parameter "Loan  Amount" (some 9), .operator "Not In List", .factor "20-30"] := ⟨_, rfl, by decide⟩
  have typed : ∀ token, Edit.appendToken token ∉ creditEdits := by simp [creditEdits]
  have solid : ∀ factor, Edit.appendFactor factor ∈ creditEdits → Nonblank factor.canonical := by
    intro factor member
    obtain rfl : factor = .range " 20" "30" := by simpa [creditEdits] using member
    exact ⟨'2', by decide, by decide⟩
  obtain ⟨named, unlisted, operators, _, factors⟩ :=
    reachable_canonical built false (some "Credit Score > 700,and,x") typed solid
  rw [tokens] at named unlisted operators factors
  exact ⟨catalog, built, tokens, (unlisted 0 _ rfl).2.2, named _ _ (by simp), operators _ (by simp),
    factors _ (by simp)⟩

end Session

end Criteria
