import Criteria.Proofs.ReachableSessions
import Mathlib.Data.List.Infix
/-!
Taking edits back. A refused edit leaves the session alone and an accepted one adds one token at the end, which the next
removal takes away again. So a run that takes back all that it added, and nothing that was there before, ends where it
began, whatever was refused on the way.
-/

namespace Criteria

/-- The kind of token that the edit is to add. -/
def Edit.requested? : Edit → Option TokenKind
  | .append kind _ => some kind
  | .appendToken token => some token.kind
  | .appendFactor _ => some .factor
  | .removeLast => none
  | .reset => none

namespace Session

def grows (session : Session) (edit : Edit) : Bool := edit.requested?.isSome && (session.apply edit).result.isOk

/-- How many edits of a run add a token. -/
def additions (session : Session) : List Edit → Nat
  | [] => 0
  | edit :: rest => (session.grows edit).toNat + (session.next edit).additions rest

def removals (edits : List Edit) : Nat := edits.count .removeLast

/-- The run takes back each token that it adds, and no other one. -/
structure Undone (session : Session) (edits : List Edit) : Prop where
  noReset : .reset ∉ edits
  covered : ∀ before, before <+: edits → removals before ≤ session.additions before
  settled : removals edits = session.additions edits

variable {session next : Session} {edit : Edit} {edits : List Edit}

theorem Adds.requested {catalog : Catalog} {token : Token} (adds : Adds catalog edit token) :
    edit.requested? = some token.kind := by
  cases adds with
  | typed known resolved => rw [Edit.requested?, kind_of_resolve resolved]
  | finished | chosen => rfl

theorem pushed_of_apply {kind : TokenKind} (asked : edit.requested? = some kind)
    (applied : session.apply edit = next.accepted) :
    ∃ token, token.kind = kind ∧ session.snapshot.legalNext.contains kind = true ∧ next = session.push token := by
  rcases apply_cases applied with ⟨token, adds, legal, rfl⟩ | ⟨rfl, _⟩ | ⟨rfl, _⟩
  · obtain rfl := Option.some.inj (adds.requested.symm.trans asked)
    exact ⟨token, rfl, legal, rfl⟩
  · cases asked
  · cases asked

theorem additions_singleton : session.additions [edit] = (session.grows edit).toNat := Nat.add_zero _

theorem additions_cons : session.additions (edit :: edits) =
    session.additions [edit] + (session.next edit).additions edits := by
  rw [additions_singleton, additions]

theorem removals_cons : removals (edit :: edits) = removals [edit] + removals edits := by
  rw [removals, ← List.singleton_append, List.count_append, removals, removals]

/-- Behind the tokens that are kept, an edit adds one token or takes back the last, unless it changes nothing. -/
theorem next_behind {kept behind : List Token} (split : session.tokens = kept ++ behind) (noReset : edit ≠ .reset)
    (covered : removals [edit] ≤ behind.length + session.additions [edit]) :
    ∃ later, session.next edit = { session with tokens := kept ++ later } ∧
      later.length + removals [edit] = behind.length + session.additions [edit] := by
  rw [additions_singleton] at covered ⊢
  cases asked : edit.requested? with
  | none =>
    cases edit with
    | append | appendToken | appendFactor => cases asked
    | reset => exact absurd rfl noReset
    | removeLast =>
      have some_behind : behind ≠ [] := List.length_pos_iff.mp covered
      refine ⟨behind.dropLast, ?_, ?_⟩
      · show session.removeLast = _
        rw [removeLast, split, List.dropLast_append_of_ne_nil some_behind]
      · rw [List.length_dropLast]
        exact Nat.sub_add_cancel covered
  | some kind =>
    have none_removed : removals [edit] = 0 := by
      refine List.count_eq_zero_of_not_mem fun inside => ?_
      rw [← List.mem_singleton.mp inside] at asked
      cases asked
    rw [none_removed, grows, asked, Option.isSome_some, Bool.true_and]
    rcases session.apply_accepted_or_refused edit with ⟨next, applied⟩ | ⟨error, failed⟩
    · obtain ⟨token, _, _, rfl⟩ := pushed_of_apply asked applied
      refine ⟨behind ++ [token], ?_, by simp [applied, accepted, Except.isOk, Except.toBool]⟩
      rw [next_of_accepted applied, push, split, List.append_assoc]
    · refine ⟨behind, ?_, by simp [failed, refused, Except.isOk, Except.toBool]⟩
      rw [next_of_refused failed, ← split]

/-- As long as no more is taken back than there is behind the tokens that are kept, these stay in place. -/
theorem run_behind {kept behind : List Token} (split : session.tokens = kept ++ behind) (noReset : .reset ∉ edits)
    (covered : ∀ before, before <+: edits → removals before ≤ behind.length + session.additions before) :
    ∃ later, session.run edits = { session with tokens := kept ++ later } ∧
      later.length + removals edits = behind.length + session.additions edits := by
  induction edits generalizing session behind with
  | nil => exact ⟨behind, by rw [← split]; rfl, rfl⟩
  | cons edit rest ih =>
    obtain ⟨here, later⟩ := not_or.mp (mt List.mem_cons.mpr noReset)
    obtain ⟨between, stepped, count⟩ := next_behind split (Ne.symm here)
      (covered [edit] (List.cons_prefix_cons.mpr ⟨rfl, List.nil_prefix⟩))
    have ahead (before : List Edit) (begins : before <+: rest) :
        removals before ≤ between.length + (session.next edit).additions before := by
      have bound := covered (edit :: before) (List.cons_prefix_cons.mpr ⟨rfl, begins⟩)
      rw [removals_cons, additions_cons] at bound
      omega
    obtain ⟨last, reached, total⟩ := ih (congrArg Session.tokens stepped) later ahead
    refine ⟨last, ?_, ?_⟩
    · show (session.next edit).run rest = _
      rw [reached, stepped]
    · rw [removals_cons, additions_cons]
      omega

/-- Along a run that takes back what it adds, whatever it began with stays, and in the end the session is the same. A
single refused edit changes nothing, and an accepted one adds one token of the kind asked for, which was legal. -/
theorem run_undone (session : Session) :
    (∀ edits, session.Undone edits →
      session.run edits = session ∧ ∀ before, before <+: edits → session.tokens <+: (session.run before).tokens) ∧
    (∀ edit error, (session.apply edit).result = .error error → session.next edit = session) ∧
    (∀ edit kind, edit.requested? = some kind → ∀ outcome, (session.apply edit).result = .ok outcome →
      outcome = (session.next edit).outcome ∧
        ∃ token, token.kind = kind ∧ session.snapshot.legalNext.contains kind = true ∧
          session.next edit = session.push token) := by
  refine ⟨fun edits undone => ?_, fun edit error => next_of_error, fun edit kind asked outcome found => ?_⟩
  have whole : session.tokens = session.tokens ++ [] := (List.append_nil _).symm
  have covered (before : List Edit) (begins : before <+: edits) :
      removals before ≤ ([] : List Token).length + session.additions before := by
    rw [List.length_nil, Nat.zero_add]
    exact undone.covered before begins
  constructor
  · obtain ⟨later, reached, count⟩ := run_behind whole undone.noReset covered
    rw [undone.settled, Nat.add_right_cancel_iff, List.length_nil, List.length_eq_zero_iff] at count
    rw [reached, count, List.append_nil]
  · intro before begins
    obtain ⟨later, reached, _⟩ := run_behind whole (fun inside => undone.noReset (begins.subset inside))
      fun earlier shorter => covered earlier (shorter.trans begins)
    rw [reached]
    exact List.prefix_append _ _
  · obtain ⟨next, applied, rfl⟩ := accepted_of_ok found
    rw [next_of_accepted applied]
    exact ⟨rfl, pushed_of_apply asked applied⟩

private def ageForm : Except CatalogError Catalog :=
  Catalog.build [⟨5, "Age"⟩, ⟨9, "Loan"⟩] (.ofList [(5, [.single "18"])]) [">"]

private def ageEdits : List Edit :=
  [.append .operator "~", .append .operator ">", .append .closeParen "", .append .factor " ",
    .appendFactor (.single "18"), .removeLast, .appendToken (.unknown "18"), .append .factor "20 - 30", .removeLast,
    .removeLast]

/-- Behind an unknown token, with an edit of each kind refused in between. -/
theorem run_undone_ageForm :
    ∃ catalog, ageForm = .ok catalog ∧
      let session := opened catalog true (some "Age > 18 )")
      session.tokens = [.parameter "Age" (some 5), .operator ">", .factor "18", .unknown ")"] ∧
        session.additions ageEdits = 3 ∧ session.Undone ageEdits ∧ session.run ageEdits = session := by
  obtain ⟨catalog, built, tokens, added, undone⟩ : ∃ catalog, ageForm = .ok catalog ∧
      (opened catalog true (some "Age > 18 )")).tokens =
        [.parameter "Age" (some 5), .operator ">", .factor "18", .unknown ")"] ∧
      (opened catalog true (some "Age > 18 )")).additions ageEdits = 3 ∧
      .reset ∉ ageEdits ∧ (∀ before ∈ ageEdits.inits,
        removals before ≤ (opened catalog true (some "Age > 18 )")).additions before) ∧
      removals ageEdits = (opened catalog true (some "Age > 18 )")).additions ageEdits :=
    ⟨_, rfl, by decide, by decide, by decide, by decide, by decide⟩
  have undone : (opened catalog true (some "Age > 18 )")).Undone ageEdits :=
    ⟨undone.1, fun before begins => undone.2.1 before ((List.mem_inits _ _).mpr begins), undone.2.2⟩
  exact ⟨catalog, built, tokens, added, undone, ((run_undone _).1 ageEdits undone).1⟩

end Session

end Criteria
