import Criteria.Proofs.ExpressionWords
/-!
Letter case and ASCII. On ASCII characters the full mapping to lower case is the plain one. In return, most small letters
are the lower case of ASCII characters only: two are not, since a capital with a dot and the sign of a unit become them.
-/

namespace Criteria.Text

theorem lowerCharacter_of_ascii {c : Char} (ascii : c.toNat < 128) : lowerCharacter c = [c.toLower] := by
  have all : ∀ code < 128, lowerCharacter (Char.ofNat code) = [(Char.ofNat code).toLower] := by decide
  simpa using all c.toNat ascii

theorem lowerAfter_of_ascii {cs : List Char} (ascii : ∀ c ∈ cs, c.toNat < 128) (before : List Char) :
    lowerAfter before cs = cs.map Char.toLower := by
  induction cs generalizing before with
  | nil => rfl
  | cons c cs ih =>
    obtain ⟨here, later⟩ := List.forall_mem_cons.mp ascii
    have other : c ≠ 'Σ' := by
      rintro rfl
      exact absurd here (by decide)
    rw [lowerAfter, if_neg other, lowerCharacter_of_ascii here, ih later]
    rfl

theorem lowercase_of_ascii {text : String} (ascii : ∀ c ∈ text.toList, c.toNat < 128) :
    (lowercase text).toList = text.toList.map Char.toLower := by
  rw [toList_lowercase, lowerAfter_of_ascii ascii]

theorem toNat_of_isAlphanum {c : Char} (alphanumeric : c.isAlphanum = true) :
    48 ≤ c.toNat ∧ c.toNat ≤ 57 ∨ 65 ≤ c.toNat ∧ c.toNat ≤ 90 ∨ 97 ≤ c.toNat ∧ c.toNat ≤ 122 := by
  change ((decide (65 ≤ c.val ∧ c.val ≤ 90) || (decide (97 ≤ c.val) && decide (c.val ≤ 122))) ||
    (decide (48 ≤ c.val) && decide (c.val ≤ 57))) = true at alphanumeric
  simp only [Bool.or_eq_true, Bool.and_eq_true, decide_eq_true_eq, UInt32.le_iff_toNat_le] at alphanumeric
  change (65 ≤ c.toNat ∧ c.toNat ≤ 90 ∨ 97 ≤ c.toNat ∧ c.toNat ≤ 122) ∨ 48 ≤ c.toNat ∧ c.toNat ≤ 57 at alphanumeric
  omega

/-- A small letter that is the lower case of ASCII letters only. -/
def PlainLetter (c : Char) : Prop := 97 ≤ c.toNat ∧ c.toNat ≤ 122 ∧ c ≠ 'i' ∧ c ≠ 'k'

instance (c : Char) : Decidable (PlainLetter c) := inferInstanceAs (Decidable (_ ∧ _))

theorem CaseRun.of_image? {runs : List CaseRun} {code image : Nat} (found : CaseRun.image? runs code = some image) :
    ∃ run ∈ runs, run.first ≤ code ∧ code ≤ run.last ∧ image = run.target + (code - run.first) := by
  induction runs with
  | nil => cases found
  | cons run runs ih =>
    unfold image? at found
    split at found
    · cases found
    next above =>
      split at found
      next within =>
        split at found
        · exact ⟨run, List.mem_cons_self, Nat.le_of_not_lt above, within, (Option.some.inj found).symm⟩
        · cases found
      next =>
        obtain ⟨other, member, bounds⟩ := ih found
        exact ⟨other, List.mem_cons_of_mem _ member, bounds⟩

theorem ascii_of_mem_lowerCharacter {letter c : Char} (plain : PlainLetter letter)
    (inside : letter ∈ lowerCharacter c) : c.toNat < 128 := by
  obtain ⟨least, most, dotted, unit⟩ := plain
  unfold lowerCharacter at inside
  split at inside
  next =>
    simp only [List.mem_cons, List.not_mem_nil, or_false] at inside
    rcases inside with rfl | rfl
    · exact absurd rfl dotted
    · exact absurd most (by decide)
  next =>
    split at inside
    next image found =>
      obtain rfl := List.mem_singleton.mp inside
      obtain ⟨run, member, above, within, rfl⟩ := CaseRun.of_image? found
      -- Of all runs only the first ends among the small letters, but for the sign that becomes the letter k.
      have apart : ∀ run ∈ lowerRuns, run.last < 128 ∨ 123 ≤ run.target ∨ run.first = run.last ∧ run.target = 107 := by
        decide +kernel
      rcases toNat_ofNat_cases (run.target + (c.toNat - run.first)) with same | zero
      · rcases apart run member with low | high | ⟨single, sign⟩
        · omega
        · omega
        · refine absurd ?_ unit
          rw [show run.target + (c.toNat - run.first) = 107 by omega]
      · omega
    next =>
      obtain rfl := List.mem_singleton.mp inside
      omega

theorem ascii_of_lowercase {text : String} (plain : ∀ letter ∈ (lowercase text).toList, PlainLetter letter) :
    ∀ c ∈ text.toList, c.toNat < 128 := by
  have lowered (before rest : List Char) (plain : ∀ letter ∈ lowerAfter before rest, PlainLetter letter) :
      ∀ c ∈ rest, c.toNat < 128 := by
    induction rest generalizing before with
    | nil => simp
    | cons c rest ih =>
      rw [lowerAfter, List.forall_mem_append] at plain
      refine List.forall_mem_cons.mpr ⟨?_, ih _ plain.2⟩
      by_cases sigma : c = 'Σ'
      · have here := plain.1
        rw [if_pos sigma] at here
        split at here
        · exact absurd (List.forall_mem_singleton.mp here) (by decide)
        · exact absurd (List.forall_mem_singleton.mp here) (by decide)
      · have here := plain.1
        rw [if_neg sigma] at here
        obtain ⟨letter, inside⟩ := List.exists_mem_of_ne_nil _ (lowerCharacter_ne_nil c)
        exact ascii_of_mem_lowerCharacter (here letter inside) inside
  exact lowered [] text.toList (toList_lowercase text ▸ plain)

end Criteria.Text
