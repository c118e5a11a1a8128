import Criteria.Json.Basic
import Criteria.Json.Reader
import Criteria.Json.Writer
import Mathlib.Data.List.Basic
/-!
Reading back what was written. The writer leaves out all white space, so the reader stands at the first character of
each part. Only a number has no end of its own: it ends with the comma or the bracket behind it.
-/

namespace Criteria

namespace Text

/-- Only zero begins with a zero. -/
theorem eq_zero_of_toDigits {number : Nat} {digits : List Char} (leading : Nat.toDigits 10 number = '0' :: digits) :
    number = 0 := by
  induction number using Nat.strongRecOn generalizing digits with
  | ind number ih =>
    by_cases single : number < 10
    · rw [Nat.toDigits_of_lt_base single] at leading
      have digit : ∀ number < 10, Nat.digitChar number = '0' → number = 0 := by decide
      exact digit number single (List.cons.inj leading).1
    · rw [Nat.toDigits_of_base_le (by decide) (by omega)] at leading
      rcases List.append_eq_cons_iff.mp leading with ⟨none, _⟩ | ⟨later, front, _⟩
      · exact absurd none Nat.toDigits_ne_nil
      · have smaller := ih (number / 10) (by omega) front
        omega

end Text

namespace Json

open Text

/-- A document as it is written: its numbers are integers, and all texts are spelled in one way. -/
inductive Written : Json → Prop
  | null : Written .null
  | boolean (value : Bool) : Written (.boolean value)
  | integer (value : Int64) : Written (.ofInteger value)
  | text (text : String) : Written (.ofText text)
  | array {items : List Json} (each : ∀ item ∈ items, Written item) : Written (.array items)
  | object {members : List (List Char × Json)} (names : ∀ member ∈ members, ∃ name, member.1 = escape name)
      (each : ∀ member ∈ members, Written member.2) : Written (.object members)

/-- No number goes on with this. -/
def Ended (rest : List Char) : Prop := ∀ c ∈ rest.head?, c.isDigit = false ∧ c ≠ '.' ∧ c ≠ 'e' ∧ c ≠ 'E'

theorem ended_nil : Ended [] := by simp [Ended]

theorem ended_cons {c : Char} {rest : List Char} (mark : c = ',' ∨ c = ']' ∨ c = '\x7d') : Ended (c :: rest) := by
  intro first same
  obtain rfl := Option.some.inj same
  rcases mark with rfl | rfl | rfl <;> decide

section Numbers

variable {rest : List Char} (ended : Ended rest)
include ended

theorem scanDigits_append {digits : List Char} (nonempty : digits ≠ []) (all : ∀ c ∈ digits, c.isDigit = true) :
    scanDigits (digits ++ rest) = some (digits, rest) := by
  have stops : rest.takeWhile Char.isDigit = [] ∧ rest.dropWhile Char.isDigit = rest := by
    cases rest with
    | nil => exact ⟨rfl, rfl⟩
    | cons c rest => simp [(ended c rfl).1]
  unfold scanDigits
  rw [List.takeWhile_append_of_pos all, List.dropWhile_append_of_pos all, stops.1, stops.2, List.append_nil]
  cases digits with
  | nil => exact absurd rfl nonempty
  | cons c digits => rfl

theorem scanWhole_toDigits (number : Nat) :
    scanWhole (Nat.toDigits 10 number ++ rest) = some (Nat.toDigits 10 number, rest) := by
  unfold scanWhole
  rw [scanDigits_append ended Nat.toDigits_ne_nil fun c => Nat.isDigit_of_mem_toDigits (by decide) (by decide)]
  -- A number with a zero before other digits is refused, but none is written so.
  split
  next c digits behind same =>
    have leading : Nat.toDigits 10 number = '0' :: c :: digits := by simpa using congrArg (Option.map Prod.fst) same
    rw [eq_zero_of_toDigits leading] at leading
    cases leading
  next => rfl

theorem scanFraction_of_ended : scanFraction rest = some ([], rest) := by
  unfold scanFraction
  split
  next later => exact absurd rfl (ended '.' rfl).2.1
  next => rfl

theorem scanExponent_of_ended : scanExponent rest = some ([], rest) := by
  cases rest with
  | nil => rfl
  | cons c rest =>
    obtain ⟨_, _, small, capital⟩ := ended c rfl
    simp [scanExponent, small, capital]

theorem scanNumber_writeInteger (value : Int64) :
    scanNumber (writeInteger value ++ rest) = some (writeInteger value, rest) := by
  rw [writeInteger_eq]
  generalize value.toInt.natAbs = number
  split
  · simp [scanNumber, scanWhole_toDigits ended, scanFraction_of_ended ended, scanExponent_of_ended ended]
  · have unsigned : ∀ later, Nat.toDigits 10 number ++ rest ≠ '-' :: later := by
      intro later same
      rcases List.append_eq_cons_iff.mp same with ⟨none, _⟩ | ⟨digits, front, _⟩
      · exact absurd none Nat.toDigits_ne_nil
      · exact absurd rfl (ne_minus_of_mem_toDigits (front ▸ List.mem_cons_self))
    unfold scanNumber
    rw [List.nil_append]
    split
    next sign magnitude shape =>
      split at shape
      next later same => exact absurd same (unsigned later)
      next =>
        obtain ⟨rfl, rfl⟩ := Prod.mk.inj shape
        simp [scanWhole_toDigits ended, scanFraction_of_ended ended, scanExponent_of_ended ended]

end Numbers

theorem exists_head_writeInteger (value : Int64) :
    ∃ c later, writeInteger value = c :: later ∧ 45 ≤ c.toNat ∧ c.toNat ≤ 57 := by
  cases spelling : writeInteger value with
  | nil =>
    rw [writeInteger_eq] at spelling
    exact absurd (List.append_eq_nil_iff.mp spelling).2 Nat.toDigits_ne_nil
  | cons c later => exact ⟨c, later, rfl, bounds_of_mem_writeInteger (spelling ▸ List.mem_cons_self)⟩

theorem skipSpace_cons {c : Char} (visible : isSpace c = false) (rest : List Char) :
    skipSpace (c :: rest) = c :: rest :=
  List.dropWhile_cons_of_neg (by simp [visible])

theorem isSpace_eq_false {c : Char} (visible : 32 < c.toNat) : isSpace c = false := by
  rw [Bool.eq_false_iff]
  intro space
  simp only [isSpace, Bool.or_eq_true, beq_iff_eq, or_assoc] at space
  rcases space with rfl | rfl | rfl | rfl <;> exact absurd visible (by decide)

/-- Nothing that is written begins with white space, or like the end of a list. -/
theorem Written.exists_head {document : Json} (written : Written document) :
    ∃ c later, render document = c :: later ∧ isSpace c = false ∧ c ≠ ']' := by
  cases written with
  | null => exact ⟨'n', _, rfl, rfl, by decide⟩
  | boolean value => cases value <;> exact ⟨_, _, rfl, rfl, by decide⟩
  | integer value =>
    obtain ⟨c, later, shape, least, most⟩ := exists_head_writeInteger value
    refine ⟨c, later, shape, isSpace_eq_false (by omega), ?_⟩
    rintro rfl
    exact absurd most (by decide)
  | text text => exact ⟨'"', _, rfl, rfl, by decide⟩
  | array each => exact ⟨'[', _, by rw [render]; rfl, rfl, by decide⟩
  | object names each => exact ⟨'\x7b', _, by rw [render]; rfl, rfl, by decide⟩

/-- Given fuel for its length, the reader takes the document from the front of any text and leaves the rest. -/
def ReadsBack (document : Json) : Prop :=
  ∀ fuel rest, (render document).length ≤ fuel → Ended rest →
    readValue fuel (render document ++ rest) = some (document, rest)

theorem readsBack_integer (value : Int64) : ReadsBack (.ofInteger value) := by
  intro fuel rest enough ended
  obtain ⟨c, later, shape, least, most⟩ := exists_head_writeInteger value
  have start : skipSpace (writeInteger value ++ rest) = writeInteger value ++ rest := by
    rw [shape]
    exact skipSpace_cons (isSpace_eq_false (by omega)) _
  cases fuel with
  | zero => simp [ofInteger, render, shape] at enough
  | succ fuel =>
    rw [ofInteger, render, readValue, start, shape, List.cons_append]
    split
    case h_7 =>
      rw [← List.cons_append, ← shape, scanNumber_writeInteger ended]
      rfl
    all_goals
      next same =>
      obtain ⟨rfl, _⟩ := List.cons.inj same
      exact absurd (And.intro least most) (by decide)

theorem readsBack_text (text : String) : ReadsBack (.ofText text) := by
  intro fuel rest enough ended
  cases fuel with
  | zero => simp [ofText, render, quoted] at enough
  | succ fuel =>
    rw [ofText, render, readValue, quoted, List.cons_append, List.cons_append, List.append_assoc,
      List.singleton_append, skipSpace_cons rfl]
    simp only [scanQuoted_escape, Option.map_some]

theorem renderItems_cons_cons (item next : Json) (rest : List Json) :
    renderItems (item :: next :: rest) = render item ++ ',' :: renderItems (next :: rest) := by
  rw [renderItems]
  exact List.cons_ne_nil next rest

theorem renderMembers_cons_cons (name : List Char) (value : Json) (next : List Char × Json)
    (rest : List (List Char × Json)) :
    renderMembers ((name, value) :: next :: rest) =
      quoted name ++ ':' :: (render value ++ ',' :: renderMembers (next :: rest)) := by
  rw [renderMembers]
  · simp
  · exact List.cons_ne_nil next rest

theorem readItems_render {items : List Json} (occupied : items ≠ []) (each : ∀ item ∈ items, ReadsBack item)
    {fuel : Nat} (enough : (renderItems items).length < fuel) (rest : List Char) :
    readItems fuel (renderItems items ++ ']' :: rest) = some (items, rest) := by
  -- The list spends one unit of fuel on an item, and what is written behind the item is at least as long.
  induction items generalizing fuel with
  | nil => exact absurd rfl occupied
  | cons item items ih =>
    obtain ⟨here, later⟩ := List.forall_mem_cons.mp each
    cases fuel with
    | zero => exact absurd enough (Nat.not_lt_zero _)
    | succ fuel =>
      cases items with
      | nil =>
        rw [renderItems] at enough ⊢
        rw [readItems, here fuel _ (by omega) (ended_cons (.inr (.inl rfl)))]
        simp only [skipSpace_cons (show isSpace ']' = false from rfl)]
      | cons next items =>
        rw [renderItems_cons_cons] at enough ⊢
        rw [List.length_append, List.length_cons] at enough
        rw [List.append_assoc, List.cons_append, readItems, here fuel _ (by omega) (ended_cons (.inl rfl))]
        have more := ih (List.cons_ne_nil _ _) later (show (renderItems (next :: items)).length < fuel by omega)
        simp only [skipSpace_cons (show isSpace ',' = false from rfl), more, Option.map_some]

section Members

variable {fuel : Nat} {name : List Char} {tail after : List Char} {value : Json}

theorem readMembers_last (here : readValue fuel tail = some (value, '\x7d' :: after)) :
    readMembers (fuel + 1) (quoted (escape name) ++ ':' :: tail) = some ([(escape name, value)], after) := by
  rw [readMembers, quoted, List.cons_append, List.cons_append, List.append_assoc, List.singleton_append,
    skipSpace_cons rfl]
  simp only [scanQuoted_escape, skipSpace_cons (show isSpace ':' = false from rfl), here,
    skipSpace_cons (show isSpace '\x7d' = false from rfl)]

theorem readMembers_more (here : readValue fuel tail = some (value, ',' :: after)) :
    readMembers (fuel + 1) (quoted (escape name) ++ ':' :: tail) =
      (readMembers fuel after).map fun (members, rest) => ((escape name, value) :: members, rest) := by
  rw [readMembers, quoted, List.cons_append, List.cons_append, List.append_assoc, List.singleton_append,
    skipSpace_cons rfl]
  simp only [scanQuoted_escape, skipSpace_cons (show isSpace ':' = false from rfl), here,
    skipSpace_cons (show isSpace ',' = false from rfl)]

end Members

theorem readMembers_render {members : List (List Char × Json)} (occupied : members ≠ [])
    (names : ∀ member ∈ members, ∃ name, member.1 = escape name) (each : ∀ member ∈ members, ReadsBack member.2)
    {fuel : Nat} (enough : (renderMembers members).length < fuel) (rest : List Char) :
    readMembers fuel (renderMembers members ++ '\x7d' :: rest) = some (members, rest) := by
  induction members generalizing fuel with
  | nil => exact absurd rfl occupied
  | cons member members ih =>
    obtain ⟨name, value⟩ := member
    obtain ⟨⟨name, rfl⟩, others⟩ := List.forall_mem_cons.mp names
    have here : ReadsBack value := (List.forall_mem_cons.mp each).1
    have later := (List.forall_mem_cons.mp each).2
    cases fuel with
    | zero => exact absurd enough (Nat.not_lt_zero _)
    | succ fuel =>
      cases members with
      | nil =>
        rw [renderMembers] at enough ⊢
        rw [List.length_append, List.length_cons] at enough
        rw [List.append_assoc, List.cons_append]
        exact readMembers_last (here fuel _ (by omega) (ended_cons (.inr (.inr rfl))))
      | cons next members =>
        rw [renderMembers_cons_cons] at enough ⊢
        simp only [List.length_append, List.length_cons] at enough
        rw [List.append_assoc, List.cons_append, List.append_assoc, List.cons_append,
          readMembers_more (here fuel _ (by omega) (ended_cons (.inl rfl))),
          ih (List.cons_ne_nil _ _) others later (by omega), Option.map_some]

theorem readsBack_array {items : List Json} (each : ∀ item ∈ items, Written item)
    (parts : ∀ item ∈ items, ReadsBack item) : ReadsBack (.array items) := by
  intro fuel rest enough _
  simp only [render, List.length_append, List.length_cons, List.length_nil] at enough
  cases fuel with
  | zero => omega
  | succ fuel =>
    rw [render, List.cons_append, List.cons_append, List.append_assoc, List.singleton_append, readValue,
      skipSpace_cons rfl]
    cases items with
    | nil => rfl
    | cons item items =>
      obtain ⟨c, later, head, visible, other⟩ : ∃ c later, renderItems (item :: items) = c :: later ∧
          isSpace c = false ∧ c ≠ ']' := by
        obtain ⟨c, later, head, visible, other⟩ := (each item List.mem_cons_self).exists_head
        cases items with
        | nil => exact ⟨c, later, by rw [renderItems, head], visible, other⟩
        | cons next items => exact ⟨c, _, by rw [renderItems_cons_cons, head]; rfl, visible, other⟩
      have all := readItems_render (List.cons_ne_nil _ _) parts (show _ < fuel by omega) rest
      rw [head, List.cons_append] at all ⊢
      simp only [skipSpace_cons visible]
      split
      next same => exact absurd (List.cons.inj same).1 other
      next => rw [all, Option.map_some]

theorem readsBack_object {members : List (List Char × Json)}
    (names : ∀ member ∈ members, ∃ name, member.1 = escape name) (parts : ∀ member ∈ members, ReadsBack member.2) :
    ReadsBack (.object members) := by
  intro fuel rest enough _
  simp only [render, List.length_append, List.length_cons, List.length_nil] at enough
  cases fuel with
  | zero => omega
  | succ fuel =>
    rw [render, List.cons_append, List.cons_append, List.append_assoc, List.singleton_append, readValue,
      skipSpace_cons rfl]
    cases members with
    | nil => rfl
    | cons member members =>
      obtain ⟨later, head⟩ : ∃ later, renderMembers (member :: members) = '"' :: later := by
        obtain ⟨name, value⟩ := member
        cases members with
        | nil => exact ⟨_, by rw [renderMembers, quoted]; rfl⟩
        | cons next members => exact ⟨_, by rw [renderMembers_cons_cons, quoted]; rfl⟩
      have all := readMembers_render (List.cons_ne_nil _ _) names parts (show _ < fuel by omega) rest
      rw [head, List.cons_append] at all ⊢
      simp only [skipSpace_cons (show isSpace '"' = false from rfl), all, Option.map_some]
      rfl

theorem Written.readsBack {document : Json} (written : Written document) : ReadsBack document := by
  induction written with
  | null =>
    intro fuel rest enough _
    cases fuel with
    | zero => exact absurd enough (by decide)
    | succ fuel => rfl
  | boolean value =>
    intro fuel rest enough _
    cases fuel with
    | zero => cases value <;> exact absurd enough (by decide)
    | succ fuel => cases value <;> rfl
  | integer value => exact readsBack_integer value
  | text text => exact readsBack_text text
  | array each parts => exact readsBack_array each parts
  | object names each parts => exact readsBack_object names parts

/-- A document that was written is read as it was. -/
theorem read_write {document : Json} (written : Written document) : read (write document) = some document := by
  have whole := written.readsBack ((render document).length + 1) [] (Nat.le_succ _) ended_nil
  rw [List.append_nil] at whole
  rw [read, write, String.toList_ofList, whole]
  rfl

end Json

end Criteria
