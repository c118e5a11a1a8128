import Criteria.Proofs.PhraseLookup
import Mathlib.Data.Finset.Card
import Mathlib.Order.Bounds.Defs
/-!
A phrase trie as a finite map. Whatever is inserted, one phrase after another, the trie holds the first value of every
list of words that was given, counts those lists, and finds the longest of them that other words begin with.
-/

namespace Criteria.PhraseTrie

open Text

variable {α : Type}

/-- Inserts the phrases one after another and notes which of them are accepted. -/
def insertEach (trie : PhraseTrie α) : List (String × α) → List Bool × PhraseTrie α
  | [] => ([], trie)
  | (phrase, value) :: rest =>
    let grown := trie.insert? phrase value
    let (answers, full) := (grown.getD trie).insertEach rest
    (grown.isSome :: answers, full)

/-- The phrases that are not blank, by their words. Looking words up finds the first value that came under them. -/
def entries (calls : List (String × α)) : List (List String × α) :=
  (calls.map fun call => (key call.1, call.2)).filter (!·.1.isEmpty)

/-- The phrase is not blank and does not have the words of an earlier one. -/
def Fresh (earlier : List (String × α)) (phrase : String) : Prop :=
  key phrase ≠ [] ∧ ∀ call ∈ earlier, key call.1 ≠ key phrase

instance (earlier : List (String × α)) (phrase : String) : Decidable (Fresh earlier phrase) :=
  inferInstanceAs (Decidable (_ ∧ _))

variable {trie : PhraseTrie α} {calls : List (String × α)} {phrase : String} {value : α}

theorem mem_entries {entry : List String × α} :
    entry ∈ entries calls ↔ entry.1 ≠ [] ∧ ∃ call ∈ calls, (key call.1, call.2) = entry := by
  simp [entries, and_comm]

theorem entries_concat_of_blank (blank : key phrase = []) : entries (calls ++ [(phrase, value)]) = entries calls := by
  simp [entries, blank]

theorem entries_concat_of_nonblank (nonblank : key phrase ≠ []) :
    entries (calls ++ [(phrase, value)]) = entries calls ++ [(key phrase, value)] := by
  simp [entries, nonblank]

theorem lookup_entries_eq_none (nonblank : key phrase ≠ []) :
    (entries calls).lookup (key phrase) = none ↔ Fresh calls phrase := by
  simp only [List.lookup_eq_none_iff, bne_iff_ne]
  constructor
  · intro absent
    refine ⟨nonblank, fun call member same => ?_⟩
    exact absent (key call.1, call.2) (mem_entries.mpr ⟨same ▸ nonblank, call, member, rfl⟩) same.symm
  · rintro ⟨_, new⟩ entry member same
    obtain ⟨_, call, earlier, rfl⟩ := mem_entries.mp member
    exact new call earlier same.symm

/-- The trie answers as the map from words to first values does, and its size is the number of keys. -/
structure Represents (trie : PhraseTrie α) (pairs : List (List String × α)) : Prop where
  held : ∀ words, trie.root.find? words = pairs.lookup words
  counted : trie.size = (pairs.map Prod.fst).toFinset.card

theorem represents_empty : Represents (empty : PhraseTrie α) [] where
  held words := PhraseNode.find?_leaf words
  counted := rfl

variable {pairs : List (List String × α)} {words : List String}

/-- A value that comes later under the same words makes no difference. -/
theorem Represents.shadow (represents : Represents trie pairs) (taken : pairs.lookup words ≠ none) (value : α) :
    Represents trie (pairs ++ [(words, value)]) where
  held others := by
    rw [represents.held, List.lookup_append]
    by_cases same : others = words
    · subst same
      obtain ⟨first, found⟩ := Option.ne_none_iff_exists'.mp taken
      rw [found, Option.some_or]
    · rw [List.lookup_cons, beq_false_of_ne same]
      exact (Option.or_none).symm
  counted := by
    have known : words ∈ (pairs.map Prod.fst).toFinset := by
      obtain ⟨first, found⟩ := Option.ne_none_iff_exists'.mp taken
      obtain ⟨before, after, rfl, _⟩ := List.lookup_eq_some_iff.mp found
      simp
    rw [represents.counted, List.map_append, List.toFinset_append]
    simp [known]

theorem Represents.insert (represents : Represents trie pairs) (free : pairs.lookup words = none) (value : α) :
    Represents ⟨trie.root.insert value words, trie.size + 1⟩ (pairs ++ [(words, value)]) where
  held others := by
    rw [List.lookup_append, ← represents.held]
    by_cases same : others = words
    · subst same
      rw [PhraseNode.find?_insert_self, represents.held, free]
      simp
    · rw [PhraseNode.find?_insert_of_ne trie.root value same, List.lookup_cons, beq_false_of_ne same]
      exact (Option.or_none).symm
  counted := by
    have new : words ∉ (pairs.map Prod.fst).toFinset := by
      intro known
      obtain ⟨pair, member, rfl⟩ := List.mem_map.mp (List.mem_toFinset.mp known)
      simpa using List.lookup_eq_none_iff.mp free pair member
    have grown : ((pairs ++ [(words, value)]).map Prod.fst).toFinset =
        Insert.insert words (pairs.map Prod.fst).toFinset := by
      ext other
      simp
    rw [grown, Finset.card_insert_of_notMem new, represents.counted]

theorem Represents.insert?_isSome (represents : Represents trie (entries calls)) (phrase : String) (value : α) :
    (trie.insert? phrase value).isSome = true ↔ Fresh calls phrase := by
  constructor
  · intro accepted
    obtain ⟨grown, inserted⟩ := Option.isSome_iff_exists.mp accepted
    obtain ⟨nonblank, free, _⟩ := insert?_eq_some.mp inserted
    exact (lookup_entries_eq_none nonblank).mp (represents.held _ ▸ free)
  · intro fresh
    have free := (lookup_entries_eq_none fresh.1).mpr fresh
    rw [← represents.held] at free
    exact Option.isSome_of_eq_some (insert?_eq_some.mpr ⟨fresh.1, free, rfl⟩)

/-- One insertion, accepted or refused, is one more entry of the map. -/
theorem Represents.step (represents : Represents trie (entries calls)) (phrase : String) (value : α) :
    Represents ((trie.insert? phrase value).getD trie) (entries (calls ++ [(phrase, value)])) := by
  cases inserted : trie.insert? phrase value with
  | some grown =>
    obtain ⟨nonblank, free, rfl⟩ := insert?_eq_some.mp inserted
    rw [entries_concat_of_nonblank nonblank]
    exact represents.insert (represents.held _ ▸ free) value
  | none =>
    have stale : ¬ Fresh calls phrase := by
      rw [← represents.insert?_isSome phrase value, inserted]
      exact Bool.false_ne_true
    by_cases blank : key phrase = []
    · rw [entries_concat_of_blank blank]
      exact represents
    · rw [entries_concat_of_nonblank blank]
      exact represents.shadow (mt (lookup_entries_eq_none blank).mp stale) value

theorem Represents.run (represents : Represents trie (entries calls)) (later : List (String × α)) :
    Represents (trie.insertEach later).2 (entries (calls ++ later)) ∧
      ∀ index, (trie.insertEach later).1[index]? =
        later[index]?.map fun call => decide (Fresh (calls ++ later.take index) call.1) := by
  induction later generalizing trie calls with
  | nil => exact ⟨by simpa [insertEach] using represents, by simp [insertEach]⟩
  | cons call rest ih =>
    obtain ⟨phrase, value⟩ := call
    obtain ⟨represented, answered⟩ := ih (represents.step phrase value)
    rw [← List.append_cons] at represented
    refine ⟨represented, ?_⟩
    rintro (_ | index)
    · have first := represents.insert?_isSome phrase value
      simp only [insertEach, List.getElem?_cons_zero, Option.map_some, List.take_zero, List.append_nil]
      exact congrArg some (Bool.eq_iff_iff.mpr (first.trans decide_eq_true_iff.symm))
    · have answer := answered index
      rw [← List.append_cons] at answer
      exact answer

theorem lookup_entries_nil : (entries calls).lookup [] = none := by
  rw [List.lookup_eq_none_iff]
  intro entry member
  exact bne_iff_ne.mpr (mem_entries.mp member).1.symm

theorem Represents.get? (represents : Represents trie (entries calls)) (phrase : String) :
    trie.get? phrase = (entries calls).lookup (key phrase) := by
  unfold PhraseTrie.get?
  split
  next blank => rw [blank, lookup_entries_nil]
  next => exact represents.held _

/-- The lengths of the keys that the words begin with. -/
def keyLengths (pairs : List (List String × α)) (words : List String) : Set Nat :=
  {count | 1 ≤ count ∧ count ≤ words.length ∧ (pairs.lookup ((words.take count).map lowercase)).isSome = true}

theorem Represents.longestMatch_eq_some (represents : Represents trie pairs) {count : Nat} :
    trie.longestMatch words = some (count, value) ↔
      IsGreatest (keyLengths pairs words) count ∧ pairs.lookup ((words.take count).map lowercase) = some value := by
  rw [PhraseTrie.longestMatch, PhraseNode.longestMatch_eq_some]
  constructor
  · intro longest
    have found := represents.held _ ▸ longest.found
    refine ⟨⟨⟨longest.positive, longest.within, Option.isSome_of_eq_some found⟩, ?_⟩, found⟩
    rintro other ⟨_, within, held⟩
    apply Nat.le_of_not_lt
    intro above
    rw [← represents.held, longest.longest other above within] at held
    cases held
  · rintro ⟨⟨⟨positive, within, _⟩, greatest⟩, found⟩
    refine ⟨positive, within, represents.held _ ▸ found, ?_⟩
    intro other above within
    rw [represents.held, ← Option.not_isSome_iff_eq_none]
    intro held
    exact Nat.not_le_of_lt above (greatest ⟨by omega, within, held⟩)

theorem Represents.longestMatch_eq_none (represents : Represents trie pairs) :
    trie.longestMatch words = none ↔ keyLengths pairs words = ∅ := by
  rw [PhraseTrie.longestMatch, PhraseNode.longestMatch_eq_none, Set.eq_empty_iff_forall_notMem]
  constructor
  · rintro absent count ⟨positive, within, held⟩
    rw [← represents.held, absent count positive within] at held
    cases held
  · intro empty count positive within
    rw [represents.held, ← Option.not_isSome_iff_eq_none]
    exact fun held => empty count ⟨positive, within, held⟩

/-- A trie filled from nothing is the finite map from words in lower case to first values: an insertion is accepted just
when it adds a key, the size counts the keys, an exact lookup is the map's, and the longest match is the greatest number
of words that make up a key. -/
theorem insertEach_refines_map (calls : List (String × α)) :
    (∀ index, (insertEach empty calls).1[index]? =
      calls[index]?.map fun call => decide (Fresh (calls.take index) call.1)) ∧
    let trie := (insertEach empty calls).2
    let map := fun words => (entries calls).lookup words
    trie.size = ((entries calls).map Prod.fst).toFinset.card ∧
    (∀ phrase, trie.get? phrase = map (key phrase)) ∧
    (∀ words count value, trie.longestMatch words = some (count, value) ↔
      IsGreatest (keyLengths (entries calls) words) count ∧ map ((words.take count).map lowercase) = some value) ∧
    (∀ words, trie.longestMatch words = none ↔ keyLengths (entries calls) words = ∅) := by
  have blank : Represents (empty : PhraseTrie α) (entries []) := represents_empty
  obtain ⟨represents, answered⟩ := blank.run calls
  rw [List.nil_append] at represents
  exact ⟨fun index => by simpa using answered index, represents.counted, represents.get?,
    fun words count value => represents.longestMatch_eq_some, fun words => represents.longestMatch_eq_none⟩

example : (insertEach (empty : PhraseTrie Nat) [("In", 1), ("Not  In List", 2), (" in ", 3), (" ", 4)]).1 =
    [true, true, false, false] := by decide

end Criteria.PhraseTrie
