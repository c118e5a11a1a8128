import Criteria.Proofs.LetterCase
import Criteria.Settings.Basic
/-!
The paths that names of variables stand for. Putting points for double underscores loses nothing, since the names have no
points of their own. What the points part is a path if none of its parts is empty. Otherwise the whole text is one name,
which no setting has.
-/

namespace Criteria

open Text

namespace Step

theorem scanName_eq_some {text rest : List Char} {name : String} (scanned : scanName text = some (name, rest)) :
    text = name.toList ++ rest ∧ name ≠ "" ∧ (∀ c ∈ name.toList, isNameCharacter c = true) ∧
      ∀ c ∈ rest.head?, isNameCharacter c = false := by
  unfold scanName at scanned
  split at scanned
  · cases scanned
  next occupied =>
    cases scanned
    have joined := List.takeWhile_append_dropWhile (p := isNameCharacter) (l := text)
    have within : ∀ c ∈ text.takeWhile isNameCharacter, isNameCharacter c = true := fun c inside =>
      List.all_eq_true.mp List.all_takeWhile c inside
    refine ⟨by rw [String.toList_ofList, joined], ?_, by rwa [String.toList_ofList], ?_⟩
    · intro empty
      have none := congrArg String.toList empty
      rw [String.toList_ofList] at none
      exact occupied none
    · intro c first
      have stops := List.head?_dropWhile_not isNameCharacter text
      rw [first] at stops
      simpa using stops

theorem scanSteps_nil (fuel : Nat) : scanSteps fuel [] = some [] := by cases fuel <;> rfl

theorem exists_scanned_path {fuel : Nat} {text : List Char} {steps : List Step}
    (plain : ∀ c ∈ text, isNameCharacter c = true ∨ c = '.') (scanned : scanSteps fuel ('.' :: text) = some steps) :
    ∃ path : List String, steps = path.map .member ∧ path ≠ [] ∧
      (∀ part ∈ path, part ≠ "" ∧ ∀ c ∈ part.toList, isNameCharacter c = true) ∧
      List.intercalate ['.'] (path.map String.toList) = text := by
  induction fuel generalizing text steps with
  | zero => cases scanned
  | succ fuel ih =>
    rw [scanSteps] at scanned
    obtain ⟨⟨name, rest⟩, found, continued⟩ := Option.bind_eq_some_iff.mp scanned
    obtain ⟨steps, more, rfl⟩ := Option.map_eq_some_iff.mp continued
    obtain ⟨rfl, occupied, within, stops⟩ := scanName_eq_some found
    cases rest with
    | nil =>
      cases (scanSteps_nil fuel).symm.trans more
      exact ⟨[name], rfl, by simp, by simpa using ⟨occupied, within⟩, by simp⟩
    | cons c later =>
      obtain rfl : c = '.' := by
        rcases plain c (by simp) with named | point
        · rw [stops c rfl] at named
          cases named
        · exact point
      obtain ⟨path, rfl, further, parts, joined⟩ := ih (fun c inside => plain c (by simp [inside])) more
      refine ⟨name :: path, rfl, by simp, List.forall_mem_cons.mpr ⟨⟨occupied, within⟩, parts⟩, ?_⟩
      cases path with
      | nil => exact absurd rfl further
      | cons next path =>
        rw [List.map_cons, List.map_cons, List.intercalate_cons_cons, ← List.map_cons, joined]
        simp

theorem scanSteps_name {text : List Char} (occupied : text ≠ []) (within : ∀ c ∈ text, isNameCharacter c = true)
    (fuel : Nat) : scanSteps (fuel + 1) ('.' :: text) = some [.member (String.ofList text)] := by
  have scanned : scanName text = some (String.ofList text, []) := by
    unfold scanName
    rw [List.takeWhile_eq_self_iff.mpr within, List.dropWhile_eq_nil_iff.mpr within]
    cases text with
    | nil => exact absurd rfl occupied
    | cons c rest => rfl
  rw [scanSteps, scanned]
  change (scanSteps fuel []).map _ = _
  rw [scanSteps_nil, Option.map_some]

/-- A text of name characters is the name of a single member. -/
theorem ofText_of_name {text : List Char} (occupied : text ≠ []) (within : ∀ c ∈ text, isNameCharacter c = true) :
    ofText text = [.member (String.ofList text)] := by
  rw [ofText, scanSteps_name occupied within, Option.getD_some]

/-- A text without brackets is read as a path, or it is one name that is empty or has a point. -/
theorem exists_path {text : List Char} (plain : ∀ c ∈ text, isNameCharacter c = true ∨ c = '.') :
    ∃ path : List String, ofText text = path.map .member ∧ path ≠ [] ∧
      ((∀ part ∈ path, part ≠ "" ∧ ∀ c ∈ part.toList, isNameCharacter c = true) ∧
        List.intercalate ['.'] (path.map String.toList) = text ∨
      path = [String.ofList text] ∧ (text = [] ∨ '.' ∈ text)) := by
  cases scanned : scanSteps (text.length + 1) ('.' :: text) with
  | some steps =>
    obtain ⟨path, rfl, further, parts, joined⟩ := exists_scanned_path plain scanned
    exact ⟨path, by rw [ofText, scanned, Option.getD_some], further, .inl ⟨parts, joined⟩⟩
  | none =>
    refine ⟨[String.ofList text], by rw [ofText, scanned]; rfl, by simp, .inr ⟨rfl, ?_⟩⟩
    by_contra other
    rw [not_or] at other
    have within : ∀ c ∈ text, isNameCharacter c = true := fun c inside =>
      (plain c inside).resolve_right fun same => other.2 (same ▸ inside)
    rw [scanSteps_name other.1 within] at scanned
    cases scanned

end Step

namespace Settings

inductive Setting where
  | serviceName
  | environment
  | logLevel
  | jsonLogs
  | spacedRanges
  deriving DecidableEq, Repr

namespace Setting

def all : List Setting := [.serviceName, .environment, .logLevel, .jsonLogs, .spacedRanges]

theorem mem_all (setting : Setting) : setting ∈ all := by cases setting <;> decide

instance (p : Setting → Prop) [DecidablePred p] : Decidable (∀ setting, p setting) :=
  decidable_of_iff (∀ setting ∈ all, p setting)
    ⟨fun each setting => each setting (mem_all setting), fun each setting _ => each setting⟩

/-- The tables that some of the settings are members of. -/
def groups : List String := ["observability", "expression"]

def path : Setting → List String
  | .serviceName => ["service_name"]
  | .environment => ["environment"]
  | .logLevel => ["observability", "log_level"]
  | .jsonLogs => ["observability", "json_logs"]
  | .spacedRanges => ["expression", "spaced_range_display"]

end Setting

def variableName (path : List String) : String := "eligibility_" ++ "__".intercalate path

/-- The variable stands for the path, in any letter case. -/
def Names (name : String) (path : List String) : Prop := lowercase name = variableName path

instance (name : String) (path : List String) : Decidable (Names name path) :=
  inferInstanceAs (Decidable (_ = _))

theorem toList_variableName (path : List String) :
    (variableName path).toList = variableMark ++ List.intercalate ['_', '_'] (path.map String.toList) := by
  rw [variableName, String.toList_append, String.toList_intercalate]
  rfl

/-- What stands for one character when the points are taken back. -/
def restorePoint (c : Char) : List Char := if c = '.' then ['_', '_'] else [c]

theorem flatMap_restorePoint_separateSteps {text : List Char} (pointless : '.' ∉ text) :
    (separateSteps text).flatMap restorePoint = text := by
  fun_induction separateSteps text with
  | case1 rest ih =>
    rw [List.flatMap_cons, ih (by simp_all)]
    rfl
  | case2 c rest _ ih =>
    rw [List.mem_cons, not_or] at pointless
    rw [List.flatMap_cons, ih pointless.2, restorePoint, if_neg (Ne.symm pointless.1), List.singleton_append]
  | case3 => rfl

theorem mem_separateSteps {text : List Char} {c : Char} (inside : c ∈ separateSteps text) : c = '.' ∨ c ∈ text := by
  fun_induction separateSteps text with
  | case1 rest ih =>
    rcases List.mem_cons.mp inside with point | later
    · exact .inl point
    · exact (ih later).imp_right fun kept => by simp [kept]
  | case2 d rest _ ih =>
    rcases List.mem_cons.mp inside with rfl | later
    · exact .inr List.mem_cons_self
    · exact (ih later).imp_right (List.mem_cons_of_mem _)
  | case3 => cases inside

theorem flatMap_restorePoint_intercalate {parts : List (List Char)} (pointless : ∀ part ∈ parts, '.' ∉ part) :
    (List.intercalate ['.'] parts).flatMap restorePoint = List.intercalate ['_', '_'] parts := by
  have kept (part : List Char) (pointless : '.' ∉ part) : part.flatMap restorePoint = part := by
    have each : ∀ c ∈ part, restorePoint c = [c] := by
      intro c inside
      refine if_neg ?_
      rintro rfl
      exact pointless inside
    rw [List.flatMap_congr each, List.flatMap_singleton']
  induction parts with
  | nil => rfl
  | cons part rest ih =>
    obtain ⟨here, later⟩ := List.forall_mem_cons.mp pointless
    cases rest with
    | nil => simp [kept part here]
    | cons next rest =>
      rw [List.intercalate_cons_cons, List.intercalate_cons_cons, List.flatMap_append, List.flatMap_append,
        ih later, kept part here]
      rfl

/-- The letters, digits and underscores of a name are such still when they are lowered. -/
theorem isNameCharacter_of_mem_lowercase {name : String}
    (plain : ∀ c ∈ name.toList, c.isAlphanum = true ∨ c = '_') :
    ∀ c ∈ (lowercase name).toList, Step.isNameCharacter c = true := by
  have ascii : ∀ c ∈ name.toList, c.toNat < 128 := fun c inside => by
    rcases plain c inside with alphanumeric | rfl
    · have bounds := toNat_of_isAlphanum alphanumeric
      omega
    · decide
  rw [lowercase_of_ascii ascii]
  intro lowered image
  obtain ⟨c, inside, rfl⟩ := List.mem_map.mp image
  have all : ∀ code < 128, ((Char.ofNat code).isAlphanum = true ∨ Char.ofNat code = '_') →
      Step.isNameCharacter (Char.ofNat code).toLower = true := by decide
  simpa using all c.toNat (ascii c inside) (by simpa using plain c inside)

/-- The names between the points of a text are those between its double underscores. -/
theorem intercalate_underscores {path : List String} {text : List Char} (pointless : '.' ∉ text)
    (parts : ∀ part ∈ path, '.' ∉ part.toList)
    (joined : List.intercalate ['.'] (path.map String.toList) = separateSteps text) :
    List.intercalate ['_', '_'] (path.map String.toList) = text := by
  rw [← flatMap_restorePoint_separateSteps pointless, ← joined, flatMap_restorePoint_intercalate]
  intro _ image
  obtain ⟨part, inside, rfl⟩ := List.mem_map.mp image
  exact parts part inside

theorem variableSetting?_of_mark {name : String} {text : List Char}
    (marked : (lowercase name).toList = variableMark ++ text) (value : String) :
    variableSetting? name value = some (Step.ofText (separateSteps text), variableValue value) := by
  have isMarked : variableMark.isPrefixOf (variableMark ++ text) = true :=
    List.isPrefixOf_iff_prefix.mpr (List.prefix_append ..)
  simp only [variableSetting?, marked, if_pos isMarked, List.drop_left]

theorem variableSetting?_of_no_mark {name : String} (unmarked : ¬ variableMark <+: (lowercase name).toList)
    (value : String) : variableSetting? name value = none := by
  rw [← List.isPrefixOf_iff_prefix] at unmarked
  simp only [variableSetting?, if_neg unmarked]

theorem exists_variable_path (name value : String)
    (plain : variableMark <+: (lowercase name).toList → ∀ c ∈ name.toList, c.isAlphanum = true ∨ c = '_') :
    variableSetting? name value = none ∧ (∀ path, ¬ Names name path) ∨
    ∃ path, variableSetting? name value = some (path.map .member, variableValue value) ∧ path ≠ [] ∧
      ((∀ part ∈ path, part ≠ "") ∧ Names name path ∨
        ∃ whole : String, path = [whole] ∧ (whole = "" ∨ '.' ∈ whole.toList)) := by
  by_cases marked : variableMark <+: (lowercase name).toList
  · refine .inr ?_
    have named := isNameCharacter_of_mem_lowercase (plain marked)
    obtain ⟨text, shape⟩ := marked
    have within : ∀ c ∈ text, Step.isNameCharacter c = true := fun c inside =>
      named c (shape ▸ List.mem_append_right _ inside)
    have pointless : '.' ∉ text := fun inside => absurd (within '.' inside) (by decide)
    have readable : ∀ c ∈ separateSteps text, Step.isNameCharacter c = true ∨ c = '.' := fun c inside =>
      (mem_separateSteps inside).symm.imp_left (within c)
    obtain ⟨path, read, further, parts⟩ := Step.exists_path readable
    refine ⟨path, by rw [variableSetting?_of_mark shape.symm, read], further, ?_⟩
    rcases parts with ⟨parts, joined⟩ | ⟨rfl, odd⟩
    · refine .inl ⟨fun part inside => (parts part inside).1, ?_⟩
      have restored := intercalate_underscores pointless
        (fun part inside point => absurd ((parts part inside).2 '.' point) (by decide)) joined
      rw [Names, ← String.toList_inj, toList_variableName, restored, shape]
    · refine .inr ⟨_, rfl, odd.imp ?_ ?_⟩
      · intro empty
        rw [empty]
      · intro point
        rwa [String.toList_ofList]
  · refine .inl ⟨variableSetting?_of_no_mark marked value, fun path names => marked ?_⟩
    rw [names, toList_variableName]
    exact List.prefix_append ..

theorem variableSetting?_of_names {name value : String} {setting : Setting} (names : Names name setting.path) :
    variableSetting? name value = some (setting.path.map .member, variableValue value) := by
  have read : Step.ofText (separateSteps (List.intercalate ['_', '_'] (setting.path.map String.toList))) =
      setting.path.map .member := by cases setting <;> decide
  rw [variableSetting?_of_mark (by rw [names, toList_variableName]), read]

end Settings

end Criteria
