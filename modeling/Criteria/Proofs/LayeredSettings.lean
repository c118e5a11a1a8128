import Criteria.Proofs.DocumentNames
import Criteria.Proofs.VariablePaths
/-!
Settings from layers. Each layer either defines a setting or leaves it as it was, whatever else it defines, so a setting
has the value of the last layer that defines it. This holds of the files however they coincide: one that is read in the
place of another that is missing is laid at its own place as well, behind which nothing else is laid.
-/

namespace Criteria

open Text

namespace Settings

open SettingValue

theorem getLast?_filterMap_id {α : Type} (values : List (Option α)) :
    (values.filterMap id).getLast? = values.foldl (fun found value => value.or found) none := by
  induction values using List.reverseRecOn with
  | nil => rfl
  | append_singleton values value ih =>
    rw [List.filterMap_append, List.getLast?_append, ih, List.foldl_append]
    cases value <;> rfl

/-- What groups settings is a table, if it is there. -/
def Grouped (tree : SettingValue) : Prop :=
  ∀ group ∈ Setting.groups, ∀ value ∈ tree.members.lookup group, value.isTable = true

instance (tree : SettingValue) : Decidable (Grouped tree) :=
  inferInstanceAs (Decidable (∀ group ∈ Setting.groups, ∀ value ∈ tree.members.lookup group, value.isTable = true))

section Fields

variable {tree : SettingValue} (grouped : Grouped tree)
include grouped

theorem fieldOf?_eq {group : String} (member : group ∈ Setting.groups) (position : Nat) (name : String) :
    fieldOf? tree group position name = some (tree.at? [group, name]) := by
  unfold fieldOf?
  rw [at?_cons]
  cases found : tree.members.lookup group with
  | none => rfl
  | some value =>
    have table := grouped group member value found
    cases value with
    | table members =>
      change some (members.lookup name) = some ((members.lookup name).bind some)
      cases members.lookup name <;> rfl
    | _ => cases table

end Fields

namespace Setting

/-- The value without any layer. -/
def builtIn (service environment : String) : Setting → SettingValue
  | .serviceName => .text service
  | .environment => .text environment
  | .logLevel => .text standard.logLevel
  | .jsonLogs => .boolean standard.jsonLogs
  | .spacedRanges => .boolean standard.spacedRanges

/-- The field for the setting is the value, taken for one of the field's type. -/
def Holds (settings : Settings) (value : SettingValue) : Setting → Prop
  | .serviceName => value.toText? = some settings.serviceName
  | .environment => value.toText? = some settings.environment
  | .logLevel => value.toText? = some settings.logLevel
  | .jsonLogs => value.toBoolean? = some settings.jsonLogs
  | .spacedRanges => value.toBoolean? = some settings.spacedRanges

instance (settings : Settings) (value : SettingValue) : DecidablePred (Holds settings value)
  | .serviceName | .environment | .logLevel | .jsonLogs | .spacedRanges => inferInstanceAs (Decidable (_ = _))

end Setting

theorem decodeField_eq {α : Type} {decode : SettingValue → Option α} {fallback : α} {standard : SettingValue}
    (known : decode standard = some fallback) (value : Option SettingValue) :
    decodeField decode fallback value = decode (value.getD standard) := by
  cases value with
  | none => exact known.symm
  | some value => rfl

theorem ofTree?_eq_some {tree : SettingValue} (grouped : Grouped tree) {settings : Settings} :
    ofTree? tree = some settings ↔
      ∀ setting : Setting, setting.Holds settings
        ((tree.at? setting.path).getD (setting.builtIn standard.serviceName standard.environment)) := by
  have single (name : String) : tree.members.lookup name = tree.at? [name] := by
    rw [at?_cons]
    cases tree.members.lookup name <;> rfl
  have observed : "observability" ∈ Setting.groups := by decide
  have expressed : "expression" ∈ Setting.groups := by decide
  have text (word : String) : toText? (.text word) = some word := rfl
  have boolean (value : Bool) : toBoolean? (.boolean value) = some value := rfl
  simp only [ofTree?, single, fieldOf?_eq grouped observed, fieldOf?_eq grouped expressed, Option.bind_eq_bind,
    Option.bind_some, decodeField_eq (text _), decodeField_eq (boolean _)]
  constructor
  · intro read setting
    obtain ⟨service, first, read⟩ := Option.bind_eq_some_iff.mp read
    obtain ⟨environment, second, read⟩ := Option.bind_eq_some_iff.mp read
    obtain ⟨level, third, read⟩ := Option.bind_eq_some_iff.mp read
    obtain ⟨json, fourth, read⟩ := Option.bind_eq_some_iff.mp read
    obtain ⟨spaced, fifth, read⟩ := Option.bind_eq_some_iff.mp read
    cases read
    cases setting with
    | serviceName => exact first
    | environment => exact second
    | logLevel => exact third
    | jsonLogs => exact fourth
    | spacedRanges => exact fifth
  · intro holds
    have first : _ = some settings.serviceName := holds .serviceName
    have second : _ = some settings.environment := holds .environment
    have third : _ = some settings.logLevel := holds .logLevel
    have fourth : _ = some settings.jsonLogs := holds .jsonLogs
    have fifth : _ = some settings.spacedRanges := holds .spacedRanges
    simp only [Setting.path, Setting.builtIn] at first second third fourth fifth
    rw [first, second, third, fourth, fifth]
    rfl

/-- The layer gives the settings these values, and leaves the others as they were. -/
structure Lays (layer : Layer) (given : Setting → Option SettingValue) : Prop where
  grouped : ∀ tree, Grouped tree → Grouped (overlayLayer tree layer)
  overrides : ∀ tree (setting : Setting), (overlayLayer tree layer).at? setting.path =
    (given setting).or (tree.at? setting.path)

/-- A name that is no path. -/
def IsBare (name : String) : Prop := name.toList ≠ [] ∧ ∀ c ∈ name.toList, Step.isNameCharacter c = true

instance (name : String) : Decidable (IsBare name) :=
  decidable_of_iff (name.toList ≠ [] ∧ name.toList.all Step.isNameCharacter = true) (by rw [List.all_eq_true, IsBare])

/-- What is asked of a file: bare names, tables to group settings, and scalars for settings. -/
structure Document (members : List (String × SettingValue)) : Prop where
  bare : ∀ member ∈ members, IsBare member.1
  grouped : Grouped (.table members)
  scalar : ∀ setting : Setting, ∀ value ∈ (SettingValue.table members).at? setting.path, value.isScalar = true

instance (members : List (String × SettingValue)) : Decidable (Document members) :=
  decidable_of_iff
    ((∀ member ∈ members, IsBare member.1) ∧ Grouped (.table members) ∧
      ∀ setting : Setting, ∀ value ∈ (SettingValue.table members).at? setting.path, value.isScalar = true)
    ⟨fun ⟨bare, grouped, scalar⟩ => ⟨bare, grouped, scalar⟩, fun ⟨bare, grouped, scalar⟩ => ⟨bare, grouped, scalar⟩⟩

theorem overlayLayer_members {members : List (String × SettingValue)} (bare : ∀ member ∈ members, IsBare member.1)
    (tree : SettingValue) :
    overlayLayer tree (members.map fun (name, value) => (Step.ofText name.toList, value)) =
      overlayMembers tree members := by
  induction members generalizing tree with
  | nil => rw [overlayMembers, overlayLayer, List.map_nil, List.foldl_nil]
  | cons member rest ih =>
    obtain ⟨name, value⟩ := member
    obtain ⟨⟨occupied, within⟩, later⟩ := List.forall_mem_cons.mp bare
    have single : Step.ofText name.toList = [.member name] := by
      rw [Step.ofText_of_name occupied within, String.ofList_toList]
    rw [overlayMembers, ← ih later, overlayLayer, List.map_cons, List.foldl_cons]
    simp only [single]
    rfl

theorem Setting.path_cases (setting : Setting) :
    (∃ name, setting.path = [name]) ∨ ∃ group ∈ groups, ∃ name, setting.path = [group, name] := by
  cases setting with
  | serviceName | environment => exact .inl ⟨_, rfl⟩
  | logLevel | jsonLogs => exact .inr ⟨"observability", by decide, _, rfl⟩
  | spacedRanges => exact .inr ⟨"expression", by decide, _, rfl⟩

namespace Document

variable {members : List (String × SettingValue)} (document : Document members)
include document

theorem leads (setting : Setting) : (SettingValue.table members).Leads setting.path := by
  have scalar := document.scalar setting
  rcases setting.path_cases with ⟨name, shape⟩ | ⟨group, member, name, shape⟩
  · rw [shape] at scalar ⊢
    exact ⟨rfl, fun value found => scalar value (by rw [at?_cons, found]; rfl)⟩
  · rw [shape] at scalar ⊢
    refine ⟨rfl, fun value found => ⟨document.grouped group member value found, fun inner deeper => ?_⟩⟩
    exact scalar inner (by rw [at?_cons, found, Option.bind_some, at?_cons, deeper]; rfl)

theorem lays (distinct : (SettingValue.table members).Distinct) :
    Lays (members.map fun (name, value) => (Step.ofText name.toList, value))
      (fun setting => (SettingValue.table members).at? setting.path) := by
  constructor
  · intro tree grouped group member value found
    rw [overlayLayer_members document.bare] at found
    cases distinct with
    | plain plain => cases plain
    | table names _ =>
      rw [lookup_overlayMembers names] at found
      cases upper : members.lookup group with
      | none => exact grouped group member value (by rwa [upper] at found)
      | some inner =>
        rw [upper] at found
        cases found
        exact isTable_overlay (document.grouped group member inner upper)
  · intro tree setting
    rw [overlayLayer_members document.bare]
    have further : setting.path ≠ [] := by cases setting <;> simp [Setting.path]
    exact at?_overlayMembers distinct (document.leads setting) further tree

end Document

/-- What is asked of the variables: no character but ASCII letters, digits and underscores in their names, one variable
for a setting at most, and none for what groups settings or for a path that leads on from a setting. -/
structure Apart (bindings : List (String × String)) : Prop where
  plain : ∀ binding ∈ bindings, variableMark <+: (lowercase binding.1).toList →
    ∀ c ∈ binding.1.toList, c.isAlphanum = true ∨ c = '_'
  once : bindings.Pairwise fun first second =>
    ∀ setting : Setting, ¬ (Names first.1 setting.path ∧ Names second.1 setting.path)
  groups : ∀ binding ∈ bindings, ∀ group ∈ Setting.groups, ¬ Names binding.1 [group]
  beyond : ∀ binding ∈ bindings, ∀ (setting : Setting) (path : List String), path ≠ [] → (∀ part ∈ path, part ≠ "") →
    ¬ Names binding.1 (setting.path ++ path)

theorem Apart.of_cons {binding : String × String} {rest : List (String × String)} (apart : Apart (binding :: rest)) :
    Apart rest where
  plain other inside := apart.plain other (List.mem_cons_of_mem _ inside)
  once := apart.once.of_cons
  groups other inside := apart.groups other (List.mem_cons_of_mem _ inside)
  beyond other inside := apart.beyond other (List.mem_cons_of_mem _ inside)

/-- The value of the variable that stands for the setting. -/
def named? (bindings : List (String × String)) (setting : Setting) : Option SettingValue :=
  (bindings.find? fun binding => Names binding.1 setting.path).map fun binding => variableValue binding.2

theorem isScalar_variableValue (text : String) : (variableValue text).isScalar = true := by
  unfold variableValue
  dsimp only
  split
  · rfl
  split
  · rfl
  split
  · rfl
  split <;> rfl

namespace Setting

variable {setting : Setting} {path : List String}

theorem eq_of_prefix (further : path ≠ []) (front : path <+: setting.path) :
    path = setting.path ∨ ∃ group ∈ groups, path = [group] := by
  cases path with
  | nil => exact absurd rfl further
  | cons first rest =>
    obtain ⟨more, whole⟩ := front
    rcases setting.path_cases with ⟨name, shape⟩ | ⟨group, member, name, shape⟩
    · rw [shape] at whole ⊢
      obtain ⟨rfl, nothing⟩ := List.cons.inj whole
      exact .inl (by rw [(List.append_eq_nil_iff.mp nothing).1])
    · rw [shape] at whole ⊢
      obtain ⟨rfl, single⟩ := List.cons.inj whole
      rcases List.append_eq_singleton_iff.mp single with ⟨rfl, _⟩ | ⟨rfl, _⟩
      · exact .inr ⟨first, member, rfl⟩
      · exact .inl rfl

theorem not_mem_path {odd : String} (shape : odd = "" ∨ '.' ∈ odd.toList) (setting : Setting) : odd ∉ setting.path := by
  intro member
  have plain : ∀ part ∈ setting.path, part ≠ "" ∧ '.' ∉ part.toList := by cases setting <;> decide
  exact shape.elim (plain odd member).1 (plain odd member).2

/-- A name that is empty or has a point is on the way to no setting, nor behind one. -/
theorem apart_of_odd {odd : String} (shape : odd = "" ∨ '.' ∈ odd.toList) (setting : Setting) :
    ¬ [odd] <+: setting.path ∧ ¬ setting.path <+: [odd] := by
  refine ⟨fun front => not_mem_path shape setting (front.subset List.mem_cons_self), fun beyond => ?_⟩
  obtain ⟨part, inside⟩ : ∃ part, part ∈ setting.path := by cases setting <;> exact ⟨_, List.mem_cons_self⟩
  obtain rfl := List.mem_singleton.mp (beyond.subset inside)
  exact not_mem_path shape setting inside

theorem exists_of_group {group : String} (member : group ∈ groups) : ∃ setting : Setting, group ∈ setting.path := by
  have all : ∀ group ∈ groups, group ∈ logLevel.path ∨ group ∈ spacedRanges.path := by decide
  exact (all group member).elim (fun inside => ⟨_, inside⟩) (fun inside => ⟨_, inside⟩)

end Setting

/-- A variable that is read stands for one setting, or its path and those of the settings part somewhere. -/
theorem variable_cases {bindings : List (String × String)} (apart : Apart bindings) {binding : String × String}
    (member : binding ∈ bindings) :
    variableSetting? binding.1 binding.2 = none ∧ (∀ setting : Setting, ¬ Names binding.1 setting.path) ∨
    ∃ path, variableSetting? binding.1 binding.2 = some (path.map .member, variableValue binding.2) ∧ path ≠ [] ∧
      (∀ group ∈ Setting.groups, path ≠ [group]) ∧
      ∀ setting : Setting, Names binding.1 setting.path ∧ path = setting.path ∨
        ¬ Names binding.1 setting.path ∧ ¬ path <+: setting.path ∧ ¬ setting.path <+: path := by
  rcases exists_variable_path binding.1 binding.2 (apart.plain binding member) with
    ⟨unread, unnamed⟩ | ⟨path, read, further, shape⟩
  · exact .inl ⟨unread, fun setting => unnamed setting.path⟩
  have same {setting : Setting} (names : Names binding.1 setting.path) : path = setting.path := by
    have other := read.symm.trans (variableSetting?_of_names names)
    have steps := (Prod.mk.inj (Option.some.inj other)).1
    exact List.map_injective_iff.mpr (fun _ _ => Step.member.inj) steps
  refine .inr ⟨path, read, further, ?_⟩
  -- The path is the one that the variable names, or one odd name, of which nothing is asked and with which nothing fits.
  rcases shape with ⟨parts, names⟩ | ⟨odd, rfl, pointed⟩
  · refine ⟨fun group grouping single => apart.groups binding member group grouping (single ▸ names), fun setting => ?_⟩
    by_cases named : Names binding.1 setting.path
    · exact .inl ⟨named, same named⟩
    refine .inr ⟨named, fun front => ?_, fun beyond => ?_⟩
    · rcases Setting.eq_of_prefix further front with rfl | ⟨group, grouping, rfl⟩
      · exact named names
      · exact apart.groups binding member group grouping names
    · obtain ⟨more, rfl⟩ := beyond
      by_cases nothing : more = []
      · rw [nothing, List.append_nil] at names
        exact named names
      · exact apart.beyond binding member setting more nothing
          (fun part inside => parts part (List.mem_append_right _ inside)) names
  · refine ⟨fun group grouping single => ?_, fun setting => ?_⟩
    · obtain ⟨setting, inside⟩ := Setting.exists_of_group grouping
      exact Setting.not_mem_path pointed setting (List.singleton_inj.mp single ▸ inside)
    · obtain ⟨front, beyond⟩ := Setting.apart_of_odd pointed setting
      exact .inr ⟨fun named => front (same named ▸ List.prefix_rfl), front, beyond⟩

theorem grouped_overlayAt {tree value : SettingValue} {path : List String} (further : path ≠ [])
    (other : ∀ group ∈ Setting.groups, path ≠ [group]) (grouped : Grouped tree) :
    Grouped (tree.overlayAt value (path.map .member)) := by
  intro group member found
  cases path with
  | nil => exact absurd rfl further
  | cons name rest =>
    rw [List.map_cons, overlayAt, members_putMember]
    by_cases same : group = name
    · subst same
      cases rest with
      | nil => exact absurd rfl (other group member)
      | cons next rest =>
        rw [Association.lookup_put_self]
        rintro ⟨⟩
        rfl
    · rw [Association.lookup_put_of_ne same]
      exact grouped group member found

theorem lays_variables {bindings : List (String × String)} (apart : Apart bindings) :
    Lays (variableLayer bindings) (named? bindings) := by
  induction bindings with
  | nil => exact ⟨fun tree grouped => grouped, fun tree setting => rfl⟩
  | cons binding rest ih =>
    have later : Lays (variableLayer rest) (named? rest) := ih apart.of_cons
    have skipped {setting : Setting} (unnamed : ¬ Names binding.1 setting.path) :
        named? (binding :: rest) setting = named? rest setting := by
      rw [named?, named?, List.find?_cons_of_neg (by simpa using unnamed)]
    rcases variable_cases apart List.mem_cons_self with ⟨unread, unnamed⟩ | ⟨path, read, further, other, names⟩
    · have same : variableLayer (binding :: rest) = variableLayer rest := List.filterMap_cons_none unread
      rw [same]
      exact ⟨later.grouped, fun tree setting => by rw [later.overrides, skipped (unnamed setting)]⟩
    · have more : variableLayer (binding :: rest) =
          (path.map .member, variableValue binding.2) :: variableLayer rest := List.filterMap_cons_some read
      rw [more]
      constructor
      · intro tree grouped
        exact later.grouped _ (grouped_overlayAt further other grouped)
      · intro tree setting
        rw [overlayLayer, List.foldl_cons, ← overlayLayer, later.overrides]
        rcases names setting with ⟨here, rfl⟩ | ⟨unnamed, behind, before⟩
        -- Overlaying keeps the last value and the search takes the first, but no other variable names the setting.
        · have alone : named? rest setting = none := by
            rw [named?, List.find?_eq_none.mpr, Option.map_none]
            intro second inside
            have once := List.rel_of_pairwise_cons apart.once inside setting
            simpa using fun again => once ⟨here, again⟩
          rw [alone, Option.none_or, at?_overlayAt_self (isScalar_variableValue binding.2), named?,
            List.find?_cons_of_pos (by simpa using here)]
          rfl
        · rw [at?_overlayAt_of_apart behind before, skipped unnamed]

/-- What the text of a file defines a setting as. -/
def textDefines? (text : String) (setting : Setting) : Option SettingValue :=
  (fileMembers? text).bind fun members => (SettingValue.table members).at? setting.path

theorem lays_text {text : String} {members : List (String × SettingValue)} (read : fileMembers? text = some members)
    (document : Document members) : ∃ layer, fileLayer text = some layer ∧ Lays layer (textDefines? text) := by
  refine ⟨members.map fun (name, value) => (Step.ofText name.toList, value), ?_, ?_⟩
  · rw [fileLayer, read, Option.map_some]
  · have given : textDefines? text = fun setting => (SettingValue.table members).at? setting.path := by
      funext setting
      rw [textDefines?, read, Option.bind_some]
    rw [given]
    exact document.lays (Toml.distinct_read read)

/-- What is laid for the name, from the file itself or from the one that takes its place. -/
def laid? (files : List (String × String)) (setting : Setting) (name : String) : Option SettingValue :=
  (namedFile? files name).bind fun file => textDefines? file.2 setting

theorem lays_files {files : List (String × String)} {names : List String}
    (readable : ∀ name ∈ names, ∀ file, namedFile? files name = some file →
      ∃ members ∈ fileMembers? file.2, Document members) :
    ∃ layers, fileLayers (names.filterMap (namedFile? files)) = .ok layers ∧ ∀ tree,
      (Grouped tree → Grouped (layers.foldl overlayLayer tree)) ∧
      ∀ setting : Setting, (layers.foldl overlayLayer tree).at? setting.path =
        names.foldl (fun found name => (laid? files setting name).or found) (tree.at? setting.path) := by
  induction names with
  | nil => exact ⟨[], rfl, fun tree => ⟨fun grouped => grouped, fun setting => rfl⟩⟩
  | cons name rest ih =>
    obtain ⟨here, later⟩ := List.forall_mem_cons.mp readable
    obtain ⟨layers, listed, laid⟩ := ih later
    cases found : namedFile? files name with
    | none =>
      refine ⟨layers, by rw [List.filterMap_cons_none found, listed], fun tree => ⟨(laid tree).1, fun setting => ?_⟩⟩
      have nothing : laid? files setting name = none := by rw [laid?, found, Option.bind_none]
      rw [List.foldl_cons, nothing, Option.none_or, (laid tree).2]
    | some file =>
      obtain ⟨members, read, document⟩ := here file found
      obtain ⟨layer, given, lays⟩ := lays_text read document
      refine ⟨layer :: layers, ?_, fun tree => ⟨fun grouped => ?_, fun setting => ?_⟩⟩
      · rw [List.filterMap_cons_some found, fileLayers_cons, given, listed]
        rfl
      · exact (laid _).1 (lays.grouped tree grouped)
      · have something : laid? files setting name = textDefines? file.2 setting := by
          rw [laid?, found, Option.bind_some]
        rw [List.foldl_cons, List.foldl_cons, (laid _).2, lays.overrides, something]

/-- What the file with the name defines a setting as. A file without a name before its ending defines nothing. -/
def defined? (files : List (String × String)) (setting : Setting) (name : String) : Option SettingValue :=
  if isNameless name then none else (files.lookup (name ++ ".toml")).bind (textDefines? · setting)

/-- The endings by which files of the other formats are known. -/
def foreignEndings : List String := [".json", ".yaml", ".yml", ".ini", ".ron", ".json5"]

/-- In the place of a missing file none of another format is found, and no other file but those that are read at their
own place. -/
def Alone (files : List (String × String)) (names : List String) : Prop :=
  ∀ name ∈ names, files.lookup (name ++ ".toml") = none →
    (∀ ending ∈ foreignEndings, files.lookup (name ++ ".toml" ++ ending) = none) ∧
      ((files.lookup (name ++ ".toml" ++ ".toml")).isSome = true → name ++ ".toml" ∈ names)

instance (files : List (String × String)) (names : List String) : Decidable (Alone files names) :=
  inferInstanceAs (Decidable (∀ name ∈ names, _ → (∀ ending ∈ foreignEndings, _) ∧ (_ → _)))

/-- Nothing is found in the place of another file if there are no files but those with one of the names. -/
theorem alone_of_own {files : List (String × String)} {names : List String}
    (own : ∀ file ∈ files, ∃ name ∈ names, file.1 = name ++ ".toml") : Alone files names := by
  have listed {path text : String} (found : files.lookup path = some text) : ∃ name ∈ names, path = name ++ ".toml" := by
    obtain ⟨before, after, rfl, _⟩ := List.lookup_eq_some_iff.mp found
    exact own (path, text) (by simp)
  refine fun name member missing => ⟨fun ending foreign => ?_, fun present => ?_⟩
  · rw [Option.eq_none_iff_forall_ne_some]
    intro text found
    obtain ⟨other, _, same⟩ := listed found
    have apart : ∀ ending ∈ foreignEndings, ¬ ".toml".toList <:+ ".toml".toList ++ ending.toList := by decide
    have ends : ".toml".toList <:+ name.toList ++ (".toml".toList ++ ending.toList) := by
      rw [← List.append_assoc, ← String.toList_append, ← String.toList_append, same, String.toList_append]
      exact List.suffix_append _ _
    refine apart ending foreign (List.suffix_of_suffix_length_le ends (List.suffix_append _ _) ?_)
    rw [List.length_append]
    exact Nat.le_add_right _ _
  · obtain ⟨text, found⟩ := Option.isSome_iff_exists.mp present
    obtain ⟨other, inside, same⟩ := listed found
    rwa [(String.append_left_inj _).mp same]

theorem getLast?_ending (name : String) : (name ++ ".toml").toList.getLast? = some 'l' := by
  rw [String.toList_append, List.getLast?_append]
  rfl

theorem laid?_cases {files : List (String × String)} {names : List String} (alone : Alone files names) {name : String}
    (member : name ∈ names) (setting : Setting) :
    laid? files setting name = defined? files setting name ∨ defined? files setting name = none ∧
      (laid? files setting name = none ∨ ∃ other ∈ names, other ≠ "default" ∧ other ≠ name ∧
        laid? files setting name = defined? files setting other) := by
  cases found : files.lookup (name ++ ".toml") with
  | some text =>
    left
    simp only [laid?, namedFile?, defined?, found]
    split <;> rfl
  | none =>
    right
    refine ⟨by simp only [defined?, found, Option.bind_none, ite_self], ?_⟩
    cases other : files.lookup (name ++ ".toml" ++ ".toml") with
    | none => exact .inl (by simp only [laid?, namedFile?, found, other]; rfl)
    | some text =>
      refine .inr ⟨_, (alone name member found).2 (by rw [other]; rfl), ?_, ?_, ?_⟩
      · intro same
        have last := getLast?_ending name
        rw [same] at last
        exact absurd last (by decide)
      · intro same
        have size := congrArg String.length same
        rw [String.length_append] at size
        exact absurd size (by simp)
      · have named : isNameless (name ++ ".toml") = false := by
          rw [isNameless, getLast?_ending]
          rfl
        simp only [laid?, namedFile?, defined?, found, other, named]
        rfl

/-- What is laid once more in an earlier place makes no difference. -/
theorem or_laid_early {α : Type} {first second third first' second' third' : Option α}
    (one : first' = first ∨ first = none ∧ (first' = none ∨ first' = second ∨ first' = third))
    (two : second' = second ∨ second = none ∧ (second' = none ∨ second' = third))
    (three : third' = third ∨ third = none ∧ (third' = none ∨ third' = second)) (below : Option α) :
    third'.or (second'.or (first'.or below)) = third.or (second.or (first.or below)) := by
  cases third with
  | some value =>
    obtain rfl : third' = some value := by simpa using three
    rfl
  | none =>
    obtain rfl : second' = second := two.elim id fun ⟨missing, given⟩ => missing ▸ given.elim id id
    cases second' with
    | some value =>
      rcases three with rfl | ⟨_, rfl | rfl⟩ <;> rfl
    | none =>
      obtain rfl : third' = none := three.elim id fun ⟨_, given⟩ => given.elim id id
      obtain rfl : first' = first := one.elim id fun ⟨missing, given⟩ => missing ▸ given.elim id (·.elim id id)
      rfl

theorem foldl_laid? {files : List (String × String)} {service environment : String}
    (alone : Alone files ["default", environment, service]) (setting : Setting) (below : Option SettingValue) :
    ["default", environment, service].foldl (fun found name => (laid? files setting name).or found) below =
      ["default", environment, service].foldl (fun found name => (defined? files setting name).or found) below := by
  have cases (name : String) (member : name ∈ ["default", environment, service]) := laid?_cases alone member setting
  simp only [List.mem_cons, List.not_mem_nil, or_false] at cases
  -- What is read at the place of a missing file belongs to one of the three. It is not the default's, nor its own.
  refine or_laid_early ?_ ?_ ?_ below
  · refine (cases "default" (.inl rfl)).imp_right fun ⟨missing, given⟩ => ⟨missing, given.imp_right ?_⟩
    rintro ⟨other, rfl | rfl | rfl, fixed, own, given⟩
    · exact absurd rfl fixed
    · exact .inl given
    · exact .inr given
  · refine (cases environment (.inr (.inl rfl))).imp_right fun ⟨missing, given⟩ => ⟨missing, given.imp_right ?_⟩
    rintro ⟨other, rfl | rfl | rfl, fixed, own, given⟩
    · exact absurd rfl fixed
    · exact absurd rfl own
    · exact given
  · refine (cases service (.inr (.inr rfl))).imp_right fun ⟨missing, given⟩ => ⟨missing, given.imp_right ?_⟩
    rintro ⟨other, rfl | rfl | rfl, fixed, own, given⟩
    · exact absurd rfl fixed
    · exact given
    · exact absurd rfl own

/-- What the layers define a setting as, from the built-in default to the variables. -/
def definitions (service environment : String) (files bindings : List (String × String)) (setting : Setting) :
    List SettingValue :=
  (some (setting.builtIn service environment) ::
    ["default", environment, service].map (defined? files setting) ++ [named? bindings setting]).filterMap id

theorem at?_defaults (service environment : String) (setting : Setting) :
    ((overlayLayer (.table []) (defaults service environment)).at? setting.path).or
        (some (setting.builtIn standard.serviceName standard.environment)) =
      some (setting.builtIn service environment) := by
  cases setting <;> rfl

theorem grouped_defaults (service environment : String) :
    Grouped (overlayLayer (.table []) (defaults service environment)) := by
  have shape : overlayLayer (.table []) (defaults service environment) =
      .table [("service_name", .text service), ("environment", .text environment)] := rfl
  have all : ∀ group ∈ Setting.groups, group ∉ ["service_name", "environment"] := by decide
  intro group member value found
  rw [shape, SettingValue.members, Association.lookup_eq_none_iff_not_mem.mpr (all group member)] at found
  cases found

/-- Each of the files that is there holds a document. -/
def Documented (files : List (String × String)) (names : List String) : Prop :=
  ∀ name ∈ names, ∀ text ∈ files.lookup (name ++ ".toml"), ∃ members ∈ fileMembers? text, Document members

instance (files : List (String × String)) (names : List String) : Decidable (Documented files names) :=
  inferInstanceAs (Decidable (∀ name ∈ names, ∀ text ∈ files.lookup (name ++ ".toml"), ∃ members ∈ _, _))

theorem document_named {files : List (String × String)} {names : List String} (documented : Documented files names)
    (alone : Alone files names) {name : String} (member : name ∈ names) {file : String × String}
    (found : namedFile? files name = some file) :
    ∃ members ∈ fileMembers? file.2, Document members := by
  unfold namedFile? at found
  dsimp only at found
  split at found
  next text present =>
    split at found
    · cases found
    · cases found
      exact documented name member text present
  next missing =>
    obtain ⟨text, present, rfl⟩ := Option.map_eq_some_iff.mp found
    exact documented _ ((alone name member missing).2 (by rw [present]; rfl)) text present

/-- All layers make up a tree, in which each setting has the last value that it is defined as. -/
theorem exists_tree {service environment : String} {files bindings : List (String × String)}
    (documented : Documented files ["default", environment, service])
    (alone : Alone files ["default", environment, service]) (apart : Apart bindings) :
    ∃ tree, Grouped tree ∧
      (∀ setting : Setting, (definitions service environment files bindings setting).getLast? =
        some ((tree.at? setting.path).getD (setting.builtIn standard.serviceName standard.environment))) ∧
      load service environment files bindings = match ofTree? tree with
        | some settings => .ok settings
        | none => .error .unsuitableValue := by
  obtain ⟨layers, listed, laid⟩ := lays_files fun name member file => document_named documented alone member
  have last := lays_variables apart
  obtain ⟨keeps, overrides⟩ := laid (overlayLayer (.table []) (defaults service environment))
  refine ⟨_, last.grouped _ (keeps (grouped_defaults service environment)), fun setting => ?_, ?_⟩
  · rw [last.overrides, overrides, foldl_laid? alone, ← Option.or_some, definitions, getLast?_filterMap_id]
    simp only [List.map_cons, List.map_nil, List.cons_append, List.nil_append, List.foldl_cons, List.foldl_nil,
      Option.or_none, Option.or_assoc, at?_defaults]
  · rw [load, fileTexts, listed]
    simp only [List.cons_append, List.foldl_cons, List.foldl_append, List.foldl_nil]
    rfl

/-- Settings are loaded just when they are the values of the last layers that define them, each taken for a value of its
field's type. -/
theorem load_layered {service environment : String} {files bindings : List (String × String)}
    (documented : Documented files ["default", environment, service])
    (alone : Alone files ["default", environment, service]) (apart : Apart bindings) (settings : Settings) :
    load service environment files bindings = .ok settings ↔
      ∀ setting : Setting, ∃ value ∈ (definitions service environment files bindings setting).getLast?,
        setting.Holds settings value := by
  obtain ⟨tree, grouped, values, loaded⟩ := exists_tree documented alone apart
  have decoded : load service environment files bindings = .ok settings ↔ ofTree? tree = some settings := by
    rw [loaded]
    cases ofTree? tree <;> simp
  rw [decoded, ofTree?_eq_some grouped]
  simp only [values, Option.mem_some, exists_eq_left']

theorem prefix_of_names_beyond {name : String} {setting : Setting} {path : List String} (further : path ≠ [])
    (names : Names name (setting.path ++ path)) :
    (variableName setting.path).toList ++ ['_', '_'] <+: (lowercase name).toList := by
  have more : path.map String.toList ≠ [] := fun empty => further (List.map_eq_nil_iff.mp empty)
  rw [names, toList_variableName, toList_variableName, List.map_append]
  refine ⟨List.intercalate ['_', '_'] (path.map String.toList), ?_⟩
  rcases setting.path_cases with ⟨first, shape⟩ | ⟨group, _, first, shape⟩
  · simp [shape, List.intercalate_cons_of_ne_nil more]
  · simp [shape, List.intercalate_cons_cons, List.intercalate_cons_of_ne_nil more]

private def loanFiles : List (String × String) :=
  [("default.toml", "service_name = \"base\"\n[observability]\nlog_level = \"debug\"\njson_logs = 1\n"),
    ("production.toml", "[expression]\nspaced_range_display = \"yes\"\n")]

private def loanVariables : List (String × String) :=
  [("PATH", "/bin"), ("Eligibility_Observability__Log_Level", "warn"), ("ELIGIBILITY_EXPRESSION_", "0")]

private theorem apart_loanVariables : Apart loanVariables where
  plain := by
    have each : ∀ binding ∈ loanVariables, (binding.1.toList.all fun c => c.isAlphanum || c == '_') = true ∨
        ¬ variableMark <+: (lowercase binding.1).toList := by decide +kernel
    intro binding member marked c inside
    have visible := List.all_eq_true.mp ((each binding member).resolve_right (not_not_intro marked)) c inside
    simpa using visible
  once := by decide +kernel
  groups := by decide +kernel
  beyond := by
    intro binding member setting path further _ names
    have ends : ∀ binding ∈ loanVariables, ∀ setting : Setting,
        ¬ (variableName setting.path).toList ++ ['_', '_'] <+: (lowercase binding.1).toList := by decide +kernel
    exact ends binding member setting (prefix_of_names_beyond further names)

/-- The file for the environment is the file for the service as well, and the last variable is for no setting. -/
theorem load_layered_loanFiles :
    load "production" "production" loanFiles loanVariables = .ok ⟨"base", "production", "warn", true, true⟩ := by
  have alone : Alone loanFiles ["default", "production", "production"] := alone_of_own (by decide)
  exact (load_layered (by decide +kernel) alone apart_loanVariables _).mpr (by decide +kernel)

private def unnamedFiles : List (String × String) := [(".toml", "[observability]\nlog_level = \"debug\"\n")]

/-- The service has an empty name, and its file only an ending. All that is asked of files and variables is given, and the
file for the service is the last layer that defines the setting, but it is passed over. -/
theorem load_unnamed :
    Documented unnamedFiles ["default", "test", ""] ∧ Alone unnamedFiles ["default", "test", ""] ∧ Apart [] ∧
      ((unnamedFiles.lookup ("" ++ ".toml")).bind (textDefines? · .logLevel)).bind toText? = some "debug" ∧
      load "" "test" unnamedFiles [] = .ok ⟨"", "test", "info", false, false⟩ :=
  ⟨by decide +kernel, by decide, ⟨by simp, .nil, by simp, by simp⟩, by decide +kernel, by decide +kernel⟩

end Settings

end Criteria
