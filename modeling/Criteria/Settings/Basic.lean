import Criteria.Settings.Path
import Criteria.Toml.Document
/-!
Settings from layers: the defaults, the files named `default`, for the environment and for the service, and the
environment variables. A later layer overrides an earlier one setting by setting.
-/

namespace Criteria

structure Settings where
  serviceName : String
  environment : String
  logLevel : String
  jsonLogs : Bool
  spacedRanges : Bool
  deriving DecidableEq, Repr

inductive SettingsError where
  | malformedFile (name : String)
  | unsuitableValue
  deriving DecidableEq, Repr

namespace Settings

/-- What stands for a setting that nothing defines. -/
def standard : Settings where
  serviceName := "rule-expression-engine"
  environment := "development"
  logLevel := "info"
  jsonLogs := false
  spacedRanges := false

def isProduction (settings : Settings) : Bool := settings.environment == "production"

/-- Settings with the path to each. -/
abbrev Layer := List (List Step × SettingValue)

def defaults (service environment : String) : Layer :=
  [([.member "service_name"], .text service), ([.member "environment"], .text environment)]

/-- The members of the document in a file, which may begin with a byte order mark of its own. -/
def fileMembers? (text : String) : Option (List (String × SettingValue)) :=
  Toml.read (String.ofList (Toml.dropByteOrderMark text.toList))

/-- The members of a file by the paths that their names stand for. -/
def fileLayer (text : String) : Option Layer :=
  (fileMembers? text).map fun members => members.map fun (name, value) => (Step.ofText name.toList, value)

/-- Two underscores part the steps of a path. -/
def separateSteps : List Char → List Char
  | '_' :: '_' :: rest => '.' :: separateSteps rest
  | c :: rest => c :: separateSteps rest
  | [] => []

def integerWord? (word : List Char) : Option Int64 :=
  let (negative, digits) := Decimal.splitSign word
  if digits.isEmpty || !digits.all Char.isDigit then none
  else
    let size : Int := Nat.ofDigitChars 10 digits 0
    Toml.int64? (if negative then -size else size)

def floatWord? (word : List Char) : Option Binary64 :=
  let (negative, magnitude) := Decimal.splitSign word
  let name := String.ofList (magnitude.map Char.toLower)
  if name = "inf" || name = "infinity" then some (.infinite negative)
  else if name = "nan" then some .notANumber
  else (Decimal.read word).map Binary64.ofDecimal

/-- The value that a variable's text stands for: a boolean, an integer, a number, or else the text itself. -/
def variableValue (text : String) : SettingValue :=
  let lowered := Text.lowercase text
  if lowered = "true" then .boolean true
  else if lowered = "false" then .boolean false
  else match integerWord? text.toList with
    | some value => .integer value
    | none =>
      match floatWord? text.toList with
      | some value => .float value
      | none => .text text

def variableMark : List Char := "eligibility_".toList

/-- The setting that a variable stands for, if its name begins with the mark in any letter case. -/
def variableSetting? (name value : String) : Option (List Step × SettingValue) :=
  let name := (Text.lowercase name).toList
  if variableMark.isPrefixOf name then
    some (Step.ofText (separateSteps (name.drop variableMark.length)), variableValue value)
  else none

def variableLayer (bindings : List (String × String)) : Layer :=
  bindings.filterMap fun (name, value) => variableSetting? name value

def overlayLayer (tree : SettingValue) (layer : Layer) : SettingValue :=
  layer.foldl (fun tree (path, value) => tree.overlayAt value path) tree

/-- The field of a section, if it is there. A list gives the fields by position. -/
def sectionField? (position : Nat) (name : String) : SettingValue → Option (Option SettingValue)
  | .table members => some (members.lookup name)
  | .list items => some items[position]?
  | _ => none

/-- A missing section leaves its fields to their defaults; a section that is a plain value is refused. -/
def fieldOf? (tree : SettingValue) (group : String) (position : Nat) (name : String) :
    Option (Option SettingValue) :=
  match tree.members.lookup group with
  | none => some none
  | some value => sectionField? position name value

def decodeField (decode : SettingValue → Option α) (fallback : α) : Option SettingValue → Option α
  | none => some fallback
  | some value => decode value

def ofTree? (tree : SettingValue) : Option Settings := do
  let text := decodeField SettingValue.toText?
  let boolean := decodeField SettingValue.toBoolean?
  pure {
    serviceName := ← text standard.serviceName (tree.members.lookup "service_name")
    environment := ← text standard.environment (tree.members.lookup "environment")
    logLevel := ← text standard.logLevel (← fieldOf? tree "observability" 0 "log_level")
    jsonLogs := ← boolean standard.jsonLogs (← fieldOf? tree "observability" 1 "json_logs")
    spacedRanges := ← boolean standard.spacedRanges (← fieldOf? tree "expression" 0 "spaced_range_display") }

/-- Nothing stands before the ending of the file, which then does not count as an ending. -/
def isNameless (name : String) : Bool := name.toList.getLast?.all (· == '/')

/-- The file with the name and its ending, and the text in it. A file without a name before its ending is passed over.
In the place of a missing file, the one with the ending twice is read. So would be a file with the ending of another
format behind it, but those formats are left out. -/
def namedFile? (files : List (String × String)) (name : String) : Option (String × String) :=
  let file := name ++ ".toml"
  match files.lookup file with
  | some text => if isNameless name then none else some (file, text)
  | none => (files.lookup (file ++ ".toml")).map fun text => (file ++ ".toml", text)

/-- The files that are there, in the order in which they are laid over each other. One may occur twice. -/
def fileTexts (service environment : String) (files : List (String × String)) : List (String × String) :=
  ["default", environment, service].filterMap (namedFile? files)

def fileLayers : List (String × String) → Except SettingsError (List Layer)
  | [] => .ok []
  | (name, text) :: rest =>
    match fileLayer text with
    | none => .error (.malformedFile name)
    | some layer => (fileLayers rest).map (layer :: ·)

theorem fileLayers_cons (name text : String) (rest : List (String × String)) :
    fileLayers ((name, text) :: rest) = match fileLayer text with
      | none => .error (.malformedFile name)
      | some layer => (fileLayers rest).map (layer :: ·) := by
  rfl

def load (service environment : String) (files bindings : List (String × String)) :
    Except SettingsError Settings := do
  let layers ← fileLayers (fileTexts service environment files)
  let tree := (defaults service environment :: layers ++ [variableLayer bindings]).foldl overlayLayer (.table [])
  match ofTree? tree with
  | some settings => pure settings
  | none => throw .unsuitableValue

/-- The environment that the variables name, for a service that is told none. -/
def environmentOf (bindings : List (String × String)) : String :=
  (bindings.lookup "ELIGIBILITY_ENV").getD "development"

end Settings

end Criteria
