import FlatExports.Text.Case
import FlatExports.Text.Quoted
import FlatExports.Yaml.Fault

/-!
Why a run stops.

Each constructor of `Failure` is one cause and carries what its message names;
`Failure.message` holds the wording.  The causes that `isReported` accepts are
the ones a run reports; the others come from arguments no caller should pass.
-/

namespace FlatExports

inductive Unreadable where
  | cannotRead (reason : String)
  | notEncoded (encoding : String)
  | syntaxError
  | syntaxErrorAt (line column : Nat)
  | other (detail : String)
  deriving DecidableEq, Repr

def Unreadable.detail : Unreadable → String
  | .cannotRead reason => "cannot read file: " ++ reason
  | .notEncoded encoding => "not valid " ++ encoding
  | .syntaxError => "syntax error"
  | .syntaxErrorAt line column =>
      "syntax error at line " ++ toString line ++ ", column " ++ toString column
  | .other detail => detail

inductive Ambiguity where
  | cycle
  | wildcardsTooDeep
  | chainTooDeep
  | severalPackages
  | other (reason : String)
  deriving DecidableEq, Repr

def Ambiguity.reason : Ambiguity → String
  | .cycle => "cyclic re-export"
  | .wildcardsTooDeep => "wildcard chain too deep"
  | .chainTooDeep => "re-export chain too deep"
  | .severalPackages => "export provided by several external wildcards"
  | .other reason => reason

inductive Construct where
  | importAlias (text : String)
  | assignment (text : String)
  | globalName (text : String)
  | ambientModule (text : String)
  | nameless (kind : String)
  | exported (kind : String)
  | other (text : String)
  deriving DecidableEq, Repr

def Construct.description : Construct → String
  | .importAlias text => "export import alias: " ++ text
  | .assignment text => "export assignment: " ++ text
  | .globalName text => "UMD namespace export: " ++ text
  | .ambientModule text => "ambient module: " ++ text
  | .nameless kind => kind ++ " without a name"
  | .exported kind => "exported " ++ kind
  | .other text => text

inductive SettingsStep where
  | key (name : String)
  | index (position : Int)
  deriving DecidableEq, Repr

inductive SettingsProblem where
  | notStyle
  | notPositive
  | notWhole
  | notNumeral
  | tooLong
  | fractional
  | notFinite
  | notList
  | notText
  | brokenText
  | unknownKey
  | badKey
  deriving DecidableEq, Repr

def SettingsProblem.message : SettingsProblem → String
  | notStyle => "Input should be 'single' or 'double'"
  | notPositive => "Input should be greater than 0"
  | notWhole => "Input should be a valid integer"
  | notNumeral => "Input should be a valid integer, unable to parse string as an integer"
  | tooLong => "Unable to parse input string as an integer, exceeded maximum size"
  | fractional => "Input should be a valid integer, got a number with a fractional part"
  | notFinite => "Input should be a finite number"
  | notList => "Input should be a valid list"
  | notText => "Input should be a valid string"
  | brokenText => "Input should be a valid string, unable to parse raw data as a unicode string"
  | unknownKey => "Extra inputs are not permitted"
  | badKey => "Keys should be strings"

structure SettingsFault where
  path : List SettingsStep
  problem : SettingsProblem
  deriving DecidableEq, Repr

inductive BadSettings where
  | notYaml (detail : String)
  | notMapping
  | invalid (faults : List SettingsFault)
  | other (detail : String)
  deriving DecidableEq, Repr

namespace BadSettings

def stepText : SettingsStep → String
  | .key name => name
  | .index position => toString position

def faultText (fault : SettingsFault) : String :=
  ".".intercalate (fault.path.map stepText) ++ ": " ++ fault.problem.message

def detail : BadSettings → String
  | .notYaml detail => "Failed to parse YAML: " ++ detail
  | .notMapping => "Top-level value must be a mapping"
  | .invalid faults => "\n".intercalate (faults.map faultText)
  | .other detail => detail

end BadSettings

inductive Failure where
  | plain (text : String)
  | unreadable (file : String) (cause : Unreadable)
  | moduleNotFound (specifier directory : String)
  | exportsNotFound (module : String) (names : List String)
  | ambiguous (module name : String) (chain : List (String × String)) (why : Ambiguity)
  | unsupported (file : String) (construct : Construct)
  | badSettings (file : String) (why : BadSettings)
  /-- Values given beside a file of settings are wrong. -/
  | badOverrides (faults : List SettingsFault)
  /-- A scalar in a file of settings does not spell what its tag promises. -/
  | badScalar (fault : Yaml.ScalarFault)
  /-- A file of settings is a directory. -/
  | settingsDirectory (file : String)
  /-- Bytes that ought to be text are none, or a slice cuts a character in half. -/
  | brokenText
  /-- A syntax tree lacks a child that its kind always has. -/
  | missingChild
  /-- A group that needs an export has none. -/
  | emptyGroup
  /-- A statement to print lacks its namespace. -/
  | missingNamespace
  /-- A statement to print lacks its source. -/
  | missingSource
  /-- A re-export lacks names that its kind always has. -/
  | missingName (fields : List String)
  /-- A file name built from an extension is none. -/
  | invalidName (name : String)
  /-- The root has no name that could be changed. -/
  | namelessLocation
  | misused (text : String)
  deriving DecidableEq, Repr

namespace Failure

/-- The visited module and name pairs of a trace, as a message lists them. -/
def hops (chain : List (String × String)) : String :=
  " -> ".intercalate (chain.map fun (module, name) => module ++ "#" ++ name)

def message : Failure → String
  | .plain text => text
  | .unreadable file cause =>
      "Failed to parse file: " ++ file ++ " (" ++ cause.detail ++ ")"
  | .moduleNotFound specifier directory =>
      "Could not resolve module '" ++ specifier ++ "' from " ++ directory
  | .exportsNotFound module names =>
      "Could not find export(s) " ++ ", ".intercalate names ++ " in " ++ module
  | .ambiguous module name chain why =>
      Text.capitalized why.reason ++ " of '" ++ name ++ "' in " ++ module ++
        (if chain.isEmpty then "" else " (via " ++ hops chain ++ ")")
  | .unsupported file construct =>
      "Unsupported construct in " ++ file ++ ": " ++ construct.description
  | .badSettings file why => "Invalid config " ++ file ++ ": " ++ why.detail
  | .badOverrides faults => (BadSettings.invalid faults).detail
  | .badScalar fault => fault.message
  | .settingsDirectory file => "Is a directory: " ++ Text.shown file
  | .brokenText => "text is not valid UTF-8"
  | .missingChild => "syntax node without the expected child"
  | .emptyGroup => "group without an export"
  | .missingNamespace => "statement without a namespace"
  | .missingSource => "statement without a source"
  | .missingName fields => "re-export without " ++ " and ".intercalate fields
  | .invalidName name => "Invalid name " ++ Text.shown name
  | .namelessLocation => "PosixPath('/') has an empty name"
  | .misused text => text

def isReported : Failure → Bool
  | .plain _ | .unreadable .. | .moduleNotFound .. | .exportsNotFound ..
  | .ambiguous .. | .unsupported .. | .badSettings .. => true
  | _ => false

end Failure

end FlatExports
