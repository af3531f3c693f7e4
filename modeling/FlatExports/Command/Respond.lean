import FlatExports.Command.Help
import FlatExports.Command.OfArguments
import FlatExports.Session
import FlatExports.Settings.Load
import FlatExports.Syntax.Typescript

/-!
Answering commands.

A command runs in a directory of a volume.  Diagnostics leave the volume alone;
flattening changes at most the file it is about.
-/

namespace FlatExports

namespace Command

/-! ## Paths in arguments -/

/-- Whether a path can only mean a directory, because of how it ends. -/
def endsAsDirectory (path : String) : Bool :=
  let last := lastPiece path
  last = "" || last = "." || last = ".."

def fileMisuse? (volume : Volume) (directory : Location) (path : String) : Option Misuse :=
  match volume.find (directory.join path) with
  | .ok (_, .directory) => some (.isDirectory path)
  | .ok _ => if endsAsDirectory path then some (.noSuchFile path) else none
  | .error _ => some (.noSuchFile path)

def configMisuse? (volume : Volume) (directory : Location) (path : String) : Option Misuse :=
  if path ≠ "" ∧ volume.isDirectory (directory.join path) then some (.isDirectory path) else none

/-- What is wrong with the paths of a command, if anything is. -/
def misuse? (volume : Volume) (directory : Location) : Command → Option Misuse
  | flatten file _ config _ =>
      (fileMisuse? volume directory file).or (config.bind (configMisuse? volume directory))
  | issues file _ => fileMisuse? volume directory file
  | references file _ => fileMisuse? volume directory file

/-- A path without the steps that lead nowhere. -/
def tidyPath (path : String) : String :=
  let names := "/".intercalate (pathNames path)
  if path.toList.head? = some '/' then "/" ++ names
  else if names = "" then "."
  else names

/-! ## Flattening -/

def styleValue (style : QuoteStyle) : Yaml.Value :=
  match style with
  | .single => .text "single"
  | .double => .text "double"

def settingsOf (volume : Volume) (directory : Location) (config : Option String)
    (style : Option QuoteStyle) : Except Failure Settings := do
  let (file, label) :=
    match config with
    | none | some "" =>
        let file := directory.child Settings.defaultFile
        (file, file.written)
    | some path => (directory.join path, tidyPath path)
  let settings ← Settings.load volume file label
  match style with
  | none => return settings
  | some style => settings.override [(Settings.styleKey, styleValue style)]

def flattenedText (file : String) (dryRun : Bool) (report : Report) : String :=
  let flattened := report.flattened
  if dryRun then flattened.output ++ "\n"
  else if report.written then
    Shown.success ("Unbarreled " ++ file) ++
      Shown.detail (toString flattened.exportCount ++ " exports from " ++
        toString flattened.groups.length ++ " modules")
  else Shown.success (file ++ " is already flat")

def complain (volume : Volume) (failure : Failure) : Except Failure Response :=
  if failure.isReported then return ⟨.error (.failure failure), volume⟩ else throw failure

def respondFlatten (volume : Volume) (directory : Location) (file : String) (options : RunOptions)
    (config : Option String) (style : Option QuoteStyle) : Except Failure Response :=
  match settingsOf volume directory config style with
  | .error failure => complain volume failure
  | .ok settings => do
      match ← run ⟨settings, volume⟩ (directory.join file) options with
      | (.ok report, volume) =>
          return ⟨.ok (.text (flattenedText file options.dryRun report)), volume⟩
      | (.error failure, volume) => return ⟨.error (.run failure), volume⟩

/-! ## Diagnostics -/

open Text (Json)

def issueJson : Issue → Json
  | .exportAll file => .object [("type", .text "exportAll"), ("barrel_file_path", .text file)]
  | .throughBarrel name barrel =>
      .object [("type", .text "barrelFileReference"), ("exported_name", .text name),
        ("barrel_file_path", .text barrel)]

def referenceJson (barrel : String) : Json := .object [("barrel_file_path", .text barrel)]

def findingsText (file name : String) (findings : List Json) : String :=
  (Json.object [("file", .text file), ("count", .number findings.length),
    (name, .list findings)]).render 0 ++ "\n"

def issueRow : Issue → List String
  | .exportAll file => ["export *", "*", file]
  | .throughBarrel name barrel => ["barrel reference", name, barrel]

def shownIssues (file : String) (json : Bool) (issues : List Issue) : Shown :=
  if json then .text (findingsText file "issues" (issues.map issueJson))
  else if issues.isEmpty then .text (Shown.success ("No barrel file issues in " ++ file))
  else .table ⟨"Barrel file issues in " ++ file, ["Issue", "Export", "Barrel file"],
    issues.map issueRow⟩

def shownReferences (file : String) (json : Bool) (barrels : List String) : Shown :=
  if json then .text (findingsText file "references" (barrels.map referenceJson))
  else if barrels.isEmpty then
    .text (Shown.success (file ++ " does not re-export from barrel files"))
  else .table ⟨"Barrel files referenced by " ++ file, ["Barrel file"], barrels.map ([·])⟩

def respondFindings {α : Type} (volume : Volume) (found : Except Failure α × Session)
    (shown : α → Shown) : Except Failure Response :=
  match found.1 with
  | .ok findings => return ⟨.ok (shown findings), volume⟩
  | .error failure => complain volume failure

/--
Runs a command; `writeError` is the reason for which the volume refuses to be
written, if it does.  A failure that no command reports is passed on.
-/
def respond (volume : Volume) (directory : Location) (writeError : Option String) :
    Command → Except Failure Response
  | flatten file dryRun config style =>
      respondFlatten volume directory file ⟨dryRun, writeError⟩ config style
  | issues file json =>
      respondFindings volume
        ((Session.start .default volume).issues (directory.join file)) (shownIssues file json)
  | references file json =>
      respondFindings volume
        ((Session.start .default volume).references (directory.join file))
        (shownReferences file json)

end Command

def Request.respond (volume : Volume) (directory : Location) (writeError : Option String)
    (request : Request) : Except Misuse (Except Failure Response) :=
  match request with
  | .help topic => return .ok ⟨.ok (.text topic.text), volume⟩
  | .version => return .ok ⟨.ok (.text versionLine), volume⟩
  | .command task =>
      match task.misuse? volume directory with
      | some misuse => throw misuse
      | none => return task.respond volume directory writeError

end FlatExports
