import FlatExports.Module.Load
import FlatExports.Module.Splice
import FlatExports.Resolution.Expand
import FlatExports.Resolved.Group
import FlatExports.Statement.Render
import FlatExports.Volume.Edit

/-!
Flattening a root module.

`flatten` works out the new text of a root: every export is followed to the
module that defines it, and the re-export statements give way to statements
that name those modules.  `run` also writes the text back.  Only the root is
ever written, and only after everything has been resolved.
-/

namespace FlatExports

structure Flattened where
  root : Location
  source : Text.Bytes
  output : String
  groups : List ExportGroup
  modulesAnalyzed : Nat

namespace Flattened

def outputBytes (flattened : Flattened) : Text.Bytes := Text.bytesOf flattened.output

def changed (flattened : Flattened) : Bool := flattened.outputBytes ≠ flattened.source

def exportCount (flattened : Flattened) : Nat := ExportGroup.countAll flattened.groups

end Flattened

variable [Syntax.Grammar]

/-- Works out the flattened form of the file a path means. -/
def flatten (lookup : Lookup) (path : Location) : Except Failure Flattened := do
  let root ← lookup.resolveFile path
  let scan ← Module.loadScan lookup.volume root
  let (resolved, cache) := (Resolution.exportsOf lookup root).runCached
    (Module.loadSurface lookup.volume) (Cache.empty.put root scan.surface)
  let groups := ExportGroup.ofExports (← resolved)
  let statements ← Statement.render lookup root groups
  let style := lookup.settings.quoteStyle
  let output ← Module.withStatements style scan.source scan.reExportSpans statements
  return ⟨root, scan.source, output, groups, cache.size⟩

/-! ## Runs -/

structure Report where
  flattened : Flattened
  written : Bool

/-- Why a run ended early, and the file it is about. -/
inductive RunFailure where
  | failed (file : Location) (cause : Failure)
  | writeFailed (file : Location) (reason : String)
  deriving Repr

def RunFailure.message : RunFailure → String
  | failed _ cause => cause.message
  | writeFailed file reason => "Failed to write " ++ file.written ++ ": " ++ reason

def RunFailure.file : RunFailure → Location
  | failed file _ => file
  | writeFailed file _ => file

structure RunOptions where
  /-- Leaves the root as it is. -/
  dryRun : Bool
  /-- The reason for which the volume refuses to write, if it does. -/
  writeError : Option String

/--
One run over a volume: its result and the volume it leaves.  A failure that no
run should meet is passed on as it is.
-/
def run (lookup : Lookup) (path : Location) (options : RunOptions) :
    Except Failure (Except RunFailure Report × Volume) :=
  match flatten lookup path with
  | .error failure =>
      if failure.isReported then .ok (.error (.failed path failure), lookup.volume)
      else .error failure
  | .ok flattened =>
      if flattened.changed ∧ ¬options.dryRun then
        match options.writeError with
        | some reason => .ok (.error (.writeFailed flattened.root reason), lookup.volume)
        | none =>
            .ok (.ok ⟨flattened, true⟩,
              lookup.volume.write flattened.root flattened.outputBytes)
      else .ok (.ok ⟨flattened, false⟩, lookup.volume)

def newText (lookup : Lookup) (path : Location) (options : RunOptions) :
    Except Failure (String × Volume) := do
  match ← run lookup path options with
  | (.ok report, volume) => return (report.flattened.output, volume)
  | (.error (.failed _ cause), _) => throw cause
  | (.error (.writeFailed file reason), _) =>
      throw (.plain (RunFailure.writeFailed file reason).message)

end FlatExports
