import FlatExports.Diagnostics
import FlatExports.Flatten

/-!
Sessions over a volume that changes.

A session keeps what it has read of modules, so later answers go by the text a
module had when it was first read, while the lookup of files always goes by the
volume as it is.  Diagnostics have a cache of their own and use the default
settings.
-/

namespace FlatExports

structure Session where
  settings : Settings
  volume : Volume
  cache : Cache
  diagnosed : Cache

namespace Session

variable {α : Type} [Syntax.Grammar]

def start (settings : Settings) (volume : Volume) : Session :=
  ⟨settings, volume, .empty, .empty⟩

def lookup (session : Session) : Lookup := ⟨session.settings, session.volume⟩

def reader (session : Session) : Survey.Reader := Module.loadSurface session.volume

/-! ## Resolution -/

def survey (session : Session) (task : Survey α) : Except Failure α × Session :=
  let (outcome, cache) := task.runCached session.reader session.cache
  (outcome, { session with cache })

def surfaceOf (session : Session) (module : Location) : Except Failure Surface × Session :=
  session.survey (.look module)

def prime (session : Session) (module : Location) (surface : Surface) : Session :=
  { session with cache := session.cache.put module surface }

def exportsOf (session : Session) (root : Location) :
    Except Failure (List Resolved) × Session :=
  session.survey (Resolution.exportsOf session.lookup root)

def follow (session : Session) (module : Location) (edge : ReExport) :
    Except Failure Resolved × Session :=
  session.survey (Resolution.follow (.ofLookup session.lookup) module edge)

def modulesAnalyzed (session : Session) : Nat := session.cache.size

/-! ## Diagnostics -/

def diagnose (session : Session) (task : Lookup → Survey α) : Except Failure α × Session :=
  let (outcome, diagnosed) :=
    (task ⟨.default, session.volume⟩).runCached session.reader session.diagnosed
  (outcome, { session with diagnosed })

def issues (session : Session) (path : Location) : Except Failure (List Issue) × Session :=
  session.diagnose fun lookup => Diagnostics.issues lookup path

def references (session : Session) (path : Location) :
    Except Failure (List String) × Session :=
  session.diagnose fun lookup => Diagnostics.references lookup path

/-! ## The volume -/

def write (session : Session) (file : Location) (content : Text.Bytes) : Session :=
  { session with volume := session.volume.write file content }

def delete (session : Session) (file : Location) : Except PathFault Session := do
  return { session with volume := ← session.volume.delete file }

def flatten (session : Session) (path : Location) (options : RunOptions) :
    Except Failure (Except RunFailure Report) × Session :=
  match run session.lookup path options with
  | .ok (result, volume) => (.ok result, { session with volume })
  | .error failure => (.error failure, session)

end Session

end FlatExports
