import FlatExports.Failure
import FlatExports.Location
import FlatExports.Module.Surface

/-!
Surveys of a module graph.

A survey is a computation that looks at the export surfaces of modules, one
after the other.  It does not say where surfaces come from: `run` reads every
module anew, and `runCached` asks a cache first and keeps in it what it reads,
also when the survey fails later.
-/

namespace FlatExports

inductive Survey (α : Type) where
  | done (outcome : Except Failure α)
  | visit (module : Location) (next : Surface → Survey α)

namespace Survey

variable {α β : Type}

def andThen (survey : Survey α) (next : α → Survey β) : Survey β :=
  match survey with
  | done (.ok value) => next value
  | done (.error failure) => done (.error failure)
  | visit module rest => visit module fun surface => (rest surface).andThen next

instance : Monad Survey where
  pure value := done (.ok value)
  bind := andThen

def look (module : Location) : Survey Surface := visit module fun surface => done (.ok surface)

def fail (failure : Failure) : Survey α := done (.error failure)

def ofExcept (outcome : Except Failure α) : Survey α := done outcome

/-! ## Running a survey -/

abbrev Reader := Location → Except Failure Surface

def run (read : Reader) : Survey α → Except Failure α
  | done outcome => outcome
  | visit module next =>
      match read module with
      | .ok surface => run read (next surface)
      | .error failure => .error failure

/-- The modules a run looks at, in order, the one it fails at included. -/
def visited (read : Reader) : Survey α → List Location
  | done _ => []
  | visit module next =>
      match read module with
      | .ok surface => module :: visited read (next surface)
      | .error _ => [module]

end Survey

structure Cache where
  entries : List (Location × Surface)
  deriving Repr

namespace Cache

def empty : Cache := ⟨[]⟩

def find? (cache : Cache) (module : Location) : Option Surface :=
  cache.entries.lookup module

def size (cache : Cache) : Nat := cache.entries.length

/-- Keeps a surface; an earlier one of the module is forgotten. -/
def put (cache : Cache) (module : Location) (surface : Surface) : Cache :=
  ⟨(module, surface) :: cache.entries.filter (·.1 ≠ module)⟩

end Cache

namespace Survey

variable {α : Type}

def runCached (read : Reader) : Survey α → Cache → Except Failure α × Cache
  | done outcome, cache => (outcome, cache)
  | visit module next, cache =>
      match cache.find? module with
      | some surface => runCached read (next surface) cache
      | none =>
          match read module with
          | .ok surface => runCached read (next surface) (cache.put module surface)
          | .error failure => (.error failure, cache)

end Survey

end FlatExports
