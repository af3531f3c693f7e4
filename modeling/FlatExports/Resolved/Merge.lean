import FlatExports.Resolved.Basic

/-!
Merging the exports one module collects.

A collected export is *explicit* or came through a wildcard.  An explicit name
hides the same name from any wildcard, wherever the two stand.  Of what is left
the first export of each key stays, and it counts as a value as soon as one of
the collected exports of the same symbol does.
-/

namespace FlatExports

structure Collected where
  export_ : Resolved
  viaWildcard : Bool
  deriving DecidableEq, Repr

/-- Two exports of one key exclude each other. -/
inductive MergeKey where
  | name (exportedName : String)
  | package (origin : String)
  deriving DecidableEq, Repr

def Resolved.mergeKey (export_ : Resolved) : MergeKey :=
  if export_.kind = .wildcard then .package export_.origin
  else .name export_.exportedName

namespace Collected

/-- The first explicit export of a name. -/
def explicit? (collected : List Collected) (name : String) : Option Resolved :=
  (collected.find? fun entry =>
    !entry.viaWildcard && entry.export_.kind ≠ .wildcard &&
      entry.export_.exportedName = name).map (·.export_)

def hiddenBy? (collected : List Collected) (entry : Collected) : Option Resolved :=
  if entry.viaWildcard ∧ entry.export_.kind ≠ .wildcard then
    explicit? collected entry.export_.exportedName
  else none

/-- Adds an export behind those of other keys, or lets a value replace a type. -/
def add (kept : List Resolved) (export_ : Resolved) : List Resolved :=
  match kept with
  | [] => [export_]
  | first :: rest =>
      if first.mergeKey = export_.mergeKey then
        (if first.differsOnlyInType export_ then first.asValue else first) :: rest
      else first :: add rest export_

/-- The exports that no explicit one hides. -/
def visible (collected : List Collected) : List Resolved :=
  (collected.filter fun entry => (hiddenBy? collected entry).isNone).map (·.export_)

/-- The names whose explicit export has a hidden twin that is a value. -/
def promoted (collected : List Collected) : List String :=
  (collected.filter fun entry =>
    match hiddenBy? collected entry with
    | none => false
    | some shadow => !entry.export_.typeOnly && shadow.differsOnlyInType entry.export_).map
      (·.export_.exportedName)

def promote (names : List String) (export_ : Resolved) : Resolved :=
  if export_.typeOnly ∧ export_.exportedName ∈ names ∧ export_.kind = .named then
    export_.asValue
  else export_

def merge (collected : List Collected) : List Resolved :=
  ((visible collected).foldl add []).map (promote (promoted collected))

end Collected

end FlatExports
