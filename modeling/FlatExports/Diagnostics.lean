import FlatExports.Module.Load
import FlatExports.Probe
import FlatExports.Resolution.Survey

/-!
How a module depends on barrels.

An *issue* is a wildcard, which makes the module itself a barrel, or a named
re-export whose target passes the name on from another internal module.  A
*reference* is an internal module that is re-exported and has internal
re-exports of its own.  Packages are never reported.
-/

namespace FlatExports

inductive Issue where
  | exportAll (file : String)
  | throughBarrel (exportedName : String) (barrel : String)
  deriving DecidableEq, Repr

namespace Diagnostics

/-- Whether the target of a re-export gets a name from another internal module. -/
def passesOn (target : Surface) (name : String) : Bool :=
  match target.reExportOf? name with
  | some edge => Specifier.isInternal edge.specifier
  | none => target.wildcards.any fun edge => Specifier.isInternal edge.specifier

def specifierOf (file target : Location) : String :=
  Specifier.relative target file.parent

def issueOf (lookup : Lookup) (path file : Location) (edge : ReExport) :
    Survey (Option Issue) :=
  if edge.kind = .wildcard then return some (.exportAll path.written)
  else if !Specifier.isInternal edge.specifier || edge.kind = .namespaced then return none
  else do
    let target ← .ofExcept (lookup.resolve edge.specifier file.parent)
    let surface ← .look target
    let name := edge.importedName.getD ""
    if (surface.definitionsOf name).isEmpty && passesOn surface name then
      return some (.throughBarrel (edge.exportedName.getD "") (specifierOf file target))
    else return none

def issuesAmong (lookup : Lookup) (path file : Location) :
    List ReExport → Survey (List Issue)
  | [] => return []
  | edge :: rest => do
      let first ← issueOf lookup path file edge
      let others ← issuesAmong lookup path file rest
      return first.toList ++ others

/-- The issues of the file a path means, in the order of its re-exports. -/
def issues (lookup : Lookup) (path : Location) : Survey (List Issue) := do
  let file ← .ofExcept (lookup.resolveFile path)
  let surface ← .look file
  issuesAmong lookup path file surface.reExports

def isBarrel (surface : Surface) : Bool :=
  surface.reExports.any fun edge => Specifier.isInternal edge.specifier

/-- The barrels among the targets of some re-exports, except those seen before. -/
def referencesAmong (lookup : Lookup) (file : Location) :
    List Location → List ReExport → Survey (List String)
  | _, [] => return []
  | seen, edge :: rest =>
      if Specifier.isInternal edge.specifier then do
        let target ← .ofExcept (lookup.resolve edge.specifier file.parent)
        if target ∈ seen then referencesAmong lookup file seen rest
        else
          let surface ← .look target
          let others ← referencesAmong lookup file (target :: seen) rest
          return if isBarrel surface then specifierOf file target :: others else others
      else referencesAmong lookup file seen rest

/-- The barrels that the file a path means re-exports, each once. -/
def references (lookup : Lookup) (path : Location) : Survey (List String) := do
  let file ← .ofExcept (lookup.resolveFile path)
  let surface ← .look file
  referencesAmong lookup file [] surface.reExports

end Diagnostics

end FlatExports
