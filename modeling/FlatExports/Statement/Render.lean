import FlatExports.Probe
import FlatExports.Resolved.Group
import FlatExports.Statement.Basic

/-!
The statements that publish grouped exports from a root module.

Most groups become one statement.  The group of the root itself is taken apart:
an inline declaration stays where it is, an export with a local binding goes
into a statement without a source, and any other is re-exported from the root.
-/

namespace FlatExports.Statement

/-- The specifier a statement of the root names a group's origin by. -/
def sourceOf (lookup : Lookup) (root : Location) (group : ExportGroup) :
    Except Failure String :=
  if group.external then .ok group.origin
  else lookup.relativeSpecifier (.ofPath group.origin) root.parent

def originSpecifier (export_ : Resolved) : ExportSpecifier :=
  ⟨export_.originName, export_.exportedName, export_.typeOnly⟩

def localSpecifiers (exports : List Resolved) : List ExportSpecifier :=
  exports.filterMap fun export_ =>
    if export_.inline then none
    else export_.localName.map fun name => ⟨name, export_.exportedName, export_.typeOnly⟩

def selfSpecifiers (exports : List Resolved) : List ExportSpecifier :=
  (exports.filter fun export_ => !export_.inline && export_.localName.isNone).map
    originSpecifier

def renderRoot (lookup : Lookup) (root : Location) (group : ExportGroup) :
    Except Failure (List Statement) := do
  let bound := localSpecifiers group.exports
  let free := selfSpecifiers group.exports
  let boundStatements := if bound.isEmpty then [] else [named none bound]
  let freeStatements ←
    if free.isEmpty then pure []
    else do pure [named (some (← sourceOf lookup root group)) free]
  return boundStatements ++ freeStatements

def isOwn (root : Location) (group : ExportGroup) : Bool :=
  !group.external && Location.ofPath group.origin = root

def renderGroup (lookup : Lookup) (root : Location) (group : ExportGroup) :
    Except Failure (List Statement) :=
  match group.kind with
  | .wildcard => do
      return [wildcard (← sourceOf lookup root group) (group.exports.all (·.typeOnly))]
  | .namespaced =>
      match group.exports with
      | [] => .error .emptyGroup
      | entry :: _ => do
          return [namespaceOf (← sourceOf lookup root group) entry.exportedName entry.typeOnly]
  | _ =>
      if isOwn root group then renderRoot lookup root group
      else do
        return [named (some (← sourceOf lookup root group)) (group.exports.map originSpecifier)]

def render (lookup : Lookup) (root : Location) (groups : List ExportGroup) :
    Except Failure (List Statement) := do
  let statements ← groups.mapM (renderGroup lookup root)
  return statements.flatten

end FlatExports.Statement
