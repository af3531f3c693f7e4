import FlatExports.Resolution.Trace
import FlatExports.Resolved.Merge

/-!
Expanding the surface of a module.

Every item of a surface becomes a list of collected exports, and merging them
gives what the module exports in the end.  An internal wildcard stands for the
expanded surface of its target, which never passes on a default; a wildcard
that leads back to a module being expanded stands for nothing.
-/

namespace FlatExports.Resolution

def localExport (module : Location) (definition : Definition) : Except Failure Resolved :=
  match definition.exportName? with
  | some name =>
      .ok ⟨name, module.written, name, definition.typeOnly, .named, false,
        definition.localName, definition.localName.isNone⟩
  | none => .error (.missingName ["exported_name", "origin_name"])

abbrev Expansion := Location → Survey (List Resolved)

/-- What a wildcard stands for; `visiting` lists the modules being expanded. -/
def expandWildcard (resolver : Resolver) (expand : Expansion) (visiting : List Location)
    (module : Location) (edge : ReExport) : Survey (List Resolved) :=
  if Specifier.isInternal edge.specifier then do
    let target ← .ofExcept (resolver.locate edge.specifier module)
    if target ∈ visiting then return []
    else
      let exports ← expand target
      return if edge.typeOnly then exports.map Resolved.asType else exports
  else return [packageWildcard edge.specifier edge.typeOnly]

def explicitly (export_ : Resolved) : List Collected := [⟨export_, false⟩]

def collectItem (resolver : Resolver) (expand : Expansion) (visiting : List Location)
    (module : Location) (includeDefault : Bool) (item : Item) : Survey (List Collected) :=
  match item with
  | .definition definition =>
      if includeDefault ∨ definition.kind ≠ .default then do
        return explicitly (← .ofExcept (localExport module definition))
      else return []
  | .reExport edge =>
      match edge.kind with
      | .wildcard => do
          let exports ← expandWildcard resolver expand visiting module edge
          return exports.map fun export_ => ⟨export_, true⟩
      | .namespaced => do
          return explicitly (← .ofExcept (namespaceOf resolver module edge false))
      | _ =>
          if includeDefault ∨ edge.exportedName ≠ some defaultName then do
            return explicitly (← follow resolver module edge)
          else return []

def collectAll (collect : Item → Survey (List Collected)) : List Item → Survey (List Collected)
  | [] => return []
  | item :: rest => do
      let first ← collect item
      let others ← collectAll collect rest
      return first ++ others

/-- The merged exports of a module.  The first argument is the number of levels left. -/
def expand (resolver : Resolver) :
    Nat → List Location → Bool → Location → Survey (List Resolved)
  | 0, _, _, module => .fail (ambiguous module wildcardName [] .wildcardsTooDeep)
  | left + 1, visiting, includeDefault, module => do
      let surface ← .look module
      let visiting := module :: visiting
      let collected ← collectAll
        (collectItem resolver (expand resolver left visiting false) visiting module
          includeDefault)
        surface.items
      return Collected.merge collected

/-- The exports of a root module, whose place is resolved first. -/
def exportsOf (lookup : Lookup) (root : Location) : Survey (List Resolved) :=
  let resolver := Resolver.ofLookup lookup
  expand resolver resolver.maxDepth [] true (lookup.volume.resolve root)

end FlatExports.Resolution
