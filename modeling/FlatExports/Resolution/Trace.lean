import FlatExports.Probe
import FlatExports.Resolution.Survey
import FlatExports.Resolved.Basic

/-!
Tracing a name to its origin.

`trace` looks for what a module exports under a name: its own definition first,
then its re-export of that name, then its wildcards in source order.  A package
behind a wildcard counts only when no module provides the name and there is no
second such package.  The chain of module and name pairs grows with every hop,
never repeats a pair and never gets longer than the resolver allows.
-/

namespace FlatExports

structure Resolver where
  maxDepth : Nat
  /-- The module that a specifier in a module leads to. -/
  locate : String → Location → Except Failure Location

def Resolver.ofLookup (lookup : Lookup) : Resolver :=
  ⟨lookup.settings.maxDepth, fun specifier module => lookup.resolve specifier module.parent⟩

structure Hop where
  module : Location
  name : String
  deriving DecidableEq, Repr

namespace Resolution

def hops (chain : List Hop) : List (String × String) :=
  chain.map fun hop => (hop.module.written, hop.name)

def ambiguous (module : Location) (name : String) (chain : List Hop) (why : Ambiguity) :
    Failure :=
  .ambiguous module.written name (hops chain) why

def fromPackage (package exportedName originName : String) (typeOnly : Bool) : Resolved :=
  ⟨exportedName, package, originName, typeOnly, .named, true, none, false⟩

/-- The wildcard of a package, which is passed on as it is. -/
def packageWildcard (package : String) (typeOnly : Bool) : Resolved :=
  ⟨wildcardName, package, wildcardName, typeOnly, .wildcard, true, none, false⟩

/-- The first definition that is a value, or else the first. -/
def preferred (first : Definition) (others : List Definition) : Definition :=
  ((first :: others).find? fun d => !d.typeOnly).getD first

/-- The local binding of a definition, for which its name stands in. -/
def bindingOf (definition : Definition) : Option String :=
  (definition.localName.filter (· ≠ "")).or definition.name

/-- What tracing ends in: only the modifiers on the way make it a type. -/
def definedIn (module : Location) (name : String) (typeOnly : Bool) (definition : Definition) :
    Resolved :=
  ⟨name, module.written, name, typeOnly, .named, false, bindingOf definition, false⟩

def nameOf (field : String) (name : Option String) : Except Failure String :=
  match name with
  | some name => .ok name
  | none => .error (.missingName [field])

def edgeNames (edge : ReExport) : Except Failure (String × String) :=
  match edge.exportedName, edge.importedName with
  | some exported, some imported => .ok (exported, imported)
  | some _, none => .error (.missingName ["origin_name"])
  | none, some _ => .error (.missingName ["exported_name"])
  | none, none => .error (.missingName ["exported_name", "origin_name"])

/-- A namespace object made of a module or a package. -/
def namespaceOf (resolver : Resolver) (module : Location) (edge : ReExport) (typeOnly : Bool) :
    Except Failure Resolved := do
  let external := !Specifier.isInternal edge.specifier
  let origin ←
    if external then pure edge.specifier
    else do pure (← resolver.locate edge.specifier module).written
  let name ← nameOf "exported_name" edge.exportedName
  return ⟨name, origin, wildcardName, typeOnly || edge.typeOnly, .namespaced, external, none,
    false⟩

/-- Where a search for a name goes on, and with which modifiers. -/
abbrev Search := Location → String → Bool → Survey (Option Resolved)

def searchTarget (resolver : Resolver) (search : Search) (module : Location) (edge : ReExport)
    (imported : String) (typeOnly : Bool) : Survey Resolved := do
  let target ← .ofExcept (resolver.locate edge.specifier module)
  match ← search target imported typeOnly with
  | some found => return found
  | none => .fail (.exportsNotFound target.written [imported])

/-- Goes through the re-export of a name. -/
def throughEdge (resolver : Resolver) (search : Search) (module : Location) (edge : ReExport)
    (name : String) (typeOnly : Bool) : Survey Resolved := do
  if edge.kind = .namespaced then
    let found ← .ofExcept (namespaceOf resolver module edge typeOnly)
    return { found with exportedName := name }
  else
    let imported ← .ofExcept (nameOf "origin_name" edge.importedName)
    if Specifier.isInternal edge.specifier then
      searchTarget resolver search module edge imported (typeOnly || edge.typeOnly)
    else return fromPackage edge.specifier name imported (typeOnly || edge.typeOnly)

/-- Goes through internal wildcards in order, around those whose hop is on the chain. -/
def throughWildcards (resolver : Resolver) (search : Search) (module : Location) (name : String)
    (typeOnly : Bool) (chain : List Hop) : List ReExport → Survey (Option Resolved)
  | [] => return none
  | edge :: rest =>
      if Specifier.isInternal edge.specifier then do
        let target ← .ofExcept (resolver.locate edge.specifier module)
        if ⟨target, name⟩ ∈ chain then
          throughWildcards resolver search module name typeOnly chain rest
        else
          match ← search target name (typeOnly || edge.typeOnly) with
          | some found => return some found
          | none => throughWildcards resolver search module name typeOnly chain rest
      else throughWildcards resolver search module name typeOnly chain rest

/-- What the external wildcards of a module provide: one package, if there is just one. -/
def throughPackages (module : Location) (name : String) (typeOnly : Bool) (chain : List Hop)
    (wildcards : List ReExport) : Except Failure (Option Resolved) :=
  match wildcards.filter fun edge => !Specifier.isInternal edge.specifier with
  | [] => .ok none
  | [edge] => .ok (some (fromPackage edge.specifier name name (typeOnly || edge.typeOnly)))
  | _ => .error (ambiguous module name chain .severalPackages)

/-- What a module exports under a name; `chain` ends in this hop. -/
def searchSurface (resolver : Resolver) (search : Search) (module : Location) (name : String)
    (typeOnly : Bool) (chain : List Hop) (surface : Surface) : Survey (Option Resolved) :=
  match surface.definitionsOf name with
  | first :: others => return some (definedIn module name typeOnly (preferred first others))
  | [] =>
      match surface.reExportOf? name with
      | some edge => do
          let found ← throughEdge resolver search module edge name typeOnly
          return some found
      | none =>
          if name = defaultName then return none
          else do
            match ← throughWildcards resolver search module name typeOnly chain
                surface.wildcards with
            | some found => return some found
            | none => .ofExcept (throughPackages module name typeOnly chain surface.wildcards)

/--
Where a module gets the export of a name from, or `none` if it does not export
it.  The first argument is the number of hops that are left.
-/
def trace (resolver : Resolver) :
    Nat → List Hop → Location → String → Bool → Survey (Option Resolved)
  | left, chain, module, name, typeOnly =>
      if ⟨module, name⟩ ∈ chain then .fail (ambiguous module name chain .cycle)
      else
        match left with
        | 0 => .fail (ambiguous module name chain .chainTooDeep)
        | left + 1 => do
            let chain := chain ++ [⟨module, name⟩]
            let surface ← .look module
            searchSurface resolver (trace resolver left chain) module name typeOnly chain surface

def follow (resolver : Resolver) (module : Location) (edge : ReExport) : Survey Resolved := do
  let (exported, imported) ← .ofExcept (edgeNames edge)
  if Specifier.isInternal edge.specifier then
    let search := trace resolver (resolver.maxDepth - 1) [⟨module, exported⟩]
    let found ← searchTarget resolver search module edge imported edge.typeOnly
    return { found with exportedName := exported }
  else return fromPackage edge.specifier exported imported edge.typeOnly

end Resolution

end FlatExports
