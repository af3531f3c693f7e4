/-!
The export surface of one module.

A module exports its own declarations, the *definitions*, and passes on exports
of other modules, the *re-exports*.  Both carry the byte offset at which they
are written, and `Surface.items` lists them in that order.
-/

namespace FlatExports

/-- The name a default export is published under. -/
def defaultName : String := "default"

/-- The name wildcards stand under. -/
def wildcardName : String := "*"

inductive ExportKind where
  | named
  | default
  | wildcard
  | namespaced
  deriving DecidableEq, Repr, Inhabited

/--
A symbol declared in the module.  `localName` is the local binding when the
symbol is exported through a specifier list, and `none` for a declaration that
carries the export itself.  A default export has no name of its own.
-/
structure Definition where
  kind : ExportKind
  name : Option String
  typeOnly : Bool
  position : Int
  localName : Option String
  deriving DecidableEq, Repr, Inhabited

namespace Definition

/-- The name other modules reach the symbol under. -/
def exportName? (definition : Definition) : Option String :=
  if definition.kind = .default then some defaultName else definition.name

def isCalled (name : String) (definition : Definition) : Bool :=
  definition.exportName? = some name

end Definition

/--
An export passed on from the module its specifier names.  A wildcard carries no
names, a namespace only the name it is published under.
-/
structure ReExport where
  kind : ExportKind
  specifier : String
  importedName : Option String
  exportedName : Option String
  typeOnly : Bool
  position : Int
  deriving DecidableEq, Repr, Inhabited

inductive Item where
  | definition (definition : Definition)
  | reExport (edge : ReExport)
  deriving DecidableEq, Repr

def Item.position : Item → Int
  | .definition d => d.position
  | .reExport e => e.position

structure Surface where
  definitions : List Definition
  reExports : List ReExport
  deriving DecidableEq, Repr, Inhabited

namespace Surface

/-- Definitions and re-exports in source order; at one offset definitions come first. -/
def items (surface : Surface) : List Item :=
  (surface.definitions.map Item.definition ++ surface.reExports.map Item.reExport).mergeSort
    fun a b => a.position ≤ b.position

def wildcards (surface : Surface) : List ReExport :=
  surface.reExports.filter (·.kind = .wildcard)

def definitionsOf (surface : Surface) (name : String) : List Definition :=
  surface.definitions.filter (·.isCalled name)

/-- The first re-export published under a name; wildcards publish none. -/
def reExportOf? (surface : Surface) (name : String) : Option ReExport :=
  surface.reExports.find? fun edge =>
    edge.kind ≠ .wildcard ∧ edge.exportedName = some name

def isEmpty (surface : Surface) : Bool :=
  surface.definitions.isEmpty && surface.reExports.isEmpty

end Surface

end FlatExports
