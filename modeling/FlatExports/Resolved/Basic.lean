import FlatExports.Module.Surface

/-!
Exports followed to where they are defined.

The origin of an export is a canonical path or, when `external`, the specifier
of a package.  An `inline` export is a declaration that carries the export
itself, so its module already publishes it under its own name.
-/

namespace FlatExports

structure Resolved where
  exportedName : String
  origin : String
  originName : String
  typeOnly : Bool
  kind : ExportKind
  external : Bool
  localName : Option String
  inline : Bool
  deriving DecidableEq, Repr, Inhabited

namespace Resolved

/-- The same symbol, once as a type and once as a value. -/
def differsOnlyInType (a b : Resolved) : Bool :=
  a.kind = b.kind ∧ a.origin = b.origin ∧ a.originName = b.originName ∧
    a.typeOnly ≠ b.typeOnly

def asValue (export_ : Resolved) : Resolved := { export_ with typeOnly := false }

def asType (export_ : Resolved) : Resolved := { export_ with typeOnly := true }

end Resolved

end FlatExports
