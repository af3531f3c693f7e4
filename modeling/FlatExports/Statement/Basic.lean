/-!
Export statements to be written.

A named statement without a source exports local bindings.
-/

namespace FlatExports

inductive QuoteStyle where
  | single
  | double
  deriving DecidableEq, Repr, Inhabited

def QuoteStyle.mark : QuoteStyle → Char
  | .single => '\''
  | .double => '"'

structure ExportSpecifier where
  localName : String
  exportedName : String
  typeOnly : Bool
  deriving DecidableEq, Repr

inductive StatementKind where
  | named
  | wildcard
  | namespaced
  deriving DecidableEq, Repr

structure Statement where
  kind : StatementKind
  source : Option String
  publishedAs : Option String
  typeOnly : Bool
  specifiers : List ExportSpecifier
  deriving DecidableEq, Repr

namespace Statement

def named (source : Option String) (specifiers : List ExportSpecifier) : Statement :=
  ⟨.named, source, none, false, specifiers⟩

def wildcard (source : String) (typeOnly : Bool) : Statement :=
  ⟨.wildcard, some source, none, typeOnly, []⟩

def namespaceOf (source name : String) (typeOnly : Bool) : Statement :=
  ⟨.namespaced, some source, some name, typeOnly, []⟩

end Statement

end FlatExports
