import FlatExports.Location
import FlatExports.Syntax.Node

/-!
Sources of modules.

A dialect says which files hold modules and which of them may hold markup.
`ModuleTree.ofSource` reads the bytes of a file into a tree; bytes that are not
in the expected encoding are refused before they are read, and a tree with a
fault is refused afterwards.  How bytes become a tree is left to a grammar.
-/

namespace FlatExports

inductive Encoding where
  | utf8
  | ascii
  deriving DecidableEq, Repr

namespace Encoding

def name : Encoding → String
  | utf8 => "utf-8"
  | ascii => "ascii"

def text? (encoding : Encoding) (source : Text.Bytes) : Option (List Char) :=
  match encoding with
  | utf8 => Text.decode? source
  | ascii => if Text.isAscii source then Text.decode? source else none

end Encoding

structure Dialect where
  name : String
  extensions : List String
  markupExtensions : List String
  deriving DecidableEq, Repr

namespace Dialect

/-- Modules in the typed language and the plain one, each with and without markup. -/
def typescript : Dialect :=
  ⟨"typescript", [".ts", ".tsx", ".js", ".jsx"], [".tsx", ".jsx"]⟩

def empty (name : String) : Dialect := ⟨name, [], []⟩

def extensionOf (file : Location) : String := Text.lowered file.suffix

def canRead (dialect : Dialect) (file : Location) : Bool :=
  dialect.extensions.contains (extensionOf file)

def isMarkup (dialect : Dialect) (file : Location) : Bool :=
  dialect.markupExtensions.contains (extensionOf file)

end Dialect

namespace Syntax

/--
The parser in use.  It makes a tree of all bytes, of modules with markup or of
those without; where they are no module, the tree holds faults.
-/
class Grammar where
  tree (markup : Bool) (source : Text.Bytes) : Node

/-- Reads the bytes of a file, which messages call by its label. -/
def ModuleTree.ofSource [grammar : Grammar] (encoding : Encoding) (label : String)
    (markup : Bool) (source : Text.Bytes) : Except Failure ModuleTree :=
  match encoding.text? source with
  | none => .error (.unreadable label (.notEncoded encoding.name))
  | some _ => ofNode label source (grammar.tree markup source)

end Syntax

end FlatExports
