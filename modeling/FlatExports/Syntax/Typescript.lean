import FlatExports.Syntax.Lexeme.OfText
import FlatExports.Syntax.Node.Program
import FlatExports.Syntax.Source

/-!
The grammar of the command line.

It tells the statements of a module apart and reads of each what exports and
bindings need.  A text that is no module has a root with an error and nothing
else: where the first fault of such a text lies is not worked out.
-/

namespace FlatExports.Syntax

def programOf? (markup : Bool) (text : List Char) : Option Node :=
  (lexemes? markup text).bind program?

def faultyProgram (length : Nat) : Node :=
  ⟨⟨.program, 0, length, true, false, true, 0, 0, none⟩, []⟩

instance Grammar.typescript : Grammar where
  tree markup source :=
    ((Text.decode? source).bind (programOf? markup)).getD (faultyProgram source.length)

end FlatExports.Syntax
