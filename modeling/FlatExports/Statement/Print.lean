import FlatExports.Failure
import FlatExports.Statement.Basic
import FlatExports.Text.Quoted

/-!
The text of export statements, one line each.

A name stands bare when it is an ASCII identifier, and as a string literal
otherwise.  One line feed behind an identifier does not count.
-/

namespace FlatExports

def isIdentifierStart (c : Char) : Bool :=
  c.isAlpha || c = '_' || c = '$'

def isIdentifierPart (c : Char) : Bool :=
  isIdentifierStart c || c.isDigit

def isIdentifier : List Char → Bool
  | [] => false
  | c :: rest => isIdentifierStart c && rest.all isIdentifierPart

def standsBare (name : List Char) : Bool :=
  isIdentifier name || (name.getLast? = some '\n' && isIdentifier name.dropLast)

namespace Statement

def nameText (mark : Char) (name : String) : String :=
  if standsBare name.toList then name else Text.literal mark name

def typePrefix (typeOnly : Bool) : String := if typeOnly then "type " else ""

def specifierText (mark : Char) (specifier : ExportSpecifier) : String :=
  let source := typePrefix specifier.typeOnly ++ nameText mark specifier.localName
  if specifier.localName = specifier.exportedName then source
  else source ++ " as " ++ nameText mark specifier.exportedName

def clauseText (mark : Char) (specifiers : List ExportSpecifier) : String :=
  match ", ".intercalate (specifiers.map (specifierText mark)) with
  | "" => "\x7b\x7d"
  | body => "\x7b " ++ body ++ " \x7d"

def fromText (mark : Char) : Option String → String
  | none => ""
  | some source => " from " ++ Text.literal mark source

def text (style : QuoteStyle) (statement : Statement) : Except Failure String :=
  let typed := typePrefix statement.typeOnly
  match statement.kind with
  | .wildcard => do
      let some source := statement.source | throw .missingSource
      return "export " ++ typed ++ "*" ++ fromText style.mark (some source) ++ ";"
  | .namespaced => do
      let some name := statement.publishedAs | throw .missingNamespace
      let some source := statement.source | throw .missingSource
      return "export " ++ typed ++ "* as " ++ nameText style.mark name ++
        fromText style.mark (some source) ++ ";"
  | .named =>
      .ok ("export " ++ clauseText style.mark statement.specifiers ++
        fromText style.mark statement.source ++ ";")

def textOfAll (style : QuoteStyle) (statements : List Statement) : Except Failure String := do
  let lines ← statements.mapM (text style)
  return "\n".intercalate lines

end Statement

end FlatExports
