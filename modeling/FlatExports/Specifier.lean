import FlatExports.Location

/-!
Module specifiers.

A specifier that starts with a dot is internal: it names a file relative to the
module that holds it.  Any other names a package and is never looked into.
`relativeSpecifier` is lexical: it climbs from the directory to the common
ancestor and descends to the target.
-/

namespace FlatExports.Specifier

def isInternal (specifier : String) : Bool :=
  specifier.toList.head? = some '.'

/-- Paths in specifiers are separated by slashes, as they are in the file tree. -/
def withSlashes (path : String) : String := path

/-- A relative path written so that it does not read as a package name. -/
def ofRelativePath (path : String) : String :=
  let path := withSlashes path
  if isInternal path then path else "./" ++ path

def commonLength : List String → List String → Nat
  | a :: as, b :: bs => if a = b then commonLength as bs + 1 else 0
  | _, _ => 0

/-- The steps from one normalised location to another. -/
def steps (target directory : List String) : List String :=
  let shared := commonLength directory target
  List.replicate (directory.length - shared) ".." ++ target.drop shared

def relativePath (target directory : Location) : String :=
  match steps target.normal.names directory.normal.names with
  | [] => "."
  | names => "/".intercalate names

/-- The specifier that leads from a directory to a target by names alone. -/
def relative (target directory : Location) : String :=
  ofRelativePath (relativePath target directory)

end FlatExports.Specifier
