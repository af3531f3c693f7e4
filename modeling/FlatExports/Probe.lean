import FlatExports.Failure
import FlatExports.Settings
import FlatExports.Specifier
import FlatExports.Volume.Walk

/-!
From specifiers to files and back.

A specifier names a file literally, without one of the source extensions, or by
a directory with an index file in it; `candidates` lists what it may mean and
`probe` takes the first that is a file.  `relativeSpecifier` goes back: it drops
the extension and a final `index` as far as the shorter form still leads to the
same file.
-/

namespace FlatExports

structure Lookup where
  settings : Settings
  volume : Volume

/-- The last part of a specifier, trailing slashes not counted. -/
def lastSegment (specifier : String) : String :=
  lastPiece (String.ofList (specifier.toList.reverse.dropWhile (· = '/')).reverse)

/-- Whether a specifier can only name a directory. -/
def namesDirectory (specifier : String) : Bool :=
  specifier.toList.getLast? = some '/' || lastSegment specifier = "." ||
    lastSegment specifier = ".."

/--
A location with another last name, unless that is no name.  Names are judged by
their text, as the path library does from version 3.12 on: `a/.` holds a slash
and is refused, where version 3.11 takes it for `a`.
-/
def Location.withName (location : Location) (name : String) : Except Failure Location :=
  if location.names.isEmpty then .error .namelessLocation
  else if name = "" ∨ name = "." ∨ name.toList.contains '/' then
    .error (.invalidName name)
  else .ok (location.parent.child name)

namespace Lookup

/-- The files a specifier may mean, in the order they are tried. -/
def candidates (lookup : Lookup) (specifier : String) (directory : Location) :
    List (Except Failure Location) :=
  let base := directory.join specifier
  let extended :=
    if namesDirectory specifier then []
    else lookup.settings.extensions.map fun extension =>
      base.withName (base.name ++ extension)
  let indexes :=
    if lookup.volume.isDirectory base then
      lookup.settings.indexFiles.map fun file => .ok (base.join file)
    else []
  .ok base :: (extended ++ indexes)

/-- The canonical location of the first candidate that is a file. -/
def firstFile (volume : Volume) : List (Except Failure Location) → Except Failure (Option Location)
  | [] => .ok none
  | .error failure :: _ => .error failure
  | .ok candidate :: rest =>
      if volume.isFile candidate then .ok (volume.canonical? candidate)
      else firstFile volume rest

def probe (lookup : Lookup) (specifier : String) (directory : Location) :
    Except Failure (Option Location) :=
  firstFile lookup.volume (lookup.candidates specifier directory)

def notFound (specifier : String) (directory : Location) : Failure :=
  .moduleNotFound specifier directory.written

def resolve (lookup : Lookup) (specifier : String) (directory : Location) :
    Except Failure Location := do
  match ← lookup.probe specifier directory with
  | some file => return file
  | none => throw (notFound specifier directory)

def resolveFile (lookup : Lookup) (path : Location) : Except Failure Location :=
  lookup.resolve path.name path.parent

/-! ## Specifiers of files -/

/-- Forms of a specifier, the shortest first. -/
def shorterForms (extensions : List String) (full : String) : List String :=
  let (stem, extension) := cutExtension full
  let directory := pathDirectory stem
  let folder :=
    if lastPiece stem = Settings.indexStem ∧ extension ∈ extensions then
      [if directory = "" ∨ directory = "." then "." else directory]
    else []
  folder ++ [stem, full]

def firstLeading (lookup : Lookup) (target directory : Location) (full : String) :
    List String → Except Failure String
  | [] => .ok full
  | form :: rest => do
      if (← lookup.probe form directory) = some target then return form
      else firstLeading lookup target directory full rest

def relativeSpecifier (lookup : Lookup) (target directory : Location) :
    Except Failure String :=
  let full := Specifier.relative target directory
  firstLeading lookup target directory full (shorterForms lookup.settings.extensions full)

end Lookup

end FlatExports
