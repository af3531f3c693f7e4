/-!
Absolute places in a file tree.

A location is the list of names from the root down.  It may hold `..`, which
only a walk through the tree can interpret; a *plain* location holds neither
`.` nor `..` nor an empty name.  Writing a location puts a slash before every
name, and reading drops empty names and `.`.
-/

namespace FlatExports

/-- The pieces of a text between slashes, empty ones included. -/
def slashPieces : List Char → List (List Char)
  | [] => [[]]
  | c :: rest =>
      if c = '/' then [] :: slashPieces rest
      else match slashPieces rest with
        | [] => [[c]]
        | piece :: pieces => (c :: piece) :: pieces

/-- The names a written path goes through: no empty one and no `.`. -/
def pathNames (path : String) : List String :=
  ((slashPieces path.toList).map String.ofList).filter fun name =>
    name ≠ "" ∧ name ≠ "."

structure Location where
  names : List String
  deriving DecidableEq, Repr, Inhabited

namespace Location

def root : Location := ⟨[]⟩

/-- Follows a written path; one that starts with a slash starts from the root. -/
def join (base : Location) (path : String) : Location :=
  if path.toList.head? = some '/' then ⟨pathNames path⟩
  else ⟨base.names ++ pathNames path⟩

def ofPath (path : String) : Location := root.join path

def written (location : Location) : String :=
  match location.names with
  | [] => "/"
  | names => String.join (names.map fun name => "/" ++ name)

instance : ToString Location := ⟨written⟩

def name (location : Location) : String := location.names.getLast?.getD ""

def parent (location : Location) : Location := ⟨location.names.dropLast⟩

def child (location : Location) (name : String) : Location :=
  ⟨location.names ++ [name]⟩

def isPlainName (name : String) : Bool :=
  name ≠ "" ∧ name ≠ "." ∧ name ≠ ".." ∧ !name.toList.contains '/'

def isPlain (location : Location) : Bool := location.names.all isPlainName

/-! ## Lexical normalisation -/

/-- Drops `.` and lets each `..` take the name before it away. -/
def collapse (names : List String) : List String :=
  names.foldl (fun kept name =>
    if name = "." ∨ name = "" then kept
    else if name = ".." then kept.dropLast
    else kept ++ [name]) []

def normal (location : Location) : Location := ⟨collapse location.names⟩

/-! ## Suffixes of file names -/

def cutLastDot (name : List Char) : List Char × List Char :=
  let tail := (name.reverse.takeWhile (· ≠ '.')).reverse
  if tail.length < name.length then
    (name.take (name.length - tail.length - 1), '.' :: tail)
  else (name, [])

/--
The suffix that tells the kind of a file: the last dot and what follows,
unless the dot stands first or last in the name.
-/
def suffix (location : Location) : String :=
  match cutLastDot location.name.toList with
  | ([], _) => ""
  | (_, ['.']) => ""
  | (_, tail) => String.ofList tail

end Location

/--
Cuts the extension off a written path.  The dots a name begins with start no
extension, so `..x` and `.ts` have none.
-/
def cutExtension (path : String) : String × String :=
  let cs := path.toList
  let name := (cs.reverse.takeWhile (· ≠ '/')).reverse
  let directory := cs.take (cs.length - name.length)
  let (stem, tail) := Location.cutLastDot name
  if stem.all (· = '.') then (path, "")
  else (String.ofList (directory ++ stem), String.ofList tail)

def lastPiece (path : String) : String :=
  String.ofList (path.toList.reverse.takeWhile (· ≠ '/')).reverse

def pathDirectory (path : String) : String :=
  let cs := path.toList
  let head := cs.take (cs.length - (lastPiece path).toList.length)
  let cut := (head.reverse.dropWhile (· = '/')).reverse
  String.ofList (if cut.isEmpty then head else cut)

end FlatExports
