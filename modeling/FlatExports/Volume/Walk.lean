import FlatExports.Text.Quoted
import FlatExports.Volume.Basic

/-!
Walking through a volume.

`advance` goes name by name through directories until it arrives, fails or
meets a link; `walk` follows up to `linkLimit` links.  A name `..` leads to the
directory above the one that has been reached, so what stands before it has to
exist.  `canonical?` is where a walk arrives: a plain location without links.
`resolve` goes on past what does not exist and takes `..` there by name only;
it follows however many links there are, unless they lead in a circle.
-/

namespace FlatExports

inductive PathFault where
  | missing
  | notDirectory
  | isDirectory
  | linkLoop
  deriving DecidableEq, Repr

namespace PathFault

def number : PathFault → Nat
  | missing => 2
  | notDirectory => 20
  | isDirectory => 21
  | linkLoop => 40

def description : PathFault → String
  | missing => "No such file or directory"
  | notDirectory => "Not a directory"
  | isDirectory => "Is a directory"
  | linkLoop => "Too many levels of symbolic links"

def message (fault : PathFault) (location : Location) : String :=
  "[Errno " ++ toString fault.number ++ "] " ++ fault.description ++ ": " ++
    Text.shown location.written

end PathFault

namespace Volume

/-- Where some steps lead. -/
inductive Arrival where
  | arrived (names : List String)
  | fault (fault : PathFault)
  /-- A link in a directory, and the names behind it. -/
  | link (directory : List String) (target : String) (rest : List String)
  deriving DecidableEq, Repr

/-- Goes on from a directory that has been reached, up to the first link. -/
def advance (volume : Volume) (reached : List String) : List String → Arrival
  | [] => .arrived reached
  | name :: rest =>
      if name = "." then advance volume reached rest
      else if name = ".." then advance volume reached.dropLast rest
      else match volume.entry? (reached ++ [name]) with
        | none => .fault .missing
        | some .directory => advance volume (reached ++ [name]) rest
        | some (.file _) =>
            if rest.isEmpty then .arrived (reached ++ [name]) else .fault .notDirectory
        | some (.link target) => .link reached target rest

def linkLimit : Nat := 40

/-- The directory a link target starts from. -/
def linkStart (directory : List String) (target : String) : List String :=
  if target.toList.head? = some '/' then [] else directory

/-- The names a link target goes through; a slash at its end asks for a directory. -/
def linkNames (target : String) : List String :=
  let last := lastPiece target
  if last = "" ∨ last = "." then pathNames target ++ ["."] else pathNames target

def walkFrom (volume : Volume) : Nat → List String → List String → Except PathFault (List String)
  | budget, reached, names =>
      match advance volume reached names with
      | .arrived names => .ok names
      | .fault fault => .error fault
      | .link directory target rest =>
          match budget with
          | 0 => .error .linkLoop
          | budget + 1 =>
              walkFrom volume budget (linkStart directory target) (linkNames target ++ rest)

def walk (volume : Volume) (location : Location) : Except PathFault (List String) :=
  walkFrom volume linkLimit [] location.names

def find (volume : Volume) (location : Location) : Except PathFault (Location × Entry) := do
  let names ← volume.walk location
  match volume.entry? names with
  | some entry => return (⟨names⟩, entry)
  | none => throw .missing

def canonical? (volume : Volume) (location : Location) : Option Location :=
  (volume.find location).toOption.map (·.1)

def isFile (volume : Volume) (location : Location) : Bool :=
  match volume.find location with
  | .ok (_, .file _) => true
  | _ => false

def isDirectory (volume : Volume) (location : Location) : Bool :=
  match volume.find location with
  | .ok (_, .directory) => true
  | _ => false

def read (volume : Volume) (location : Location) : Except PathFault Text.Bytes := do
  match ← volume.find location with
  | (_, .file content) => return content
  | _ => throw .isDirectory

/-! ## Places that need not exist -/

/-- As `walk`, but what is not a directory may be gone past.  Names behind a link that leads
nowhere stay as they are. -/
def pass (volume : Volume)
    (follow : List String → String → Except (List String) (List String))
    (reached : List String) : List String → Except (List String) (List String)
  | [] => .ok reached
  | name :: rest =>
      if name = "." then pass volume follow reached rest
      else if name = ".." then pass volume follow reached.dropLast rest
      else match volume.entry? (reached ++ [name]) with
        | some (.link target) =>
            match follow (reached ++ [name]) target with
            | .ok place => pass volume follow place rest
            | .error stuck => .error (stuck ++ rest)
        | _ => pass volume follow (reached ++ [name]) rest

/--
Where a link leads, unless it is met again on the way there.  The links that are
being followed are different, so there are never more of them than entries.
-/
def follow (volume : Volume) (left : Nat) (followed : List (List String)) (link : List String)
    (target : String) : Except (List String) (List String) :=
  if link ∈ followed then .error link
  else
    match left with
    | 0 => .error link
    | left + 1 =>
        volume.pass (volume.follow left (link :: followed)) (linkStart link.dropLast target)
          (linkNames target)

/-- The place a location stands for, whether there is anything or not. -/
def resolve (volume : Volume) (location : Location) : Location :=
  match volume.pass (volume.follow volume.entries.length []) [] location.names with
  | .ok names => ⟨names⟩
  | .error names => Location.normal ⟨names⟩

end Volume

end FlatExports
