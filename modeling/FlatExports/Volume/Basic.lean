import FlatExports.Location
import FlatExports.Text.Utf8

/-!
A tree of files, directories and symbolic links.

A volume lists its entries by the names that lead to them from the root, links
not followed.  An entry counts only where a walk from the root can reach it, so
nothing is asked of the list; of two entries at one place the first counts.
The root is a directory whatever the list says.
-/

namespace FlatExports

inductive Entry where
  | file (content : Text.Bytes)
  | directory
  /-- A link leads where its target leads from the directory that holds it. -/
  | link (target : String)
  deriving DecidableEq, Repr

structure Volume where
  entries : List (List String × Entry)
  deriving DecidableEq, Repr

namespace Volume

def empty : Volume := ⟨[]⟩

def entry? (volume : Volume) (names : List String) : Option Entry :=
  match names with
  | [] => some .directory
  | _ => volume.entries.lookup names

def put (volume : Volume) (names : List String) (entry : Entry) : Volume :=
  ⟨(names, entry) :: volume.entries.filter (·.1 ≠ names)⟩

def remove (volume : Volume) (names : List String) : Volume :=
  ⟨volume.entries.filter (·.1 ≠ names)⟩

end Volume

end FlatExports
