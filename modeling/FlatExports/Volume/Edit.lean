import FlatExports.Volume.Walk

/-!
Changing a volume.

A new entry gets the directories it needs, and a file written through a link
replaces what the link leads to.  Deleting a link leaves its target alone.
-/

namespace FlatExports.Volume

/-- Makes the directories that some names lead through from a place reached. -/
def makeDirectories (volume : Volume) (reached : List String) : List String → Volume
  | [] => volume
  | name :: rest =>
      let here := reached ++ [name]
      let made := if (volume.entry? here).isNone then volume.put here .directory else volume
      made.makeDirectories here rest

def addDirectory (volume : Volume) (location : Location) : Volume :=
  volume.makeDirectories [] (volume.resolve location).names

def write (volume : Volume) (location : Location) (content : Text.Bytes) : Volume :=
  let place := volume.resolve location
  (volume.makeDirectories [] place.parent.names).put place.names (.file content)

/-- The place of an entry itself: links are followed up to its directory. -/
def placeOf (volume : Volume) (location : Location) : List String :=
  (volume.resolve location.parent).names ++ [location.name]

def addLink (volume : Volume) (location : Location) (target : String) : Volume :=
  let place := volume.placeOf location
  (volume.makeDirectories [] place.dropLast).put place (.link target)

def delete (volume : Volume) (location : Location) : Except PathFault Volume := do
  let directory ← volume.walk location.parent
  let place := directory ++ [location.name]
  match volume.entry? place with
  | none => throw .missing
  | some .directory => throw .isDirectory
  | some _ => return volume.remove place

/-- The files of a volume that were not there before, or had another content. -/
def changedFiles (before after : Volume) : List (Location × Text.Bytes) :=
  after.entries.filterMap fun (names, entry) =>
    match entry with
    | .file content =>
        if before.entry? names = some entry then none else some (⟨names⟩, content)
    | _ => none

end FlatExports.Volume
