import FlatExports.Command.Respond

/-!
The program.

Commands work on a volume, so the program first copies into one what a command
may look at: the settings, the file it is about, and every module that can be
reached from there.  Then it answers the command and writes changed files back.
-/

namespace FlatExports.Program

/-! ## Copying from the file system -/

/-- The path without links that a path stands for, if there is anything. -/
def realPath? (path : String) : IO (Option Location) := do
  try return some (.ofPath (toString (← IO.FS.realPath path)))
  catch _ => return none

/-- Copies the entry at a location without links; what cannot be read is a directory. -/
def copyEntry (volume : Volume) (location : Location) : IO Volume := do
  if (volume.entry? location.names).isSome then return volume
  try
    let content ← IO.FS.readBinFile location.written
    return volume.write location content.toList
  catch _ => return volume.addDirectory location

/-- Copies what a walk along some names meets, links included. -/
def copyAlong (volume : Volume) (reached : List String) : List String → IO Volume
  | [] => return volume
  | name :: rest => do
      if name = ".." then copyAlong volume reached.dropLast rest
      else
        let here : Location := ⟨reached ++ [name]⟩
        match ← realPath? here.written with
        | none => return volume
        | some target =>
            let volume ← copyEntry volume target
            let linked := if target = here then volume else volume.addLink here target.written
            copyAlong linked target.names rest

def copy (volume : Volume) (location : Location) : IO Volume :=
  copyAlong volume [] location.names

/-- Copies whatever a specifier may mean. -/
def copyCandidates (settings : Settings) (volume : Volume) (specifier : String)
    (directory : Location) : IO Volume := do
  let volume ← copy volume (directory.join specifier)
  let candidates := Lookup.candidates ⟨settings, volume⟩ specifier directory
  candidates.foldlM (fun volume candidate =>
    match candidate with
    | .ok location => copy volume location
    | .error _ => return volume) volume

/-- Copies a module and all that its re-exports lead to; also lists the modules. -/
partial def copyModules (settings : Settings) (volume : Volume) (seen : List Location)
    (file : Location) : IO (Volume × List Location) := do
  if file ∈ seen then return (volume, seen)
  match Module.loadSurface volume file with
  | .error _ => return (volume, file :: seen)
  | .ok surface =>
      let mut volume := volume
      let mut seen := file :: seen
      for edge in surface.reExports do
        if Specifier.isInternal edge.specifier then
          volume ← copyCandidates settings volume edge.specifier file.parent
          if let .ok (some target) :=
              Lookup.probe ⟨settings, volume⟩ edge.specifier file.parent then
            (volume, seen) ← copyModules settings volume seen target
      return (volume, seen)

def copyForms (settings : Settings) (volume : Volume) (directory : Location)
    (modules : List Location) : IO Volume :=
  modules.foldlM (fun volume module =>
    let forms := Lookup.shorterForms settings.extensions (Specifier.relative module directory)
    forms.foldlM (fun volume form => copyCandidates settings volume form directory) volume) volume

def copyProject (settings : Settings) (volume : Volume) (path : Location) : IO Volume := do
  let volume ← copyCandidates settings volume path.name path.parent
  match Lookup.resolveFile ⟨settings, volume⟩ path with
  | .error _ => return volume
  | .ok file =>
      let (volume, modules) ← copyModules settings volume [] file
      copyForms settings volume file.parent modules

def volumeFor (directory : Location) (command : Command) : IO Volume := do
  let volume ← copy .empty directory
  match command with
  | .flatten file _ config style => do
      let volume ← copy volume (directory.child Settings.defaultFile)
      let volume ←
        match config with
        | some path => copy volume (directory.join path)
        | none => pure volume
      let settings := (Command.settingsOf volume directory config style).toOption.getD .default
      copyProject settings volume (directory.join file)
  | .issues file _ | .references file _ => copyProject .default volume (directory.join file)

/-! ## Answering -/

def sayMisuse (misuse : Misuse) : IO UInt32 := do
  IO.eprint ("Error: " ++ misuse.message ++ "\n")
  return Response.misuseStatus.toUInt32

def say (response : Response) : IO UInt32 := do
  match response.result with
  | .ok shown => IO.print shown.render
  | .error complaint => IO.eprint complaint.line
  return response.status.toUInt32

/-- Writes files, or gives the reason why one cannot be written. -/
def writeFiles (files : List (Location × Text.Bytes)) : IO (Option String) := do
  try
    for (file, content) in files do
      IO.FS.writeBinFile file.written ⟨content.toArray⟩
    return none
  catch problem => return some (toString problem)

def answer (volume : Volume) (directory : Location) (request : Request)
    (writeError : Option String) : IO UInt32 := do
  match request.respond volume directory writeError with
  | .error misuse => sayMisuse misuse
  | .ok (.error failure) =>
      IO.eprint (failure.message ++ "\n")
      return 1
  | .ok (.ok response) => say response

/-- Writes what a request changes, and then answers it. -/
def serve (directory : Location) (request : Request) : IO UInt32 := do
  let volume ←
    match request with
    | .command command => volumeFor directory command
    | _ => pure .empty
  match request.respond volume directory none with
  | .ok (.ok response) =>
      match ← writeFiles (volume.changedFiles response.volume) with
      | none => say response
      | problem => answer volume directory request problem
  | _ => answer volume directory request none

end FlatExports.Program

def main (arguments : List String) : IO UInt32 := do
  match FlatExports.Request.ofArguments arguments with
  | .error misuse => FlatExports.Program.sayMisuse misuse
  | .ok request =>
      let directory ← IO.currentDir
      FlatExports.Program.serve (.ofPath (toString directory)) request
