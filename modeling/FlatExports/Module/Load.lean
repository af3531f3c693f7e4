import FlatExports.Module.Scan
import FlatExports.Syntax.Source
import FlatExports.Volume.Walk

/-!
Reading modules from a volume, by a grammar.
-/

namespace FlatExports.Module

open FlatExports.Syntax

variable [Grammar]

def loadTree (encoding : Encoding) (volume : Volume) (file : Location) :
    Except Failure ModuleTree :=
  match volume.read file with
  | .error fault => .error (.unreadable file.written (.cannotRead (fault.message file)))
  | .ok source =>
      ModuleTree.ofSource encoding file.written (Dialect.typescript.isMarkup file) source

def loadScan (volume : Volume) (file : Location) : Except Failure Scan := do
  scan (← loadTree .utf8 volume file)

def loadSurface (volume : Volume) (file : Location) : Except Failure Surface := do
  return (← loadScan volume file).surface

end FlatExports.Module
