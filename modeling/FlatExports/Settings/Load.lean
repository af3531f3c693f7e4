import FlatExports.Settings.OfValue
import FlatExports.Volume.Walk
import FlatExports.Yaml.Document

/-!
Loading settings from a file.

A file of settings is a YAML document whose value is a mapping.  A document
that counts as nothing is an empty mapping, and where there is no file the
default settings hold.
-/

namespace FlatExports.Settings

open Yaml (Value)

def defaultFile : String := ".barrel-utils.yaml"

def ofDocument (file text : String) : Except Failure Settings :=
  match Yaml.read text with
  | .error (.scalar fault) => throw (.badScalar fault)
  | .error fault => throw (.badSettings file (.notYaml fault.message))
  | .ok (.map entries) =>
      (Settings.default.replace entries).mapError fun faults => .badSettings file (.invalid faults)
  | .ok value =>
      if value.isNothing then return .default else throw (.badSettings file .notMapping)

def load (volume : Volume) (file : Location) (label : String) : Except Failure Settings :=
  match volume.read file with
  | .error .isDirectory => throw (.settingsDirectory label)
  | .error _ => return .default
  | .ok bytes =>
      match Text.text? bytes with
      | some text => ofDocument label text
      | none => throw .brokenText

end FlatExports.Settings
