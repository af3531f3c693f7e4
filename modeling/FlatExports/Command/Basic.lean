import FlatExports.Diagnostics
import FlatExports.Flatten
import FlatExports.Text.Json

/-!
The commands of the program and what it answers.

A request is what the arguments of a call ask for.  A misuse is a call that no
command can be made of; a complaint is a command that did not come to its end.
-/

namespace FlatExports

inductive Command where
  /-- Flattens a file in place, or shows what that would make of it. -/
  | flatten (file : String) (dryRun : Bool) (config : Option String)
      (style : Option QuoteStyle)
  | issues (file : String) (json : Bool)
  | references (file : String) (json : Bool)
  deriving DecidableEq, Repr

inductive Topic where
  | program
  | flatten
  | issues
  | references
  deriving DecidableEq, Repr

inductive Request where
  | help (topic : Topic)
  | version
  | command (command : Command)
  deriving DecidableEq, Repr

inductive Misuse where
  | unknownOption (text : String)
  | missingValue (name : String)
  | unwantedValue (name : String)
  | badValue (name value : String)
  | missingArgument (name : String)
  | extraArgument (text : String)
  | missingCommand
  | unknownCommand (name : String)
  | noSuchFile (path : String)
  | isDirectory (path : String)
  deriving DecidableEq, Repr

def Misuse.message : Misuse → String
  | unknownOption text => "No such option: " ++ text
  | missingValue name => "Option '" ++ name ++ "' requires an argument."
  | unwantedValue name => "Option '" ++ name ++ "' does not take a value."
  | badValue name value => "Invalid value for '" ++ name ++ "': '" ++ value ++ "'."
  | missingArgument name => "Missing argument '" ++ name ++ "'."
  | extraArgument text => "Got unexpected extra argument (" ++ text ++ ")"
  | missingCommand => "Missing command."
  | unknownCommand name => "No such command '" ++ name ++ "'."
  | noSuchFile path => "File '" ++ path ++ "' does not exist."
  | isDirectory path => "File '" ++ path ++ "' is a directory."

structure Table where
  title : String
  header : List String
  rows : List (List String)
  deriving DecidableEq, Repr

namespace Table

def width (text : String) : Nat := text.length

def widths (table : Table) : List Nat :=
  table.rows.foldl (fun widths row => widths.zipWith max (row.map width)) (table.header.map width)

def padded (size : Nat) (cell : String) : String :=
  cell ++ String.ofList (List.replicate (size - width cell) ' ')

def line (widths : List Nat) (cells : List String) : String :=
  "  ".intercalate (widths.zipWith padded cells) ++ "\n"

def render (table : Table) : String :=
  let widths := table.widths
  let rule := widths.map fun size => String.ofList (List.replicate size '-')
  table.title ++ "\n\n" ++ line widths table.header ++ line widths rule ++
    String.join (table.rows.map (line widths))

end Table

inductive Shown where
  | text (text : String)
  | table (table : Table)
  deriving DecidableEq, Repr

inductive Complaint where
  | failure (failure : Failure)
  | run (failure : RunFailure)
  deriving Repr

def Complaint.message : Complaint → String
  | .failure cause => cause.message
  | .run cause => cause.message

structure Response where
  result : Except Complaint Shown
  volume : Volume

namespace Response

/-- The status that tells the caller whether the command succeeded. -/
def status (response : Response) : Nat :=
  match response.result with
  | .ok _ => 0
  | .error _ => 1

def misuseStatus : Nat := 2

end Response

def Complaint.line (complaint : Complaint) : String := "❌ " ++ complaint.message ++ "\n"

namespace Shown

def success (text : String) : String := "✅ " ++ text ++ "\n"

def detail (text : String) : String := "   " ++ text ++ "\n"

def render : Shown → String
  | .text content => content
  | .table content => content.render

end Shown

end FlatExports
