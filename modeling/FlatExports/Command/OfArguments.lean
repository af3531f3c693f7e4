import FlatExports.Command.Basic

/-!
Reading the arguments of a call.

Options of the program stand before the name of the command, those of a command
anywhere behind it; after `--` nothing is an option.  An option is written in
full, with its value behind it or after an equals sign, and of several values
the last one counts.  Single letters can be written together behind one dash.
-/

namespace FlatExports

structure OptionForm where
  name : String
  letter : Option Char
  takesValue : Bool
  deriving DecidableEq, Repr

namespace OptionForm

def flag (name : String) : OptionForm := ⟨name, none, false⟩

def value (name : String) : OptionForm := ⟨name, none, true⟩

end OptionForm

/-- The options of some arguments in their order, and the other arguments. -/
structure Gathered where
  options : List (String × String)
  others : List String
  deriving Repr

namespace Gathered

def addOptions (options : List (String × String)) (gathered : Gathered) : Gathered :=
  { gathered with options := options ++ gathered.options }

def addOther (argument : String) (gathered : Gathered) : Gathered :=
  { gathered with others := argument :: gathered.others }

def has (gathered : Gathered) (name : String) : Bool :=
  gathered.options.any (·.1 = name)

def last? (gathered : Gathered) (name : String) : Option String :=
  (gathered.options.reverse.find? (·.1 = name)).map (·.2)

end Gathered

namespace Arguments

/-- An argument cut at its first equals sign. -/
def cutValue (argument : String) : String × Option String :=
  let cs := argument.toList
  let name := cs.takeWhile (· ≠ '=')
  match cs.drop name.length with
  | [] => (argument, none)
  | _ :: value => (String.ofList name, some (String.ofList value))

/-- The flags of letters written together. -/
def letters (forms : List OptionForm) : List Char → Except Misuse (List (String × String))
  | [] => return []
  | c :: rest =>
      match forms.find? (·.letter = some c) with
      | some form => do
          let others ← letters forms rest
          return (form.name, "") :: others
      | none => throw (.unknownOption (String.ofList ['-', c]))

def isOption (argument : String) : Bool :=
  match argument.toList with
  | '-' :: _ :: _ => true
  | _ => false

/-- What an argument says that starts with a dash. -/
inductive Reading where
  | flags (options : List (String × String))
  /-- An option whose value is the next argument. -/
  | awaiting (name : String)

def readOption (forms : List OptionForm) (argument : String) : Except Misuse Reading :=
  let (name, written) := cutValue argument
  match forms.find? (·.name = name), argument.toList with
  | some form, _ =>
      match form.takesValue, written with
      | true, some value => return .flags [(name, value)]
      | true, none => return .awaiting name
      | false, some _ => throw (.unwantedValue name)
      | false, none => return .flags [(name, "")]
  | none, '-' :: '-' :: _ => throw (.unknownOption name)
  | none, cs => do return .flags (← letters forms (cs.drop 1))

/--
Gathers the options.  `mixed` tells whether they may stand behind other
arguments, and `awaiting` names the option that waits for its value.
-/
def gather (forms : List OptionForm) (mixed : Bool) (awaiting : Option String) :
    List String → Except Misuse Gathered
  | [] =>
      match awaiting with
      | some name => throw (.missingValue name)
      | none => return ⟨[], []⟩
  | argument :: rest =>
      match awaiting with
      | some name => do return (← gather forms mixed none rest).addOptions [(name, argument)]
      | none =>
          if argument = "--" then return ⟨[], rest⟩
          else if isOption argument then do
            match ← readOption forms argument with
            | .flags options => return (← gather forms mixed none rest).addOptions options
            | .awaiting name => gather forms mixed (some name) rest
          else if mixed then do return (← gather forms mixed none rest).addOther argument
          else return ⟨[], argument :: rest⟩

/-! ## Commands -/

def helpOption : String := "--help"
def versionOption : String := "--version"
def verboseOption : String := "--verbose"
def dryRunOption : String := "--dry-run"
def configOption : String := "--config"
def quoteOption : String := "--quote"
def jsonOption : String := "--json"

def programForms : List OptionForm :=
  [.flag versionOption, ⟨verboseOption, some 'v', false⟩, .flag helpOption]

def flattenForms : List OptionForm :=
  [.flag dryRunOption, .value configOption, .value quoteOption, .flag helpOption]

def diagnosticForms : List OptionForm := [.flag jsonOption, .flag helpOption]

def single (name : String) : List String → Except Misuse String
  | [] => throw (.missingArgument name)
  | [argument] => return argument
  | _ :: extra :: _ => throw (.extraArgument extra)

def styleOf (text : Option String) : Except Misuse (Option QuoteStyle) :=
  match text with
  | none => return none
  | some "single" => return some .single
  | some "double" => return some .double
  | some other => throw (.badValue quoteOption other)

def flattenRequest (arguments : List String) : Except Misuse Request := do
  let gathered ← gather flattenForms true none arguments
  if gathered.has helpOption then return .help .flatten
  let style ← styleOf (gathered.last? quoteOption)
  let file ← single "ROOT_FILE" gathered.others
  return .command
    (.flatten file (gathered.has dryRunOption) (gathered.last? configOption) style)

def diagnosticRequest (topic : Topic) (make : String → Bool → Command)
    (arguments : List String) : Except Misuse Request := do
  let gathered ← gather diagnosticForms true none arguments
  if gathered.has helpOption then return .help topic
  let file ← single "FILE" gathered.others
  return .command (make file (gathered.has jsonOption))

/-- What the first option that asks for a text of the program itself asks for. -/
def programText? (gathered : Gathered) : Option Request :=
  gathered.options.findSome? fun (name, _) =>
    if name = helpOption then some (.help .program)
    else if name = versionOption then some .version
    else none

end Arguments

def Request.ofArguments (arguments : List String) : Except Misuse Request := do
  let gathered ← Arguments.gather Arguments.programForms false none arguments
  match Arguments.programText? gathered, gathered.others with
  | some request, _ => return request
  | none, [] => throw .missingCommand
  | none, name :: rest =>
      match name with
      | "unbarrel" => Arguments.flattenRequest rest
      | "issues" => Arguments.diagnosticRequest .issues .issues rest
      | "references" => Arguments.diagnosticRequest .references .references rest
      | _ => throw (.unknownCommand name)

end FlatExports
