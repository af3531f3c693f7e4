import FlatExports.Failure
import FlatExports.Number.Shortest
import FlatExports.Settings
import FlatExports.Text.Blank
import FlatExports.Yaml.Value

/-!
Checking settings.

The entries of a mapping replace the settings they name.  A depth may be
spelled as a text or be a number that is equal to a whole one.  All faults are
found at once: those of the known settings in their order, then keys that name
no setting in the order of the mapping.
-/

namespace FlatExports

/-! ## Depths -/

namespace Numeral

/-- The characters without the leading zeros and the gaps among them. -/
def withoutZeros : List Char → Option (List Char)
  | [] => none
  | '0' :: rest => afterZero '0' rest
  | c :: rest => if '1' ≤ c ∧ c ≤ '9' then some (c :: rest) else none
where
  /-- The rest behind a zero or a gap; a zero stays if no other digit follows. -/
  afterZero (last : Char) : List Char → Option (List Char)
    | [] => some [last]
    | c :: rest =>
        if c = '0' ∨ c = '_' then afterZero c rest
        else if '1' ≤ c ∧ c ≤ '9' then some (c :: rest)
        else if c = '.' then some (last :: c :: rest)
        else none

/-- The characters before a point that only zeros follow. -/
def withoutFraction (text : List Char) : List Char :=
  let whole := text.takeWhile (· ≠ '.')
  if (text.drop (whole.length + 1)).all (· = '0') then whole else text

def hasDoubleGap : List Char → Bool
  | '_' :: '_' :: _ => true
  | _ :: rest => hasDoubleGap rest
  | [] => false

def withoutGaps (text : List Char) : List Char :=
  if text.head? = some '_' ∨ text.getLast? = some '_' ∨ hasDoubleGap text then text
  else text.filter (· ≠ '_')

def isDigit (c : Char) : Bool := '0' ≤ c && c ≤ '9'

def digits? (text : List Char) : Option Nat :=
  if text.isEmpty ∨ !text.all isDigit then none
  else some (text.foldl (fun n c => 10 * n + (c.toNat - '0'.toNat)) 0)

def signed : List Char → Bool × List Char
  | '-' :: rest => (true, rest)
  | '+' :: rest => (false, rest)
  | text => (false, text)

def whole? (text : List Char) : Option Int := do
  let (negative, body) := signed (Text.trim text)
  let n ← digits? (withoutGaps (withoutFraction (← withoutZeros body)))
  return if negative then -n else n

def lengthLimit : Nat := 4300

def read (text : String) : Except SettingsProblem Int :=
  if lengthLimit < text.utf8ByteSize then throw .tooLong
  else match whole? text.toList with
    | some n => return n
    | none => throw .notNumeral

end Numeral

namespace Settings

open Yaml (Value)

def wholeLimit : Int := 0x8000000000000000

def wholeOfReal (number : Binary64) : Except SettingsProblem Int :=
  match number with
  | .finite .. =>
      match number.whole? with
      | none => throw .fractional
      | some n => if -wholeLimit ≤ n ∧ n < wholeLimit then return n else throw .tooLong
  | _ => throw .notFinite

def wholeOfValue : Value → Except SettingsProblem Int
  | .whole n => return n
  | .flag flag => return if flag then 1 else 0
  | .real number => wholeOfReal number
  | .text text => Numeral.read text
  | .binary bytes =>
      match Text.text? bytes with
      | some text => Numeral.read text
      | none => throw .notNumeral
  | _ => throw .notWhole

def depthOfValue (value : Value) : Except SettingsProblem Nat := do
  let n ← wholeOfValue value
  if 0 < n then return n.toNat else throw .notPositive

/-! ## The other settings -/

def styleOfValue : Value → Except SettingsProblem QuoteStyle
  | .text "single" => return .single
  | .text "double" => return .double
  | _ => throw .notStyle

def textOfValue : Value → Except SettingsProblem String
  | .text text => return text
  | .binary bytes =>
      match Text.text? bytes with
      | some text => return text
      | none => throw .brokenText
  | _ => throw .notText

def itemsOfValue : Value → Except SettingsProblem (List Value)
  | .list items | .set items => return items
  | _ => throw .notList

/-! ## All settings -/

def styleKey : String := "quote_style"
def depthKey : String := "max_depth"
def extensionsKey : String := "extensions"

def keys : List String := [styleKey, depthKey, extensionsKey]

def given? (entries : List (Value × Value)) (key : String) : Option Value :=
  (entries.find? fun (name, _) => name.sameKey (.text key)).map (·.2)

def checked {α : Type} (key : String) (usual : α) (given : Option Value)
    (check : Value → Except SettingsProblem α) : α × List SettingsFault :=
  match given with
  | none => (usual, [])
  | some value =>
      match check value with
      | .ok setting => (setting, [])
      | .error problem => (usual, [⟨[.key key], problem⟩])

def faultsOfItems (key : String) (items : List Value) : List SettingsFault :=
  items.zipIdx.filterMap fun (item, position) =>
    match textOfValue item with
    | .ok _ => none
    | .error problem => some ⟨[.key key, .index position], problem⟩

def checkedExtensions (usual : List String) (given : Option Value) :
    List String × List SettingsFault :=
  match given.map itemsOfValue with
  | none => (usual, [])
  | some (.error problem) => (usual, [⟨[.key extensionsKey], problem⟩])
  | some (.ok items) =>
      (items.filterMap fun item => (textOfValue item).toOption,
        faultsOfItems extensionsKey items)

/-- A key that is no text, as a step on the way to its value. -/
def stepOfKey : Value → SettingsStep
  | .null => .key "None"
  | .flag flag => .index (if flag then 1 else 0)
  | .whole n =>
      if -wholeLimit ≤ n ∧ n < wholeLimit then .index n else .key (toString n)
  | .real number => .key number.text
  | .text text => .key text
  | .binary bytes => .key (Text.shownBytes bytes)
  | .moment moment => .key moment.shown
  | .list _ | .set _ | .map _ => .key ""

def faultOfKey? (key : Value) : Option SettingsFault :=
  match key with
  | .text name => if name ∈ keys then none else some ⟨[.key name], .unknownKey⟩
  | _ => some ⟨[stepOfKey key], .badKey⟩

def replace (settings : Settings) (entries : List (Value × Value)) :
    Except (List SettingsFault) Settings :=
  let (quoteStyle, styleFaults) :=
    checked styleKey settings.quoteStyle (given? entries styleKey) styleOfValue
  let (maxDepth, depthFaults) :=
    checked depthKey settings.maxDepth (given? entries depthKey) depthOfValue
  let (extensions, extensionFaults) :=
    checkedExtensions settings.extensions (given? entries extensionsKey)
  let faults := styleFaults ++ depthFaults ++ extensionFaults ++
    entries.filterMap fun (key, _) => faultOfKey? key
  if faults.isEmpty then return ⟨quoteStyle, maxDepth, extensions⟩ else throw faults

/-- Replaces settings by the values given for their names; null leaves a setting as it is. -/
def override (settings : Settings) (values : List (String × Value)) :
    Except Failure Settings :=
  let given := values.filterMap fun (name, value) =>
    match value with
    | .null => none
    | _ => some (Value.text name, value)
  (settings.replace given).mapError .badOverrides

end Settings

end FlatExports
