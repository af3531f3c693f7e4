import FlatExports.Yaml.Token.Block
import FlatExports.Yaml.Token.Plain
import FlatExports.Yaml.Token.Tag

/-!
Reading a YAML text into tokens.

The reader goes over the characters once.  A step takes one token and tells how
many more characters belong to it.  A token that could be a key is remembered
until its line ends; a colon behind it puts a `key` token before it, and starts
a mapping if the key is further in than the collections around it.
-/

namespace FlatExports.Yaml

/-- Where a key may start that has no question mark. -/
structure KeyStart where
  /-- The number of tokens before the key. -/
  token : Nat
  /-- Whether a colon has to follow. -/
  required : Bool
  line : Nat
  column : Nat
  index : Nat
  deriving Repr

structure Reading where
  line : Nat
  column : Nat
  index : Nat
  /-- The tokens, the last one first. -/
  tokens : List Token
  /-- The columns of the open block collections, the innermost one first. -/
  indents : List Nat
  /-- Whether a key without a question mark may start here. -/
  keyAllowed : Bool
  keyStart : Option KeyStart
  /-- What `keyStart` was before each flow collection that is open. -/
  outer : List (Option KeyStart)

namespace Reading

def start : Reading := ⟨0, 0, 0, [], [], true, none, []⟩

def inFlow (reading : Reading) : Bool := !reading.outer.isEmpty

def add (reading : Reading) (token : Token) : Reading :=
  { reading with tokens := token :: reading.tokens }

def innerColumn (reading : Reading) : Nat :=
  match reading.indents with
  | [] => 0
  | indent :: _ => indent + 1

/-- Closes the block collections that are further in than a column. -/
def closeDeeper (isDeeper : Nat → Bool) : List Nat → List Token → List Nat × List Token
  | [], tokens => ([], tokens)
  | indent :: indents, tokens =>
      if isDeeper indent then closeDeeper isDeeper indents (.blockEnd :: tokens)
      else (indent :: indents, tokens)

def unwind (reading : Reading) (isDeeper : Nat → Bool) : Reading :=
  if reading.inFlow then reading
  else
    let (indents, tokens) := closeDeeper isDeeper reading.indents reading.tokens
    { reading with indents, tokens }

def unwindTo (reading : Reading) (column : Nat) : Reading := reading.unwind (column < ·)

def unwindAll (reading : Reading) : Reading := reading.unwind fun _ => true

/-- Puts tokens before the last ones, `count` of all being before them. -/
def insertAt (count : Nat) (added tokens : List Token) : List Token :=
  let later := tokens.length - count
  tokens.take later ++ added ++ tokens.drop later

/-! ## Keys -/

def keyLimit : Nat := 1024

def isStale (reading : Reading) (start : KeyStart) : Bool :=
  start.line ≠ reading.line || start.index + keyLimit < reading.index

def dropStale (reading : Reading) (start : Option KeyStart) : Except Fault (Option KeyStart) :=
  match start with
  | none => return none
  | some start =>
      if reading.isStale start then
        if start.required then throw .missingColon else return none
      else return some start

def dropStaleKeys (reading : Reading) : Except Fault Reading := do
  let keyStart ← reading.dropStale reading.keyStart
  let outer ← reading.outer.mapM reading.dropStale
  return { reading with keyStart, outer }

def dropKey (reading : Reading) : Except Fault Reading :=
  if (reading.keyStart.map (·.required)).getD false then throw .missingColon
  else return { reading with keyStart := none }

def rememberKey (reading : Reading) : Except Fault Reading := do
  if reading.keyAllowed then
    let reading ← reading.dropKey
    let required := !reading.inFlow && reading.indents.head? = some reading.column
    return { reading with
      keyStart := some ⟨reading.tokens.length, required, reading.line, reading.column,
        reading.index⟩ }
  else return reading

def isFurtherIn (reading : Reading) (column : Nat) : Bool :=
  match reading.indents with
  | [] => true
  | indent :: _ => indent < column

/-- Starts a block collection here, unless it has been started. -/
def openBlock (reading : Reading) (token : Token) : Reading :=
  if reading.isFurtherIn reading.column then
    { reading with
      indents := reading.column :: reading.indents, tokens := token :: reading.tokens }
  else reading

/-! ## Steps -/

/-- The reading after one token and the number of its further characters. -/
abbrev Step := Except Fault (Reading × Nat)

def takeMark (reading : Reading) (token : Token) : Step :=
  return (reading.add token, 0)

def takeDocumentMark (reading : Reading) (token : Token) : Step := do
  let reading ← reading.unwindAll.dropKey
  return ({ reading with keyAllowed := false }.add token, 2)

def takeDirective (reading : Reading) (rest : List Char) : Step := do
  let reading ← reading.unwindAll.dropKey
  let line := rest.takeWhile (!isBreak ·)
  match directive? line with
  | some directive =>
      return ({ reading with keyAllowed := false }.add (.directive directive), line.length)
  | none => throw .badDirective

def takeOpening (reading : Reading) (token : Token) : Step := do
  let reading ← reading.rememberKey
  return ({ reading with
    outer := reading.keyStart :: reading.outer, keyStart := none, keyAllowed := true }.add token, 0)

def takeClosing (reading : Reading) (token : Token) : Step := do
  match reading.outer with
  | [] => throw .unexpectedToken
  | keyStart :: outer =>
      return ({ reading with keyStart, outer, keyAllowed := false }.add token, 0)

def takeSeparator (reading : Reading) : Step := do
  let reading ← reading.dropKey
  { reading with keyAllowed := true }.takeMark .separator

def takeEntry (reading : Reading) : Step := do
  if !reading.inFlow ∧ !reading.keyAllowed then throw .misplacedEntry
  let reading := if reading.inFlow then reading else reading.openBlock .listStart
  let reading ← reading.dropKey
  { reading with keyAllowed := true }.takeMark .entry

def takeKey (reading : Reading) : Step := do
  if !reading.inFlow ∧ !reading.keyAllowed then throw .misplacedKey
  let reading := if reading.inFlow then reading else reading.openBlock .mapStart
  let reading ← reading.dropKey
  { reading with keyAllowed := !reading.inFlow }.takeMark .key

def takeValue (reading : Reading) : Step :=
  match reading.keyStart with
  | some start =>
      let opens := !reading.inFlow && reading.isFurtherIn start.column
      { reading with
        tokens := insertAt start.token (if opens then [.key, .mapStart] else [.key]) reading.tokens
        indents := if opens then start.column :: reading.indents else reading.indents
        keyStart := none
        keyAllowed := false }.takeMark .value
  | none => do
      if !reading.inFlow ∧ !reading.keyAllowed then throw .misplacedValue
      let reading := if reading.inFlow then reading else reading.openBlock .mapStart
      { reading with keyAllowed := !reading.inFlow }.takeMark .value

def takeContent (reading : Reading) (token : Token) (more : Nat) : Step := do
  let reading ← reading.rememberKey
  return ({ reading with keyAllowed := false }.add token, more)

def takeName (reading : Reading) (token : String → Token) (rest : List Char) : Step :=
  let name := rest.takeWhile isNameChar
  let tail := rest.drop name.length
  let enders := "?:,]\x7d%@".toList ++ ['\x60']
  let ended := endsWord tail || (tail.head?.map enders.contains).getD false
  if name.isEmpty ∨ !ended then throw .badName
  else reading.takeContent (token (String.ofList name)) name.length

def takeTag (reading : Reading) (rest : List Char) : Step :=
  match tagBehindMark? rest with
  | some (tag, length) => reading.takeContent (.tag tag) length
  | none => throw .badTag

def takeBlock (reading : Reading) (folds : Bool) (rest : List Char) : Step := do
  let reading ← reading.dropKey
  let (text, length) ← blockScalar folds (max 1 reading.innerColumn) rest
  return ({ reading with keyAllowed := true }.add (.scalar false (String.ofList text)), length)

def takeQuoted (reading : Reading) (mark : Char) (rest : List Char) : Step := do
  let (text, length) ← quoted mark rest 0 .none
  reading.takeContent (.scalar false (String.ofList text)) length

def takePlain (reading : Reading) (c : Char) (rest : List Char) : Step :=
  let (text, length) := plain reading.inFlow reading.innerColumn (c :: rest) reading.column .none
  reading.takeContent (.scalar true (String.ofList text)) (length - 1)

def takeToken (reading : Reading) (c : Char) (rest : List Char) : Step := do
  let reading := (← reading.dropStaleKeys).unwindTo reading.column
  let atMargin := reading.column = 0
  let flow := reading.inFlow
  if c = '%' ∧ atMargin then reading.takeDirective rest
  else if c = '-' ∧ atMargin ∧ isSeparatorLine (c :: rest) then
    reading.takeDocumentMark .documentStart
  else if c = '.' ∧ atMargin ∧ isSeparatorLine (c :: rest) then
    reading.takeDocumentMark .documentEnd
  else if c = '[' then reading.takeOpening .openList
  else if c = '\x7b' then reading.takeOpening .openMap
  else if c = ']' then reading.takeClosing .closeList
  else if c = '\x7d' then reading.takeClosing .closeMap
  else if c = ',' then reading.takeSeparator
  else if c = '-' ∧ endsWord rest then reading.takeEntry
  else if c = '?' ∧ (flow ∨ endsWord rest) then reading.takeKey
  else if c = ':' ∧ (flow ∨ endsWord rest) then reading.takeValue
  else if c = '*' then reading.takeName .alias rest
  else if c = '&' then reading.takeName .anchor rest
  else if c = '!' then reading.takeTag rest
  else if c = '|' ∧ !flow then reading.takeBlock false rest
  else if c = '>' ∧ !flow then reading.takeBlock true rest
  else if c = '\'' ∨ c = '"' then reading.takeQuoted c rest
  else if startsPlain flow c rest then reading.takePlain c rest
  else throw (.strayCharacter c)

def pass (reading : Reading) (c : Char) : Reading :=
  if isBreak c then
    { reading with line := reading.line + 1, column := 0, index := reading.index + 1 }
  else if c = '\ufeff' then { reading with index := reading.index + 1 }
  else { reading with column := reading.column + 1, index := reading.index + 1 }

def step (reading : Reading) (c : Char) (rest : List Char) : Step :=
  if c = ' ' ∨ (c = '\ufeff' ∧ reading.index = 0) then return (reading, 0)
  else if isBreak c then
    return (if reading.inFlow then reading else { reading with keyAllowed := true }, 0)
  else if c = '#' then return (reading, (rest.takeWhile (!isBreak ·)).length)
  else reading.takeToken c rest

/-- Reads on, after `skip` characters of the token that was taken last. -/
def run : List Char → Nat → Reading → Except Fault Reading
  | [], _, reading => return reading
  | c :: rest, skip + 1, reading => run rest skip (reading.pass c)
  | c :: rest, 0, reading => do
      let (taken, skip) ← reading.step c rest
      run rest skip (taken.pass c)

def finish (reading : Reading) : Except Fault (List Token) := do
  let reading ← (← reading.dropStaleKeys).unwindAll.dropKey
  return reading.tokens.reverse

end Reading

def tokens (text : List Char) : Except Fault (List Token) := do
  (← Reading.run text 0 .start).finish

end FlatExports.Yaml
