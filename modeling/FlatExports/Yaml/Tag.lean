import FlatExports.Yaml.Moment

/-!
Tags, which tell what a node stands for.

A plain scalar without a tag gets one from its spelling: `ofPlain` knows the
words for booleans and null, whole numbers with base ten, two, eight, sixteen
or sixty, fractions, and moments.  Every other plain scalar is text.
-/

namespace FlatExports.Yaml

inductive Tag where
  | null
  | boolean
  | integer
  | real
  | binary
  | moment
  | text
  | list
  | map
  | set
  | orderedMap
  | pairs
  /-- The key whose value is merged into the mapping. -/
  | merge
  /-- The key that holds the value of a mapping. -/
  | value
  | other (name : String)
  deriving DecidableEq, Repr

namespace Tag

def coreHandle : String := "tag:yaml.org,2002:"

def ofName (name : String) : Tag :=
  match (name.dropPrefix? coreHandle).map (·.toString) with
  | none => .other name
  | some part =>
      match part with
      | "null" => .null
      | "bool" => .boolean
      | "int" => .integer
      | "float" => .real
      | "binary" => .binary
      | "timestamp" => .moment
      | "str" => .text
      | "seq" => .list
      | "map" => .map
      | "set" => .set
      | "omap" => .orderedMap
      | "pairs" => .pairs
      | "merge" => .merge
      | "value" => .value
      | _ => .other name

/-! ## Plain scalars -/

def trueWords : List String :=
  ["yes", "Yes", "YES", "true", "True", "TRUE", "on", "On", "ON"]

def falseWords : List String :=
  ["no", "No", "NO", "false", "False", "FALSE", "off", "Off", "OFF"]

def nullWords : List String := ["", "~", "null", "Null", "NULL"]

def isDigit : Char → Bool := Moment.isDigit

def isDigitOrGap (c : Char) : Bool := isDigit c || c = '_'

def isBinaryDigit (c : Char) : Bool := c = '0' || c = '1' || c = '_'

def isOctalDigit (c : Char) : Bool := ('0' ≤ c && c ≤ '7') || c = '_'

def isHexDigit (c : Char) : Bool :=
  isDigit c || ('a' ≤ c && c ≤ 'f') || ('A' ≤ c && c ≤ 'F')

def withoutSign : List Char → List Char
  | '-' :: rest => rest
  | '+' :: rest => rest
  | cs => cs

/-- The rest behind the groups `:00` to `:59`, and how many there are. -/
def dropSixties : List Char → List Char × Nat
  | ':' :: a :: b :: rest =>
      if '0' ≤ a ∧ a ≤ '5' ∧ isDigit b then
        let (rest, count) := dropSixties rest
        (rest, count + 1)
      else if isDigit a then
        let (rest, count) := dropSixties (b :: rest)
        (rest, count + 1)
      else (':' :: a :: b :: rest, 0)
  | [':', a] => if isDigit a then ([], 1) else ([':', a], 0)
  | cs => (cs, 0)

def isSixties (text : List Char) : Bool :=
  match dropSixties text with
  | ([], count) => 0 < count
  | _ => false

def isInteger (text : List Char) : Bool :=
  match withoutSign text with
  | '0' :: 'b' :: rest => !rest.isEmpty && rest.all isBinaryDigit
  | '0' :: 'x' :: rest => !rest.isEmpty && rest.all fun c => isHexDigit c || c = '_'
  | '0' :: rest => rest.all isOctalDigit
  | c :: rest =>
      let tail := rest.dropWhile isDigitOrGap
      isDigit c && (tail.isEmpty || isSixties tail)
  | [] => false

/-- Whether a text is empty or an exponent with a sign. -/
def isExponent : List Char → Bool
  | [] => true
  | e :: sign :: digits =>
      (e = 'e' || e = 'E') && (sign = '-' || sign = '+') && !digits.isEmpty && digits.all isDigit
  | _ => false

def isReal (text : List Char) : Bool :=
  if text = ".nan".toList ∨ text = ".NaN".toList ∨ text = ".NAN".toList then true
  else match text with
  | '.' :: c :: rest =>
      if isDigit c then isExponent (rest.dropWhile isDigitOrGap)
      else ["inf".toList, "Inf".toList, "INF".toList].contains (c :: rest)
  | _ =>
      match withoutSign text with
      | '.' :: rest => ["inf".toList, "Inf".toList, "INF".toList].contains rest
      | c :: rest =>
          isDigit c &&
            match rest.dropWhile isDigitOrGap with
            | '.' :: fraction => isExponent (fraction.dropWhile isDigitOrGap)
            | tail =>
                match dropSixties tail with
                | ('.' :: fraction, count) => 0 < count && fraction.all isDigitOrGap
                | _ => false
      | [] => false

/-- The tag that the spelling of a plain scalar gives it. -/
def ofPlain (text : String) : Tag :=
  let cs := text.toList
  if trueWords.contains text || falseWords.contains text then .boolean
  else if isReal cs then .real
  else if isInteger cs then .integer
  else if text = "<<" then .merge
  else if nullWords.contains text then .null
  else if Moment.isWritten cs then .moment
  else if text = "=" then .value
  else if text = "!" ∨ text = "&" ∨ text = "*" then .other (coreHandle ++ "yaml")
  else .text

end Tag

end FlatExports.Yaml
