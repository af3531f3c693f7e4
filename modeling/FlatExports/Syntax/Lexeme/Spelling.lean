/-!
How tokens are spelled.

Each function tells how many characters at the head of a source a token of one
kind takes, and those that return an option refuse a token that is not closed
or holds a malformed escape.
-/

namespace FlatExports.Syntax

/-- Blanks between tokens, a byte order mark among them. -/
def isBlankChar (c : Char) : Bool :=
  let code := c.toNat
  code = 32 || (9 ≤ code && code ≤ 13) || code = 0x85 || code = 0xA0 || code = 0x1680 ||
    (0x2000 ≤ code && code ≤ 0x200B) || code = 0x2028 || code = 0x2029 || code = 0x202F ||
    code = 0x205F || code = 0x2060 || code = 0x3000 || code = 0xFEFF

/-- The characters that end a line where an omitted semicolon may stand. -/
def isLineEnd (c : Char) : Bool :=
  c = '\n' || c.toNat = 0x2028 || c.toNat = 0x2029

def markChars : List Char :=
  [':', ';', '`', '"', '\'', '@', '#', '.', ',', '|', '^', '&', '<', '=', '>', '+', '-', '*',
   '/', '\\', '%', '?', '!', '~', '(', ')', '[', ']', '\x7b', '\x7d']

def isWordStart (c : Char) : Bool :=
  32 < c.toNat && !c.isDigit && !isBlankChar c && !markChars.contains c

def isWordChar (c : Char) : Bool := isWordStart c || c.isDigit

def isHexDigit (c : Char) : Bool :=
  c.isDigit || ('a' ≤ c && c ≤ 'f') || ('A' ≤ c && c ≤ 'F')

def width : List Char → Nat
  | [] => 0
  | c :: rest => c.utf8Size + width rest

def lengthWhile (test : Char → Bool) (text : List Char) : Nat := (text.takeWhile test).length

/-- The length of what stands between braces after `\u`, with the braces. -/
def bracedCode? (text : List Char) : Option Nat :=
  match text with
  | '\x7b' :: rest =>
      let digits := lengthWhile isHexDigit rest
      if 0 < digits ∧ (rest.drop digits).head? = some '\x7d' then some (digits + 2) else none
  | _ => none

def unicodeCode? (text : List Char) : Option Nat :=
  if 4 ≤ text.length ∧ (text.take 4).all isHexDigit then some 4 else bracedCode? text

/-- The length of an escape in a literal, less its backslash. -/
def escape? (text : List Char) : Option Nat :=
  match text with
  | [] => none
  | 'x' :: rest => if 2 ≤ rest.length ∧ (rest.take 2).all isHexDigit then some 3 else none
  | 'u' :: rest => (unicodeCode? rest).map (· + 1)
  | '\r' :: '\n' :: _ => some 2
  | _ :: _ => some 1

/--
The length of a string up to and with its closing mark.  `skip` characters at
the head belong to an escape.
-/
def stringRest? (mark : Char) : Nat → List Char → Option Nat
  | _, [] => none
  | skip + 1, _ :: rest => (stringRest? mark skip rest).map (· + 1)
  | 0, c :: rest =>
      if c = mark then some 1
      else if c = '\n' ∨ c = '\r' then none
      else if c = '\\' then do
        let length ← escape? rest
        (stringRest? mark length rest).map (· + 1)
      else (stringRest? mark 0 rest).map (· + 1)

inductive TemplateEnd where
  | closed
  | substitution
  deriving DecidableEq, Repr

/-- The length of a template piece with the mark that ends it. -/
def templatePiece? : Nat → List Char → Option (Nat × TemplateEnd)
  | _, [] => none
  | skip + 1, _ :: rest => (templatePiece? skip rest).map fun (n, ended) => (n + 1, ended)
  | 0, c :: rest =>
      if c = '`' then some (1, .closed)
      else if c = '$' ∧ rest.head? = some '\x7b' then some (2, .substitution)
      else if c = '\\' then do
        let length ← escape? rest
        (templatePiece? length rest).map fun (n, ended) => (n + 1, ended)
      else (templatePiece? 0 rest).map fun (n, ended) => (n + 1, ended)

/-- The length of a regular expression behind its first slash, less its flags. -/
def regexRest? (inClass escaped : Bool) : List Char → Option Nat
  | [] => none
  | c :: rest =>
      if c = '\n' then none
      else if escaped then (regexRest? inClass false rest).map (· + 1)
      else if c = '\\' then (regexRest? inClass true rest).map (· + 1)
      else if inClass then (regexRest? (c ≠ ']') false rest).map (· + 1)
      else if c = '/' then some 1
      else (regexRest? (c = '[') false rest).map (· + 1)

def regex? (text : List Char) : Option Nat := do
  let length ← regexRest? false false text
  return length + lengthWhile Char.isLower (text.drop length)

def blockCommentRest? : List Char → Option Nat
  | '*' :: '/' :: _ => some 2
  | [] => none
  | _ :: rest => (blockCommentRest? rest).map (· + 1)

/-- The length of the comment that starts at a slash, if one does. -/
inductive Comment where
  | absent
  | unclosed
  | length (n : Nat)
  deriving DecidableEq, Repr

def commentAt (text : List Char) : Comment :=
  match text with
  | '/' :: '/' :: rest => .length (2 + lengthWhile (fun c => !isLineEnd c) rest)
  | '/' :: '*' :: rest =>
      match blockCommentRest? rest with
      | some n => .length (n + 2)
      | none => .unclosed
  | _ => .absent

def wordLength : Nat → List Char → Nat
  | _, [] => 0
  | skip + 1, _ :: rest => wordLength skip rest + 1
  | 0, c :: rest =>
      if isWordChar c then wordLength 0 rest + 1
      else match c, rest with
        | '\\', 'u' :: code =>
            match unicodeCode? code with
            | some n => wordLength (n + 1) rest + 1
            | none => 0
        | _, _ => 0

def isDigitOrGap (c : Char) : Bool := c.isDigit || c = '_'

def exponentLength (text : List Char) : Nat :=
  match text with
  | e :: rest =>
      if e = 'e' ∨ e = 'E' then
        let sign := if rest.head? = some '+' ∨ rest.head? = some '-' then 1 else 0
        let digits := lengthWhile isDigitOrGap (rest.drop sign)
        if digits = 0 then 0 else 1 + sign + digits
      else 0
  | [] => 0

def decimalLength (text : List Char) : Nat :=
  let whole := lengthWhile isDigitOrGap text
  let tail := text.drop whole
  let fraction :=
    match tail with
    | '.' :: rest => 1 + lengthWhile isDigitOrGap rest
    | _ => 0
  whole + fraction + exponentLength (tail.drop fraction)

def numberLength (text : List Char) : Nat :=
  let length :=
    match text with
    | '0' :: x :: rest =>
        let digits := lengthWhile (fun c => isHexDigit c || c = '_') rest
        if "xXoObB".toList.contains x ∧ 0 < digits then 2 + digits else decimalLength text
    | _ => decimalLength text
  if (text.drop length).head? = some 'n' then length + 1 else length

/-- Marks of several characters, longest first.  Angle brackets stand alone. -/
def longMarks : List String :=
  ["...", "===", "!==", "**=", "&&=", "||=", "??=",
   "=>", "==", "!=", "++", "--", "+=", "-=", "*=", "/=", "%=", "&=", "|=", "^=",
   "**", "&&", "||", "??", "?."]

def isMarkHere (text : List Char) (mark : String) : Bool :=
  mark.toList.isPrefixOf text &&
    !(mark = "?." && ((text.drop 2).head?.map Char.isDigit).getD false)

def markAt (text : List Char) : String :=
  (longMarks.find? (isMarkHere text)).getD (String.ofList (text.take 1))

end FlatExports.Syntax
