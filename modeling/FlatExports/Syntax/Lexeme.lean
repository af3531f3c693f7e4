/-!
Lexemes of a module.

Brackets are matched while a source is read, so a lexeme is a token or a group
with what stands between its brackets.  Every lexeme knows the bytes it covers
and the *gap* before it: where the previous lexeme or comment ends, if a line
ends before this one starts.  An omitted semicolon stands at that place.
-/

namespace FlatExports.Syntax

inductive Bracket where
  | round
  | square
  | curly
  deriving DecidableEq, Repr

inductive TokenKind where
  | word
  | mark
  | number
  | string
  | template
  | regex
  | markup
  /-- The end of the source. -/
  | finish
  deriving DecidableEq, Repr

structure Place where
  start : Nat
  stop : Nat
  gap : Option Nat
  deriving DecidableEq, Repr

inductive Lexeme where
  | token (kind : TokenKind) (text : String) (place : Place)
  | group (bracket : Bracket) (content : List Lexeme) (place : Place)
  deriving Repr

namespace Lexeme

def place : Lexeme → Place
  | token _ _ place => place
  | group _ _ place => place

def start (lexeme : Lexeme) : Nat := lexeme.place.start

def stop (lexeme : Lexeme) : Nat := lexeme.place.stop

def startsLine (lexeme : Lexeme) : Bool := lexeme.place.gap.isSome

def isKind (kind : TokenKind) : Lexeme → Bool
  | token found _ _ => found = kind
  | group .. => false

def isBracket (bracket : Bracket) : Lexeme → Bool
  | token .. => false
  | group found _ _ => found = bracket

def isAnyWord (lexeme : Lexeme) : Bool := lexeme.isKind .word

def isAnyString (lexeme : Lexeme) : Bool := lexeme.isKind .string

def isFinish (lexeme : Lexeme) : Bool := lexeme.isKind .finish

def isRound (lexeme : Lexeme) : Bool := lexeme.isBracket .round

def isSquare (lexeme : Lexeme) : Bool := lexeme.isBracket .square

def isCurly (lexeme : Lexeme) : Bool := lexeme.isBracket .curly

/-- The text of a word, and the empty text for anything else. -/
def wordText : Lexeme → String
  | token .word text _ => text
  | _ => ""

def markText : Lexeme → String
  | token .mark text _ => text
  | _ => ""

def isWord (text : String) (lexeme : Lexeme) : Bool :=
  lexeme.isAnyWord && lexeme.wordText = text

def isMark (text : String) (lexeme : Lexeme) : Bool :=
  lexeme.isKind .mark && lexeme.markText = text

def touches (first second : Lexeme) : Bool := first.stop = second.start

end Lexeme

end FlatExports.Syntax
