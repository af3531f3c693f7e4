import FlatExports.Yaml.Token

/-!
Plain scalars.

A plain scalar goes on over blanks and line breaks as long as its lines stay
indented.  It ends before a tab, a colon that a blank follows, a comment, the
marks of flow collections inside one, and a line that separates documents.
-/

namespace FlatExports.Yaml

def endsKey (inFlow : Bool) (rest : List Char) : Bool :=
  endsWord rest || (inFlow && (rest.head?.map ",[]\x7b\x7d".toList.contains).getD false)

def isFlowMark (c : Char) : Bool := ",?[]\x7b\x7d".toList.contains c

def indicators : List Char := "-?:,[]\x7b\x7d#&*!|>'\"%@".toList ++ ['\x60']

def startsPlain (inFlow : Bool) (c : Char) (rest : List Char) : Bool :=
  !(isGap c || isBreak c || indicators.contains c) ||
    (!endsWord rest && (c = '-' || (!inFlow && (c = '?' || c = ':'))))

/--
The text of a plain scalar and the number of its characters.  `indent` is the
column its lines need at least, and `column` the current one.
-/
def plain (inFlow : Bool) (indent : Nat) : List Char → Nat → Blanks → List Char × Nat
  | [], _, _ => ([], 0)
  | c :: rest, column, blanks =>
      if c = ' ' ∨ isBreak c then
        if isBreak c ∧ isSeparatorLine rest then ([], 0)
        else
          let next := if isBreak c then blanks.addBreak c else blanks.addGap c
          let (text, length) := plain inFlow indent rest (if isBreak c then 0 else column + 1) next
          if length = 0 then ([], 0) else (text, length + 1)
      else if c = '\t' ∨ (c = ':' ∧ endsKey inFlow rest) ∨ (inFlow ∧ isFlowMark c) then ([], 0)
      else if blanks ≠ .none ∧ (c = '#' ∨ (column < indent ∧ !inFlow)) then ([], 0)
      else
        let (text, length) := plain inFlow indent rest (column + 1) .none
        (blanks.text ++ c :: text, length + 1)

end FlatExports.Yaml
