import FlatExports.Module.Scan
import FlatExports.Statement.Print

/-!
Putting statements in the place of a module's re-exports.

Every re-export statement is removed, together with its line when it stands
alone on it, and the printed block comes in the place of the first.  A module
that holds nothing but re-exports becomes the block.  All other bytes are kept.
-/

namespace FlatExports.Module

open FlatExports.Text

structure Removal where
  start : Nat
  stop : Nat
  wholeLines : Bool
  deriving DecidableEq, Repr

def removal (source : Bytes) (span : StatementSpan) : Removal :=
  let start := lineStart source span.start
  let stop := lineEnd source span.stop
  if isBlank (slice source start span.start) && isBlank (slice source span.stop stop) then
    ⟨start, stop, true⟩
  else ⟨span.start, span.stop, false⟩

/-- Whether only blanks stand from a place on, statements left out. -/
def onlyReExports (source : Bytes) : Nat → List StatementSpan → Bool
  | place, [] => isBlank (source.drop place)
  | place, span :: rest =>
      isBlank (slice source place span.start) && onlyReExports source span.stop rest

def placedBlock (source block : Bytes) (span : StatementSpan) : Bytes :=
  if block.isEmpty then []
  else
    let removed := removal source span
    if removed.wholeLines then
      let indent := slice source removed.start span.start
      let ending := slice source (removed.stop - 1) removed.stop
      indent ++ block ++ (if ending = [newline] then ending else [])
    else block

/-- What is kept from a place on, the removals left out. -/
def keptFrom (source : Bytes) : Nat → List StatementSpan → Bytes
  | place, [] => source.drop place
  | place, span :: rest =>
      let removed := removal source span
      slice source place removed.start ++ keptFrom source removed.stop rest

def spliced (source block : Bytes) (first : StatementSpan) (others : List StatementSpan) :
    Bytes :=
  if onlyReExports source 0 (first :: others) then
    let ending := if source.getLast? = some newline ∧ block ≠ [] then [newline] else []
    block ++ ending
  else
    let removed := removal source first
    source.take removed.start ++ placedBlock source block first ++
      keptFrom source removed.stop others

def withStatements (style : QuoteStyle) (source : Bytes) (spans : List StatementSpan)
    (statements : List Statement) : Except Failure String := do
  let output ←
    match spans with
    | [] => pure source
    | first :: others => do
        let block ← Statement.textOfAll style statements
        pure (spliced source (bytesOf block) first others)
  match text? output with
  | some text => return text
  | none => throw .brokenText

end FlatExports.Module
