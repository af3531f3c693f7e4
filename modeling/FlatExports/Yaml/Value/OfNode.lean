import FlatExports.Yaml.Node
import FlatExports.Yaml.Scalar

/-!
The value that a node stands for.

A mapping first takes in the entries of the mappings that its merge keys name:
they come before its own entries, which win over them, and of several merged
mappings the first one wins.
-/

namespace FlatExports.Yaml

namespace Node

def tag : Node → Tag
  | scalar tag _ => tag
  | list tag _ => tag
  | map tag _ => tag

mutual

/-- The text of a scalar, or of the scalar that a mapping gives as its value. -/
def scalarText? : Node → Option String
  | scalar _ text => some text
  | list .. => none
  | map _ entries => valueText? entries

def valueText? : List (Node × Node) → Option String
  | [] => none
  | (key, value) :: rest => if key.tag = .value then scalarText? value else valueText? rest

end

end Node

namespace Value

def checkKey (key : Value) : Except Fault Unit :=
  if key.isKey then return () else throw .badKey

mutual

def ofNode : Node → Except Fault Value
  | .scalar tag content => Scalar.value tag content
  | .list tag items =>
      match tag with
      | .list => do return .list (← ofItems items)
      | .orderedMap | .pairs => do return .list (← ofPairs items)
      | .merge | .value | .other _ => Scalar.value tag ""
      | _ => throw .wrongKind
  | .map tag entries =>
      match tag with
      | .map => do
          let (merged, own) ← splitEntries entries
          return .map (putAll (merged ++ own))
      | .set => do
          let (merged, own) ← splitEntries entries
          return .set ((putAll (merged ++ own)).map (·.1))
      | _ =>
          match Node.valueText? entries with
          | some content => Scalar.value tag content
          | none =>
              match tag with
              | .merge | .value | .other _ => Scalar.value tag ""
              | _ => throw .wrongKind

def ofItems : List Node → Except Fault (List Value)
  | [] => return []
  | item :: rest => do
      let first ← ofNode item
      let others ← ofItems rest
      return first :: others

/-- A key; the mark of a value is plain text there. -/
def ofKey : Node → Except Fault Value
  | .scalar .value content => return .text content
  | node => ofNode node

/-- The entries that merge keys bring in, and the other ones. -/
def splitEntries :
    List (Node × Node) → Except Fault (List (Value × Value) × List (Value × Value))
  | [] => return ([], [])
  | (key, value) :: rest => do
      if key.tag = .merge then
        let here ← mergedBy value
        let (merged, own) ← splitEntries rest
        return (here ++ merged, own)
      else
        let first ← ofKey key
        checkKey first
        let second ← ofNode value
        let (merged, own) ← splitEntries rest
        return (merged, (first, second) :: own)

/-- The entries that the value of a merge key brings in. -/
def mergedBy : Node → Except Fault (List (Value × Value))
  | .scalar .. => throw .badMerge
  | .list _ items => mergedItems items
  | .map _ entries => do
      let (merged, own) ← splitEntries entries
      return merged ++ own

/-- The entries of several mappings, those of the first one last. -/
def mergedItems : List Node → Except Fault (List (Value × Value))
  | [] => return []
  | .map _ entries :: rest => do
      let (merged, own) ← splitEntries entries
      let others ← mergedItems rest
      return others ++ merged ++ own
  | _ :: _ => throw .badMerge

/-- Items that are mappings of one entry each, as lists of key and value. -/
def ofPairs : List Node → Except Fault (List Value)
  | [] => return []
  | .map _ [(key, value)] :: rest => do
      let first ← ofNode key
      let second ← ofNode value
      let others ← ofPairs rest
      return .list [first, second] :: others
  | _ :: _ => throw .badPair

end

end Value

end FlatExports.Yaml
