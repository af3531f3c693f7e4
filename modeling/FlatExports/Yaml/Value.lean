import FlatExports.Number.Binary64
import FlatExports.Text.Utf8
import FlatExports.Yaml.Moment

/-!
The values that a YAML document can hold.

A mapping keeps its entries in the order in which their keys first occur.
Numbers are equal as keys if they are equal as numbers, and a boolean counts as
zero or one.
-/

namespace FlatExports.Yaml

inductive Value where
  | null
  | flag (value : Bool)
  | whole (value : Int)
  | real (value : Binary64)
  | text (value : String)
  | binary (value : Text.Bytes)
  | moment (value : Moment)
  | list (items : List Value)
  | set (items : List Value)
  | map (entries : List (Value × Value))
  deriving Repr

namespace Value

instance : Inhabited Value := ⟨null⟩

/-- The whole number that a value counts as, or the number that is not whole. -/
def number? : Value → Option (Int ⊕ Binary64)
  | flag value => some (.inl (if value then 1 else 0))
  | whole value => some (.inl value)
  | real value =>
      match value.whole? with
      | some n => some (.inl n)
      | none => some (.inr value)
  | _ => none

def sameKey : Value → Value → Bool
  | null, null => true
  | text a, text b => a = b
  | binary a, binary b => a = b
  | moment a, moment b => a = b
  | a, b =>
      match a.number?, b.number? with
      | some x, some y => x = y
      | _, _ => false

def isKey : Value → Bool
  | list _ | set _ | map _ => false
  | _ => true

def isNothing : Value → Bool
  | null => true
  | flag value => !value
  | whole value => value = 0
  | real value => value.isZero
  | text value => value.isEmpty
  | binary value => value.isEmpty
  | moment _ => false
  | list items | set items => items.isEmpty
  | map entries => entries.isEmpty

/-- Adds an entry; a key that is there keeps its place and gets the new value. -/
def putEntry (key value : Value) : List (Value × Value) → List (Value × Value)
  | [] => [(key, value)]
  | entry :: rest =>
      if entry.1.sameKey key then (entry.1, value) :: rest
      else entry :: putEntry key value rest

/-- The entries of a mapping that gets some entries one after the other. -/
def putAll (entries : List (Value × Value)) : List (Value × Value) :=
  entries.foldl (fun kept (key, value) => putEntry key value kept) []

end Value

end FlatExports.Yaml
