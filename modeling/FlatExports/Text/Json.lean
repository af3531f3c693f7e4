import FlatExports.Text.Quoted

/-!
Writing JSON.

Every member stands on a line of its own, two spaces further in than what holds
it; an empty list or object is written without a line break.
-/

namespace FlatExports.Text

inductive Json where
  | text (value : String)
  | number (value : Nat)
  | list (items : List Json)
  | object (members : List (String × Json))
  deriving Repr

namespace Json

def escapedChar (c : Char) : List Char :=
  match c with
  | '"' => ['\\', '"']
  | '\\' => ['\\', '\\']
  | '\n' => ['\\', 'n']
  | '\r' => ['\\', 'r']
  | '\t' => ['\\', 't']
  | '\x08' => ['\\', 'b']
  | '\x0c' => ['\\', 'f']
  | c => if c.toNat < 32 then '\\' :: 'u' :: hexDigits 4 c.toNat else [c]

def quoted (text : String) : String :=
  String.ofList ('"' :: text.toList.flatMap escapedChar ++ ['"'])

def lineStart (depth : Nat) : String := "\n" ++ String.ofList (List.replicate (2 * depth) ' ')

def enclosed (left right : String) (depth : Nat) (members : List String) : String :=
  if members.isEmpty then left ++ right
  else
    left ++ lineStart (depth + 1) ++ ("," ++ lineStart (depth + 1)).intercalate members ++
      lineStart depth ++ right

mutual

def render (depth : Nat) : Json → String
  | text value => quoted value
  | number value => toString value
  | list items => enclosed "[" "]" depth (renderItems (depth + 1) items)
  | object members => enclosed "\x7b" "\x7d" depth (renderMembers (depth + 1) members)

def renderItems (depth : Nat) : List Json → List String
  | [] => []
  | item :: rest => render depth item :: renderItems depth rest

def renderMembers (depth : Nat) : List (String × Json) → List String
  | [] => []
  | (name, value) :: rest =>
      (quoted name ++ ": " ++ render depth value) :: renderMembers depth rest

end

end Json

end FlatExports.Text
