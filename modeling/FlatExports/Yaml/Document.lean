import FlatExports.Yaml.Node.OfTokens
import FlatExports.Yaml.Token.OfText
import FlatExports.Yaml.Value.OfNode

/-!
Reading a YAML document.

`read` is the value of the only document of a text, which is null if the text
holds no document.  A carriage return, alone or before a line feed, counts as a
line feed.
-/

namespace FlatExports.Yaml

def withLineFeeds : List Char → List Char
  | [] => []
  | '\r' :: '\n' :: rest => '\n' :: withLineFeeds rest
  | c :: rest => (if c = '\r' then '\n' else c) :: withLineFeeds rest

/-- Whether a character may stand in a document. -/
def isPrintable (c : Char) : Bool :=
  let n := c.toNat
  n == 9 || n == 10 || n == 13 || (0x20 ≤ n && n ≤ 0x7E) || n == 0x85 ||
    (0xA0 ≤ n && n ≤ 0xD7FF) || (0xE000 ≤ n && n ≤ 0xFFFD) || 0x10000 ≤ n

def read (text : String) : Except Fault Value := do
  let cs := withLineFeeds text.toList
  if let some c := cs.find? (!isPrintable ·) then throw (.unprintable c)
  match ← Node.document? (← tokens cs) with
  | none => return .null
  | some node => Value.ofNode node

end FlatExports.Yaml
