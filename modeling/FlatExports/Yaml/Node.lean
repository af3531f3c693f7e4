import FlatExports.Yaml.Tag

/-!
The nodes of a YAML document.

A scalar keeps its text and its tag, which says what the text stands for.  A
map keeps its entries in the order they are written, a name that occurs twice
included.
-/

namespace FlatExports.Yaml

inductive Node where
  | scalar (tag : Tag) (text : String)
  | list (tag : Tag) (items : List Node)
  | map (tag : Tag) (entries : List (Node × Node))
  deriving Repr

end FlatExports.Yaml
