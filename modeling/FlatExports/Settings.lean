import FlatExports.Statement.Basic

/-!
Settings of a run.
-/

namespace FlatExports

structure Settings where
  quoteStyle : QuoteStyle
  /-- The longest chain of re-exports or wildcards that is followed. -/
  maxDepth : Nat
  /-- The extensions of source files in the order they are tried. -/
  extensions : List String
  deriving DecidableEq, Repr

namespace Settings

def sourceExtensions : List String := [".ts", ".tsx", ".js", ".jsx"]

def default : Settings := ⟨.single, 256, sourceExtensions⟩

instance : Inhabited Settings := ⟨default⟩

def indexStem : String := "index"

def indexFiles (settings : Settings) : List String :=
  settings.extensions.map (indexStem ++ ·)

end Settings

end FlatExports
