import FlatExports.Yaml.Fault
import FlatExports.Yaml.Node
import FlatExports.Yaml.Token

/-!
Reading the tokens of a document into a node.

The functions call each other as the productions of the format do, with a
budget that the number of tokens bounds: between two calls at the same tokens
there are never more than two others.
-/

namespace FlatExports.Yaml

structure Names where
  /-- What the handles of tags stand for. -/
  handles : List (String × String)
  anchors : List (String × Node)

/-- What has been read, the names known behind it and the tokens that are left. -/
structure Parsed (α : Type) where
  value : α
  names : Names
  rest : List Token

namespace Node

def empty : Node := .scalar (.ofPlain "") ""

structure Properties where
  anchor : Option String
  tag : Option WrittenTag

def properties : List Token → Properties × List Token
  | .anchor name :: .tag tag :: rest => (⟨some name, some tag⟩, rest)
  | .tag tag :: .anchor name :: rest => (⟨some name, some tag⟩, rest)
  | .anchor name :: rest => (⟨some name, none⟩, rest)
  | .tag tag :: rest => (⟨none, some tag⟩, rest)
  | rest => (⟨none, none⟩, rest)

/-- The name of a tag in full; the tag `!` alone is left to the spelling. -/
def tagName (names : Names) : WrittenTag → Except Fault String
  | .full name => return name
  | .short handle suffix =>
      match names.handles.lookup handle with
      | some start => return start ++ suffix
      | none => throw (.unknownHandle handle)

/-- The tag that a node was given, unless its spelling or kind decides. -/
def givenTag (names : Names) (tag : Option WrittenTag) : Except Fault (Option String) :=
  match tag with
  | none => return none
  | some tag => return some (← tagName names tag)

/-- The tag of a scalar: the one given, or the one its spelling gives it. -/
def scalarTag (given : Option String) (plain : Bool) (text : String) : Tag :=
  match given with
  | none => if plain then .ofPlain text else .text
  | some name => if name = "!" then .ofPlain text else .ofName name

def collectionTag (given : Option String) (usual : Tag) : Tag :=
  match given with
  | none => usual
  | some name => if name = "!" then usual else .ofName name

def Names.bind (names : Names) (anchor : Option String) (node : Node) : Names :=
  match anchor with
  | none => names
  | some name => { names with anchors := (name, node) :: names.anchors }

def checkAnchor (names : Names) (anchor : Option String) : Except Fault Unit :=
  match anchor with
  | none => return ()
  | some name =>
      if (names.anchors.lookup name).isSome then throw (.repeatedAnchor name) else return ()

def named {α : Type} (anchor : Option String) (make : α → Node)
    (result : Except Fault (Parsed α)) : Except Fault (Parsed Node) := do
  let ⟨value, names, rest⟩ ← result
  let node := make value
  return ⟨node, Names.bind names anchor node, rest⟩

/-- What kind of collection may start at a node. -/
inductive Context where
  | flow
  | block
  /-- A value of a block mapping, where the entries of a list need no indentation. -/
  | blockValue
  deriving DecidableEq

mutual

def node (context : Context) (names : Names) (tokens : List Token) :
    Nat → Except Fault (Parsed Node)
  | 0 => throw .unexpectedToken
  | budget + 1 => do
      if let .alias name :: rest := tokens then
        match names.anchors.lookup name with
        | some node => return ⟨node, names, rest⟩
        | none => throw (.unknownAlias name)
      let (properties, rest) := properties tokens
      let given ← givenTag names properties.tag
      checkAnchor names properties.anchor
      let listTag := collectionTag given .list
      let mapTag := collectionTag given .map
      let inList := Names.bind names properties.anchor (.list listTag [])
      let inMap := Names.bind names properties.anchor (.map mapTag [])
      let list := named properties.anchor (.list listTag)
      let map := named properties.anchor (.map mapTag)
      match rest with
      | .scalar plain text :: rest =>
          named properties.anchor (.scalar (scalarTag given plain text))
            (return ⟨text, names, rest⟩)
      | .openList :: rest => list (flowItems inList true rest budget)
      | .openMap :: rest => map (flowEntries inMap true rest budget)
      | _ =>
          match context, rest with
          | .blockValue, .entry :: _ => list (plainItems inList rest budget)
          | .block, .listStart :: rest | .blockValue, .listStart :: rest =>
              list (blockItems inList rest budget)
          | .block, .mapStart :: rest | .blockValue, .mapStart :: rest =>
              map (blockEntries inMap rest budget)
          | _, _ =>
              if properties.anchor.isNone ∧ properties.tag.isNone then throw .unexpectedToken
              else
                named properties.anchor (.scalar (scalarTag given true ""))
                  (return ⟨"", names, rest⟩)

def blockItems (names : Names) (tokens : List Token) : Nat → Except Fault (Parsed (List Node))
  | 0 => throw .unexpectedToken
  | budget + 1 =>
      match tokens with
      | .blockEnd :: rest => return ⟨[], names, rest⟩
      | .entry :: rest => do
          let ⟨item, names, rest⟩ ←
            match rest with
            | .entry :: _ | .blockEnd :: _ => pure ⟨empty, names, rest⟩
            | _ => node .block names rest budget
          let ⟨items, names, rest⟩ ← blockItems names rest budget
          return ⟨item :: items, names, rest⟩
      | _ => throw .unexpectedToken

def plainItems (names : Names) (tokens : List Token) : Nat → Except Fault (Parsed (List Node))
  | 0 => throw .unexpectedToken
  | budget + 1 =>
      match tokens with
      | .entry :: rest => do
          let ⟨item, names, rest⟩ ←
            match rest with
            | .entry :: _ | .key :: _ | .value :: _ | .blockEnd :: _ => pure ⟨empty, names, rest⟩
            | _ => node .block names rest budget
          let ⟨items, names, rest⟩ ← plainItems names rest budget
          return ⟨item :: items, names, rest⟩
      | rest => return ⟨[], names, rest⟩

/-- The part of an entry behind its mark, in a block mapping. -/
def blockPart (names : Names) (tokens : List Token) : Nat → Except Fault (Parsed Node)
  | 0 => throw .unexpectedToken
  | budget + 1 =>
      match tokens with
      | .key :: _ | .value :: _ | .blockEnd :: _ => return ⟨empty, names, tokens⟩
      | _ => node .blockValue names tokens budget

def blockEntries (names : Names) (tokens : List Token) :
    Nat → Except Fault (Parsed (List (Node × Node)))
  | 0 => throw .unexpectedToken
  | budget + 1 =>
      match tokens with
      | .blockEnd :: rest => return ⟨[], names, rest⟩
      | .key :: rest => do
          let ⟨key, names, rest⟩ ← blockPart names rest budget
          let ⟨value, names, rest⟩ ←
            match rest with
            | .value :: rest => blockPart names rest budget
            | _ => pure ⟨empty, names, rest⟩
          let ⟨entries, names, rest⟩ ← blockEntries names rest budget
          return ⟨(key, value) :: entries, names, rest⟩
      | _ => throw .unexpectedToken

/-- The part of an entry behind its mark, in a flow collection. -/
def flowPart (names : Names) (tokens : List Token) : Nat → Except Fault (Parsed Node)
  | 0 => throw .unexpectedToken
  | budget + 1 =>
      match tokens with
      | .separator :: _ | .closeList :: _ | .closeMap :: _ | .value :: _ =>
          return ⟨empty, names, tokens⟩
      | _ => node .flow names tokens budget

def flowValue (names : Names) (tokens : List Token) : Nat → Except Fault (Parsed Node)
  | 0 => throw .unexpectedToken
  | budget + 1 =>
      match tokens with
      | .value :: rest => flowPart names rest budget
      | _ => return ⟨empty, names, tokens⟩

/-- The items of a flow list; one with a key is a mapping of its own. -/
def flowItems (names : Names) (first : Bool) (tokens : List Token) :
    Nat → Except Fault (Parsed (List Node))
  | 0 => throw .unexpectedToken
  | budget + 1 => do
      if let .closeList :: rest := tokens then return ⟨[], names, rest⟩
      let tokens ←
        match first, tokens with
        | true, _ => pure tokens
        | false, .separator :: rest => pure rest
        | false, _ => throw .unexpectedToken
      match tokens with
      | .closeList :: rest => return ⟨[], names, rest⟩
      | .key :: rest => do
          let ⟨key, names, rest⟩ ← flowPart names rest budget
          let ⟨value, names, rest⟩ ← flowValue names rest budget
          let ⟨items, names, rest⟩ ← flowItems names false rest budget
          return ⟨.map .map [(key, value)] :: items, names, rest⟩
      | _ => do
          let ⟨item, names, rest⟩ ← node .flow names tokens budget
          let ⟨items, names, rest⟩ ← flowItems names false rest budget
          return ⟨item :: items, names, rest⟩

def flowEntries (names : Names) (first : Bool) (tokens : List Token) :
    Nat → Except Fault (Parsed (List (Node × Node)))
  | 0 => throw .unexpectedToken
  | budget + 1 => do
      if let .closeMap :: rest := tokens then return ⟨[], names, rest⟩
      let tokens ←
        match first, tokens with
        | true, _ => pure tokens
        | false, .separator :: rest => pure rest
        | false, _ => throw .unexpectedToken
      match tokens with
      | .closeMap :: rest => return ⟨[], names, rest⟩
      | .key :: rest => do
          let ⟨key, names, rest⟩ ← flowPart names rest budget
          let ⟨value, names, rest⟩ ← flowValue names rest budget
          let ⟨entries, names, rest⟩ ← flowEntries names false rest budget
          return ⟨(key, value) :: entries, names, rest⟩
      | _ => do
          let ⟨key, names, rest⟩ ← node .flow names tokens budget
          let ⟨entries, names, rest⟩ ← flowEntries names false rest budget
          return ⟨(key, empty) :: entries, names, rest⟩

end

/-! ## Documents -/

def usualHandles : List (String × String) := [("!", "!"), ("!!", Tag.coreHandle)]

def handlesOf (seenVersion : Bool) (handles : List (String × String)) :
    List Token → Except Fault (List (String × String) × List Token)
  | .directive directive :: rest =>
      match directive with
      | .version major _ =>
          if seenVersion ∨ major ≠ 1 then throw .badDirective else handlesOf true handles rest
      | .tagHandle handle start =>
          if (handles.lookup handle).isSome then throw .badDirective
          else handlesOf seenVersion ((handle, start) :: handles) rest
      | .unknown _ => handlesOf seenVersion handles rest
  | rest => return (handles ++ usualHandles, rest)

/-- Whether the content of a document is left out. -/
def isLeftOut : List Token → Bool
  | [] => true
  | .directive _ :: _ | .documentStart :: _ | .documentEnd :: _ => true
  | _ => false

def document? (tokens : List Token) : Except Fault (Option Node) := do
  let budget := 4 * tokens.length + 4
  let only (node : Node) (rest : List Token) : Except Fault (Option Node) :=
    if (rest.dropWhile (· = .documentEnd)).isEmpty then return some node
    else throw .severalDocuments
  match tokens with
  | [] => return none
  | .directive _ :: _ | .documentStart :: _ => do
      let (handles, rest) ← handlesOf false [] tokens
      match rest with
      | .documentStart :: rest =>
          if isLeftOut rest then only empty rest
          else do
            let ⟨node, _, rest⟩ ← node .block ⟨handles, []⟩ rest budget
            only node rest
      | _ => throw .unexpectedToken
  | _ => do
      let ⟨node, _, rest⟩ ← node .block ⟨usualHandles, []⟩ tokens budget
      only node rest

end Node

end FlatExports.Yaml
