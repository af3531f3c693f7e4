import FlatExports.Failure
import FlatExports.Syntax.Kind
import FlatExports.Text.Slice

/-!
Concrete syntax trees over a byte source.

A node covers a range of bytes.  Words and marks are unnamed nodes; a child may
be held under a field name.  `hasError` tells whether the node or one below it
is a fault, and `firstFault?` follows it to the first fault in reading order.
-/

namespace FlatExports.Syntax

structure NodeInfo where
  kind : Kind
  start : Nat
  stop : Nat
  named : Bool
  missing : Bool
  hasError : Bool
  line : Nat
  column : Nat
  field : Option String
  deriving DecidableEq, Repr, Inhabited

structure Node where
  info : NodeInfo
  children : List Node
  deriving Repr, Inhabited

namespace Node

def made (kind : Kind) (start stop : Nat) (children : List Node) : Node :=
  ⟨⟨kind, start, stop, true, false, false, 0, 0, none⟩, children⟩

def mark (kind : Kind) (start stop : Nat) : Node :=
  ⟨⟨kind, start, stop, false, false, false, 0, 0, none⟩, []⟩

def heldAs (field : String) (node : Node) : Node :=
  { node with info := { node.info with field := some field } }

def kind (node : Node) : Kind := node.info.kind

def start (node : Node) : Nat := node.info.start

def stop (node : Node) : Nat := node.info.stop

def namedChildren (node : Node) : List Node := node.children.filter (·.info.named)

def child? (node : Node) (field : String) : Option Node :=
  node.children.find? (·.info.field = some field)

def namedChild? (node : Node) (kind : Kind) : Option Node :=
  node.namedChildren.find? (·.kind = kind)

def hasWord (node : Node) (kind : Kind) : Bool :=
  node.children.any fun child => !child.info.named && child.kind = kind

def isFault (info : NodeInfo) : Bool := info.kind = .fault || info.missing

mutual

/-- The first fault in reading order, as far as `hasError` leads to it. -/
def firstFault? : Node → Option NodeInfo
  | ⟨info, children⟩ => if isFault info then some info else firstFaultAmong? children

def firstFaultAmong? : List Node → Option NodeInfo
  | [] => none
  | child :: rest =>
      match if child.info.hasError then firstFault? child else none with
      | some info => some info
      | none => firstFaultAmong? rest

end

/-- Why a tree is no module, if it is none. -/
def fault? (root : Node) : Option Unreadable :=
  if root.info.hasError then
    match firstFault? root with
    | some info => some (.syntaxErrorAt (info.line + 1) (info.column + 1))
    | none => some .syntaxError
  else none

end Node

/-- A module that has been read: its label in messages, its bytes and its tree. -/
structure ModuleTree where
  file : String
  source : Text.Bytes
  root : Node

namespace ModuleTree

def ofNode (file : String) (source : Text.Bytes) (root : Node) : Except Failure ModuleTree :=
  match root.fault? with
  | some cause => .error (.unreadable file cause)
  | none => .ok ⟨file, source, root⟩

def text (tree : ModuleTree) (node : Node) : Except Failure String :=
  match Text.text? (Text.slice tree.source node.start node.stop) with
  | some text => .ok text
  | none => .error .brokenText

def withoutEnds (text : String) : String :=
  String.ofList (text.toList.drop 1).dropLast

/--
The name a node spells: an identifier as it stands, a string without its
quotation marks.  Escapes are left as written.
-/
def moduleName (tree : ModuleTree) (node : Node) : Except Failure String := do
  let text ← tree.text node
  return if node.kind = .string then withoutEnds text else text

end ModuleTree

end FlatExports.Syntax
