import FlatExports.Resolved.Basic

/-!
Grouping resolved exports into the statements they will share.

Named exports of one origin share a statement.  Wildcards and namespaces cannot
and are told apart by their published name as well.  Groups stand in the order
of their first export.
-/

namespace FlatExports

structure ExportGroup where
  origin : String
  external : Bool
  kind : ExportKind
  exports : List Resolved
  deriving DecidableEq, Repr

inductive GroupKey where
  | named (origin : String)
  | single (kind : ExportKind) (origin exportedName : String)
  deriving DecidableEq, Repr

def Resolved.groupKey (export_ : Resolved) : GroupKey :=
  if export_.kind = .named then .named export_.origin
  else .single export_.kind export_.origin export_.exportedName

namespace ExportGroup

def start (export_ : Resolved) : ExportGroup :=
  ⟨export_.origin, export_.external, export_.kind, [export_]⟩

abbrev Keyed := GroupKey × ExportGroup

def add (groups : List Keyed) (export_ : Resolved) : List Keyed :=
  match groups with
  | [] => [(export_.groupKey, start export_)]
  | (key, group) :: rest =>
      if key = export_.groupKey then
        (key, { group with exports := group.exports ++ [export_] }) :: rest
      else (key, group) :: add rest export_

def ofExports (exports : List Resolved) : List ExportGroup :=
  (exports.foldl add []).map (·.2)

def countAll : List ExportGroup → Nat
  | [] => 0
  | group :: rest => group.exports.length + countAll rest

end ExportGroup

end FlatExports
