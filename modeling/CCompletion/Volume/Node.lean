import CCompletion.Path

/-!
Trees of files, links and directories.
-/

namespace CCompletion

inductive Node where
  | file (bytes : List UInt8)
  | link (target : Text)
  | directory (entries : List (Text × Node))

namespace Node

/-- The entries of a directory; no other node has any. -/
def entries : Node → List (Text × Node)
  | directory es => es
  | _ => []

def child? (node : Node) (name : Text) : Option Node :=
  (node.entries.find? fun e => e.1 = name).map (·.2)

/-- The node at a route; links on the way are not followed. -/
def at? (node : Node) : Route → Option Node
  | [] => some node
  | name :: rest => (node.child? name).bind fun c => c.at? rest

/-- Gives `name` the node `new`: in its old place if there is one, else at the end. -/
def setEntry (name : Text) (new : Node) : List (Text × Node) → List (Text × Node)
  | [] => [(name, new)]
  | (n, node) :: rest => if n = name then (n, new) :: rest else (n, node) :: setEntry name new rest

/-- The tree with `new` at a route. Directories that are missing on the way are made. -/
def put (new : Node) : Route → Node → Node
  | [], _ => new
  | name :: rest, node =>
    directory (setEntry name (put new rest ((node.child? name).getD (directory []))) node.entries)

/-- The tree without what stands at a route. -/
def remove : Route → Node → Node
  | [], node => node
  | [name], node => directory (node.entries.filter fun e => e.1 ≠ name)
  | name :: rest, node =>
    match node.child? name with
    | some c => directory (setEntry name (remove rest c) node.entries)
    | none => node

mutual

/-- The number of directories in a tree. -/
def directoryCount : Node → Nat
  | directory es => 1 + directoryCountIn es
  | _ => 0

def directoryCountIn : List (Text × Node) → Nat
  | [] => 0
  | (_, node) :: rest => directoryCount node + directoryCountIn rest

end

end Node
end CCompletion
