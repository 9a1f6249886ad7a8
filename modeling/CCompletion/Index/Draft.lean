import CCompletion.Index.Table
import CCompletion.Warning

/-!
One scan of a project: a table built beside the visible one, file by file, in the order of their paths.
-/

namespace CCompletion

/-- What a scan answers. -/
structure ScanSummary where
  root : Text
  filesVisited : Nat
  filesSkipped : Nat
  functions : Nat
  headers : Nat
  types : Nat
deriving DecidableEq

/-- A table under construction. -/
structure Draft where
  root : Text
  /-- How many paths were listed. -/
  listed : Nat
  skipped : Nat := 0
  table : SymbolTable
deriving DecidableEq

namespace Draft

def start (root : Text) (paths : List Text) : Draft where
  root := root
  listed := paths.length
  table := { root := some root }

/-- Takes in a file, or passes over one that cannot be read. -/
def addFile (d : Draft) (path : Text) : Option Text → Draft
  | some content => { d with table := d.table.harvest path content }
  | none => { d with skipped := d.skipped + 1 }

def summary (d : Draft) : ScanSummary where
  root := d.root
  filesVisited := d.listed
  filesSkipped := d.skipped
  functions := d.table.functions.length
  headers := d.table.headers.length
  types := d.table.types.length

/-- The warning that reading a file gives rise to. -/
def fileWarnings (path : Text) : Option Text → List Warning
  | some _ => []
  | none => [.fileUnread path]

end Draft

/-- How a project's files are found and read. -/
structure ProjectSource where
  /-- The paths of the source files below a root, or nothing when they cannot be listed, with the warnings on
  the way. -/
  list : Text → Option (List Text) × List Warning
  read : Text → Option Text

/-- A whole scan of the project below `root`. -/
def Draft.ofSource (source : ProjectSource) (root : Text) : Draft × List Warning :=
  let (paths?, listWarnings) := source.list root
  let paths := Text.sorted (paths?.getD [])
  (paths.foldl (fun d path => d.addFile path (source.read path)) (.start root (paths?.getD [])),
    listWarnings ++ (if paths?.isNone then [.filesUnlisted root] else []) ++
      paths.flatMap fun path => Draft.fileWarnings path (source.read path))

end CCompletion
