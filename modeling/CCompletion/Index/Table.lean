import CCompletion.Completion.Offer

/-!
The symbols of a project: which functions its files define or declare, the headers they include and the
types they name. Names keep the order in which they were first found.
-/

namespace CCompletion

/-- A function of the project, and the files that define or declare it. -/
structure IndexedFunction where
  name : Text
  files : List Text
deriving DecidableEq

structure SymbolTable where
  /-- The directory that was scanned, once one was. -/
  root : Option Text := none
  functions : List IndexedFunction := []
  headers : List Text := []
  types : List Text := []
deriving DecidableEq

namespace SymbolTable

/-- The list with `x` in it: at its end, unless it is there already. -/
def insertNew (xs : List Text) (x : Text) : List Text := if x ∈ xs then xs else xs ++ [x]

/-- The functions with `file` among the files of `name`. -/
def insertFunction (file : Text) (functions : List IndexedFunction) (name : Text) : List IndexedFunction :=
  match functions with
  | [] => [⟨name, [file]⟩]
  | f :: rest =>
    if f.name = name then { f with files := insertNew f.files file } :: rest
    else f :: insertFunction file rest name

/-- Takes in all that a file's content names. -/
def harvest (table : SymbolTable) (file content : Text) : SymbolTable where
  root := table.root
  functions := (Harvest.functions content).foldl (insertFunction file) table.functions
  headers := (Harvest.includes content).foldl insertNew table.headers
  types := (Harvest.typeNames content).foldl insertNew table.types

def functionNames (table : SymbolTable) : List Text := table.functions.map (·.name)

/-- The files that define or declare a function, sorted. -/
def filesDefining (table : SymbolTable) (name : Text) : List Text :=
  match table.functions.find? fun f => f.name = name with
  | some f => Text.sorted f.files
  | none => []

/-- What the project adds to an offer. -/
def symbols (table : SymbolTable) : Symbols where
  functions := table.functionNames
  headers := table.headers
  types := table.types

end SymbolTable

/-- A table laid out in order, for others to read. -/
structure Snapshot where
  root : Option Text
  functions : List IndexedFunction
  headers : List Text
  types : List Text
deriving DecidableEq

/-- The one name that a snapshot cannot hold as a key. -/
def Snapshot.unlistable : Text := "__proto__"

def SymbolTable.snapshot (table : SymbolTable) : Snapshot where
  root := table.root
  functions :=
    ((Text.sorted table.functionNames).filter (· ≠ Snapshot.unlistable)).map fun name =>
      ⟨name, table.filesDefining name⟩
  headers := Text.sorted table.headers
  types := Text.sorted table.types

end CCompletion
