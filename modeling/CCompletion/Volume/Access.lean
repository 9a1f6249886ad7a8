import CCompletion.Text.Bytes
import CCompletion.Volume.Node

/-!
Access to a volume by path. Links are followed wherever they stand on the way, up to a number of them;
a volume may refuse single calls at single paths.
-/

namespace CCompletion

inductive AccessError where
  | missing
  | notADirectory
  | isADirectory
  | tooManyLinks
  | refused
deriving DecidableEq, Repr

/-- The short name of the error. -/
def AccessError.code : AccessError → Text
  | .missing => "ENOENT"
  | .notADirectory => "ENOTDIR"
  | .isADirectory => "EISDIR"
  | .tooManyLinks => "ELOOP"
  | .refused => "EIO"

def AccessError.description : AccessError → Text
  | .missing => "no such file or directory"
  | .notADirectory => "not a directory"
  | .isADirectory => "illegal operation on a directory"
  | .tooManyLinks => "too many symbolic links encountered"
  | .refused => "i/o error"

/-- Can the error only arise once the file has been opened? -/
def AccessError.isLate (e : AccessError) : Bool := e = .isADirectory || e = .refused

/-- Why the file at `path` was not read. A file that could be opened is not named again. -/
def AccessError.message (path : Text) (e : AccessError) : Text :=
  e.code ++ Text.ofString ": " ++ e.description ++
    if e.isLate then Text.ofString ", read" else Text.ofString ", open '" ++ path ++ "'"

inductive AccessCall where
  | resolve
  | list
  | inspect
  | read
deriving DecidableEq, Repr

structure Fault where
  call : AccessCall
  route : Route
deriving DecidableEq

structure Volume where
  top : Node := .directory []
  faults : List Fault := []

/-- What is known of an entry without reading it. -/
inductive EntryInfo where
  | directory
  | file (size : Nat)
deriving DecidableEq, Repr

namespace Volume

/-- Where a path leads: a route without links, and the node there. -/
abbrev Place := Route × Node

/-- Goes down from the directory at `here` by names, `jump` going on from where a link leads. An empty name
and a dot stay, two dots go up. -/
def descend (top : Node) (jump : Route → List Text → Except AccessError Place) :
    Route → List Text → Except AccessError Place
  | here, [] =>
    match top.at? here with
    | some node => .ok (here, node)
    | none => .error .missing
  | here, name :: rest =>
    match top.at? here with
    | some (.directory entries) =>
      if name = [] ∨ name = "." then descend top jump here rest
      else if name = ".." then descend top jump here.dropLast rest
      else
        match (Node.directory entries).child? name with
        | none => .error .missing
        | some (.link target) =>
          jump (if Path.isAbsolute target then [] else here) (target.splitOn (unit '/') ++ rest)
        | some _ => descend top jump (here ++ [name]) rest
    | _ => .error .notADirectory

/-- Goes down by names and follows at most `links` links. -/
def follow (top : Node) : Nat → Route → List Text → Except AccessError Place
  | 0 => descend top fun _ _ => .error .tooManyLinks
  | links + 1 => descend top (follow top links)

/-- The number of links that one path may lead through. -/
def linkLimit : Nat := 40

def locate (v : Volume) (names : List Text) : Except AccessError Place := follow v.top linkLimit [] names

/-- Refuses a call that is to fail. -/
def permit (v : Volume) (call : AccessCall) (names : List Text) : Except AccessError Unit :=
  if (⟨call, names⟩ : Fault) ∈ v.faults then .error .refused else .ok ()

/-- The route without links to where names lead. -/
def realRoute (v : Volume) (names : List Text) : Except AccessError Route := do
  v.permit .resolve names
  return (← v.locate names).1

/-- The names in a directory. -/
def list (v : Volume) (names : List Text) : Except AccessError (List Text) := do
  v.permit .list names
  match (← v.locate names).2 with
  | .directory entries => return entries.map (·.1)
  | _ => .error .notADirectory

def inspect (v : Volume) (names : List Text) : Except AccessError EntryInfo := do
  v.permit .inspect names
  match (← v.locate names).2 with
  | .file bytes => return .file bytes.length
  | .link _ => .error .missing
  | .directory _ => return .directory

def read (v : Volume) (names : List Text) : Except AccessError Text := do
  v.permit .read names
  match (← v.locate names).2 with
  | .file bytes => return Text.ofBytes bytes
  | .link _ => .error .missing
  | .directory _ => .error .isADirectory

/-- The content of a file, or nothing when there is no such file. -/
def readIfPresent (v : Volume) (names : List Text) : Except AccessError (Option Text) :=
  match v.read names with
  | .ok content => .ok (some content)
  | .error .missing => .ok none
  | .error e => .error e

/-- The names that a path gives, a relative path being taken from `current`. An empty path gives none. -/
def names (current : Route) (p : Text) : Except AccessError (List Text) :=
  if p = [] then .error .missing
  else .ok ((if Path.isAbsolute p then [] else current) ++ p.splitOn (unit '/'))

/-- Puts a node where names lead, in the place of what a link there points at. Missing directories are
made. -/
def put (v : Volume) (names : Route) (node : Node) : Volume :=
  let target :=
    match v.locate names with
    | .ok (real, _) => real
    | .error _ =>
      match v.locate names.dropLast with
      | .ok (real, _) => real ++ names.getLast?.toList
      | .error _ => names
  { v with top := Node.put node target v.top }

def remove (v : Volume) (route : Route) : Volume := { v with top := v.top.remove route }

end Volume
end CCompletion
