import CCompletion.Ignore.Rule
import CCompletion.Volume.Access

/-!
The ignore files of a tree. Those nearer to the root come first, so that the others can refine their
rules; a rule of a file below the root is made to speak of paths from the root.
-/

namespace CCompletion.Ignore

def fileName : Text := ".gitignore"

/-- A line of the ignore file in `directory`, as a line of one at the root. -/
def scopedLine (directory : Route) (line : Text) : Text :=
  let trimmed := line.trim
  if trimmed = [] ∨ trimmed.head? = some (unit '#') then line
  else
    let negated := trimmed.head? = some (unit '!')
    let pattern := if negated then trimmed.drop 1 else trimmed
    let relative := if pattern.head? = some slash then pattern.drop 1 else pattern
    let whole := Path.join directory.text relative
    if negated then unit '!' :: whole else whole

/-- The lines of an ignore file's content, as lines of one at the root. -/
def fileLines (directory : Route) (content : Text) : List Text :=
  let lines := content.linesWithReturns
  if directory = [] then lines else lines.map (scopedLine directory)

/-- Do the names stand one after the other in the route? -/
def standsIn (names : List Text) : Route → Bool
  | [] => names.isEmpty
  | name :: rest => names.isPrefixOf (name :: rest) || standsIn names rest

/-- Does a directory lie in an excluded one? An excluded name that is a path excludes wherever that path
stands. -/
def liesInExcluded (excluded : List Text) (directory : Route) : Bool :=
  excluded.any fun name => standsIn (Path.names name) directory

mutual

/-- The directories below `here` that hold an ignore file. Links are not followed, and directories whose
name begins with a point are not entered. -/
def directoriesWithFile (here : Route) : Node → List Route
  | .directory entries => directoriesWithFileIn here entries
  | _ => []

def directoriesWithFileIn (here : Route) : List (Text × Node) → List Route
  | [] => []
  | (name, node) :: rest =>
    (if name = fileName then [here] else []) ++
      (if name.head? = some (unit '.') then [] else directoriesWithFile (here ++ [name]) node) ++
      directoriesWithFileIn here rest

end

def filePath (directory : Route) : Route := directory ++ [fileName]

/-- The directories below `root` whose ignore files count, in the order in which they are read. -/
def fileDirectories (v : Volume) (excluded : List Text) (root : Route) : List Route :=
  match v.locate root with
  | .ok (_, node) =>
    ((directoriesWithFile [] node).filter fun d => !liesInExcluded excluded d).mergeSort fun a b =>
      (filePath a).text.length ≤ (filePath b).text.length
  | .error _ => []

/-- Rules, and whether all that was to be read could be. -/
structure Loaded where
  rules : List Rule := []
  isWhole : Bool := true

/-- Adds the rules of lines, up to the first invalid one. -/
def Loaded.addLines (l : Loaded) : List Text → Loaded
  | [] => l
  | line :: rest =>
    match Rule.ofLine? line with
    | none => { l with isWhole := false }
    | some rule? => { l with rules := l.rules ++ rule?.toList }.addLines rest

/-- Adds the rules of the ignore files in some directories, up to the first that cannot be read. -/
def Loaded.addFiles (v : Volume) (root : Route) (l : Loaded) : List Route → Loaded
  | [] => l
  | d :: rest =>
    match v.read (root ++ filePath d) with
    | .error _ => { l with isWhole := false }
    | .ok content =>
      let l' := l.addLines (fileLines d content)
      if l'.isWhole then addFiles v root l' rest else l'

/-- The rules of all ignore files below `root`. -/
def load (v : Volume) (excluded : List Text) (root : Route) : Loaded :=
  Loaded.addFiles v root {} (fileDirectories v excluded root)

end CCompletion.Ignore
