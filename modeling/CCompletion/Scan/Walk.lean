import CCompletion.Ignore.Files
import CCompletion.Scan.Options
import CCompletion.Warning

/-!
The walk through a project tree that finds its source files. Linked directories are entered like others,
but no real directory is entered twice; an entry that cannot be looked at is passed over with a warning.
-/

namespace CCompletion.Scan

/-- What a walk has done so far. -/
structure Walk where
  /-- The source files found, as routes from the root of the walk. -/
  found : List Route := []
  /-- The real directories that have been entered. -/
  entered : List Route := []
  warnings : List Warning := []
  /-- The route that the ignore rules could not be asked about, once there is one. -/
  unaskable : Option Route := none

/-- What a walk goes by. -/
structure Plan where
  volume : Volume
  root : Route
  options : ScanOptions
  /-- The rules of the ignore files, where these are followed. -/
  rules : Option (List Ignore.Rule) := none

namespace Plan

/-- The path of an entry of the walk. -/
def path (p : Plan) (route : Route) : Text := Route.absolute (p.root ++ route)

def isFull (p : Plan) (w : Walk) : Bool :=
  match p.options.maxFiles with
  | some n => n ≤ w.found.length
  | none => false

/-- Is there nothing more to do? -/
def isOver (p : Plan) (w : Walk) : Bool := w.unaskable.isSome || p.isFull w

def isSource (p : Plan) (name : Text) : Bool := p.options.extensions.contains (Path.extension name)

def isTooLarge (p : Plan) (size : Nat) : Option Nat :=
  p.options.maxKilobytes.filter fun k => k * 1024 < size

end Plan

namespace Walk

def warn (w : Walk) (warning : Warning) : Walk := { w with warnings := w.warnings ++ [warning] }

/-- Takes in a file that is known to be there. -/
def addFile (p : Plan) (route : Route) (name : Text) (size : Nat) (w : Walk) : Walk :=
  if !p.isSource name then w
  else
    match p.isTooLarge size with
    | some k => w.warn (.fileTooLarge (p.path route) k)
    | none => { w with found := w.found ++ [route] }

/-- Takes in the entry `name` of a directory, `enter` being the walk through a directory. -/
def addEntry (p : Plan) (enter : Route → Walk → Walk) (directory : Route) (w : Walk) (name : Text) : Walk :=
  let route := directory ++ [name]
  if p.isOver w then w
  else if p.rules.isSome && Ignore.isUnaskable route then { w with unaskable := some route }
  else if p.rules.any (Ignore.ignores · route) then w
  else
    match p.volume.inspect (p.root ++ route) with
    | .error _ => w.warn (.entryUnknown (p.path route))
    | .ok .directory => if p.options.excluded.contains name then w else enter route w
    | .ok (.file size) => w.addFile p route name size

/-- Goes through the directory at a route below the root, no more than so many directories deep. -/
def through (p : Plan) : Nat → Route → Walk → Walk
  | 0, _, w => w
  | depth + 1, directory, w =>
    match p.volume.realRoute (p.root ++ directory) with
    | .error _ => w.warn (.directoryUnresolved (p.path directory))
    | .ok real =>
      if real ∈ w.entered then w
      else
        let w' := { w with entered := real :: w.entered }
        match p.volume.list (p.root ++ directory) with
        | .error _ => w'.warn (.directoryUnread (p.path directory))
        | .ok names => (Text.sorted names).foldl (addEntry p (through p depth) directory) w'

end Walk

/-- The source files below a root, with the warnings on the way. A route that the ignore rules cannot be
asked about makes the whole scan fail. -/
structure Outcome where
  files : Except Route (List Route)
  warnings : List Warning

/-- The plan of a walk; where ignore files are followed, their rules are read first. -/
def plan (v : Volume) (options : ScanOptions) (root : Route) : Plan × List Warning :=
  if options.followsIgnoreFiles then
    let loaded := Ignore.load v options.excluded root
    (⟨v, root, options, some loaded.rules⟩, if loaded.isWhole then [] else [.ignoreRulesUnread])
  else (⟨v, root, options, none⟩, [])

/-- As deep as a walk can go: every directory on the way is another real one. -/
def depthLimit (v : Volume) : Nat := v.top.directoryCount + 1

def sourceFiles (v : Volume) (options : ScanOptions) (root : Route) : Outcome :=
  let (p, warnings) := plan v options root
  let w := Walk.through p (depthLimit v) [] {}
  let files : Except Route (List Route) :=
    match w.unaskable with
    | some route => .error route
    | none => .ok w.found
  ⟨files, warnings ++ w.warnings⟩

/-- Why a scan failed. -/
def unaskableMessage (route : Route) : Text :=
  Text.ofString "path should be a `path.relative()`d string, but got \"" ++ route.text ++ "\""

end CCompletion.Scan
