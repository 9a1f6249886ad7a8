import CCompletion.Text.Basic

/-!
Paths. A path text is read as names between slashes; a route is the list of names that lead from some
directory to an entry, and holds neither empty names nor dots.
-/

namespace CCompletion

abbrev Route := List Text

namespace Route

def text (r : Route) : Text := Text.joinWith "/" r

/-- The route as a path from the top of the volume. -/
def absolute (r : Route) : Text := unit '/' :: r.text

/-- The way from the directory at one route to the entry at another: up to the last common directory, then
down. -/
def between : Route → Route → Route
  | a :: start, b :: goal =>
    if a = b then between start goal
    else List.replicate (start.length + 1) (Text.ofString "..") ++ (b :: goal)
  | start, goal => List.replicate start.length (Text.ofString "..") ++ goal

end Route

namespace Path

def isAbsolute (p : Text) : Bool := p.head? == some (unit '/')

/-- The names of a path, without empty ones and dots. -/
def names (p : Text) : List Text := (p.splitOn (unit '/')).filter fun n => n != [] && n != "."

/-- Takes a name into the route gathered so far, whose last name stands first: `..` takes the last name
back, and is kept where there is none and the path may climb. -/
def push (mayClimb : Bool) (gathered : Route) (n : Text) : Route :=
  if n ≠ ".." then n :: gathered
  else
    match gathered with
    | [] => if mayClimb then [n] else []
    | last :: rest => if last = ".." then n :: gathered else rest

def route (mayClimb : Bool) (p : Text) : Route := ((names p).foldl (push mayClimb) []).reverse

/-- The path without needless names; a slash at its end stays. -/
def normalize (p : Text) : Text :=
  let body := (route (!isAbsolute p) p).text
  let closing : Text := if p.getLast? = some (unit '/') then "/" else ""
  if body = [] then (if isAbsolute p then "/" else unit '.' :: closing)
  else if isAbsolute p then unit '/' :: body ++ closing
  else body ++ closing

/-- Two paths one below the other; an empty one adds nothing. -/
def join (a b : Text) : Text :=
  if a = [] then normalize b
  else if b = [] then normalize a
  else normalize (a ++ unit '/' :: b)

/-- The route from the top of the volume to where a path leads, a relative path being taken from
`current`. -/
def resolve (current : Route) (p : Text) : Route :=
  route false (if isAbsolute p then p else current.absolute ++ unit '/' :: p)

/-- The way from one path to another. -/
def relative (current : Route) (start goal : Text) : Text :=
  (Route.between (resolve current start) (resolve current goal)).text

/-- The part of a name from its last point on; a point that begins the name does not count, nor does the
name `..` have one. -/
def extension (name : Text) : Text :=
  match Text.lastIndexOf? "." name with
  | some (i + 1) => if name = ".." then [] else name.drop (i + 1)
  | _ => []

end Path
end CCompletion
