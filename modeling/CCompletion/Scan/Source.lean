import CCompletion.Index.Draft
import CCompletion.Scan.Walk

/-!
A volume as the source of a project's files.
-/

namespace CCompletion.Scan

def Outcome.paths? (o : Outcome) (root : Route) : Option (List Text) :=
  match o.files with
  | .ok routes => some (routes.map fun r => Route.absolute (root ++ r))
  | .error _ => none

def source (v : Volume) (options : ScanOptions) : ProjectSource where
  list root :=
    let route := Path.resolve [] root
    let outcome := sourceFiles v options route
    (outcome.paths? route, outcome.warnings)
  read path := (v.read (Path.resolve [] path)).toOption

end CCompletion.Scan
