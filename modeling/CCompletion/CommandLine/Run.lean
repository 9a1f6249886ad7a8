import CCompletion.CommandLine.Failure
import CCompletion.CommandLine.Invocation
import CCompletion.CommandLine.World
import CCompletion.Report.Basic

/-!
Running a command line in a world. Work for the service first sees to it that the daemon runs; then the
settings and the theme are looked up, the file is read, the service is asked and its answer is shown. The
first failure ends the command.
-/

namespace CCompletion.CommandLine

/-- A document with its cursor, which may stand outside. -/
structure Document where
  text : Text
  cursor : Int

/-- A request to the service, with the document that it is about. -/
structure Errand where
  request : Service.Request
  before : Text := []

def Outcome.failed (o : Outcome) (f : Failure) : Outcome :=
  { o with exit := 1, complaints := o.complaints ++ [Text.ofString "Error: " ++ f.message] }

namespace World

def document (w : World) (spot : Spot) : Except Failure Document :=
  match spot.file with
  | .text path => do
    let content ← ((Volume.names w.current path).bind w.volume.read).mapError (.unread path)
    let cursor ← (spot.cursor.resolve content).mapError .refused
    return ⟨content, cursor⟩
  | value => .error (.fileNotText value)

def post (target : Text) (entries : List (Text × Json)) : Service.Request :=
  ⟨"POST", target, some (Json.object entries).compact⟩

def Document.entries (d : Document) : List (Text × Json) :=
  [("text", .string d.text), ("offset", .number (.ofInt d.cursor))]

def candidateJson (kind text : Scalar) : Json :=
  .object [("kind", .string kind.toText), ("text", .string text.toText)]

/-- What the service is to be asked for a piece of work. -/
def errand (w : World) : Work → Except Failure Errand
  | .complete spot => (w.document spot).map fun d => ⟨post "/complete" (Document.entries d), d.text⟩
  | .classify spot => (w.document spot).map fun d => ⟨post "/classify" (Document.entries d), d.text⟩
  | .apply spot kind text _ =>
    (w.document spot).map fun d =>
      ⟨post "/apply" (Document.entries d ++ [(Text.ofString "candidate", candidateJson kind text)]), d.text⟩
  | .scan none => .ok ⟨post "/scan" [], []⟩
  | .scan (some (.text root)) =>
    .ok ⟨post "/scan" [("root", .string (Path.resolve w.current root).absolute)], []⟩
  | .scan (some value) => .error (.rootNotText value)
  | .locate name =>
    .ok ⟨⟨"GET", Text.ofString "/symbols?name=" ++ Url.encodeValue name.toText, none⟩, []⟩
  | .index => .ok ⟨⟨"GET", "/index", none⟩, []⟩

/-- What is refused before anything is looked up. -/
def precheck : Work → Except Failure Unit
  | .apply _ kind _ _ =>
    if (Kind.ofName? kind.toText).isSome then .ok () else .error (.unknownKind kind.toText)
  | _ => .ok ()

def look (w : World) (settings : Settings) (display : Display) : Except Failure Look := do
  let theme ← (Theme.named (display.theme?.getD settings.theme)).mapError .refused
  return { theme := theme, asTable := display.asTable, current := w.current }

/-- Writes the text after an insertion to its file. -/
def saveInserted (w : World) (file : Scalar) (inserted : Json) : World × List Text :=
  (w.writeFile file.toText (Report.cell (Report.field "newText" inserted)),
    [Text.ofString "Updated " ++ file.toText ++ Text.ofString "; cursor at " ++ Report.cursorText inserted])

/-- Shows the answer of the service. -/
def conclude (w : World) (look : Look) (before : Text) (body : Json) : Work → World × List Text
  | .complete _ => (w, Report.completions look body)
  | .classify _ => (w, Report.context look (Report.field "context" body))
  | .apply spot _ _ write =>
    if write then w.saveInserted spot.file body else (w, Report.applied look before body)
  | .scan _ => (w, Report.scan look body)
  | .locate _ => (w, Report.files look (Report.field "name" body) (Report.field "files" body))
  | .index => (w, Report.index look body)

/-- Asks the daemon and shows its answer. -/
def consult (w : World) (daemon : Daemon.Process) (o : Outcome) (work : Work) (look : Look)
    (errand : Errand) : World × Outcome :=
  let (daemon', reply, log) := daemon.answer w.volume errand.request
  let w' := { w with daemon? := some daemon' }
  let o' := { o with log := o.log ++ log }
  if reply.status ≠ 200 then (w', o'.failed (.declined reply))
  else
    let (w'', output) := w'.conclude look errand.before reply.body work
    (w'', { o' with output := output })

def serve (w : World) (work : Work) (display : Display) : World × Outcome :=
  let (daemon, w', o) := w.withDaemon
  match precheck work with
  | .error f => (w', o.failed f)
  | .ok () =>
    let (settings, warnings) := Settings.ofProject w'.volume w'.current
    let o' := { o with warnings := warnings }
    match w'.look settings display with
    | .error f => (w', o'.failed f)
    | .ok look =>
      match w'.errand work with
      | .error f => (w', o'.failed f)
      | .ok errand => w'.consult daemon o' work look errand

/-- Asks the daemon to stop. Whether and when it does is its own affair. -/
def stop (w : World) : Outcome :=
  if w.record.isNone then { output := ["Server is not running (no daemon file)."] }
  else if w.reachable.isSome then { output := ["Server stopping..."] }
  else { output := ["Server is not running or failed to stop."] }

def follow (w : World) : Invocation → World × Outcome
  | .print texts => (w, { output := texts })
  | .serve work display => w.serve work display
  | .stop => (w, w.stop)

/-- Runs a command line. -/
def run (w : World) (words : List Text) : Except UsageError (World × Outcome) :=
  (Invocation.ofWords words).map w.follow

end World
end CCompletion.CommandLine
