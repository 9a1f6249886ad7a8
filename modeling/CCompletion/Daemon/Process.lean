import CCompletion.Daemon.Record
import CCompletion.Scan.Source
import CCompletion.Service.Basic
import CCompletion.Settings

/-!
The daemon: a service that goes on running between commands. It reads its settings when it starts, and the
project whenever it scans.
-/

namespace CCompletion

/-- The settings of the project at `root`. -/
def Settings.ofProject (v : Volume) (root : Route) : Settings × List Warning :=
  load (filePath root.absolute) (v.readIfPresent (root ++ [fileName]))

/-- A note as a line of a log. -/
def Service.Note.text : Note → Text
  | .warning w => Text.ofString "warn: " ++ w.message
  | .refusal r => Text.ofString "error: " ++ r.name ++ Text.ofString ": " ++ r.message
  | .failure name message => Text.ofString "error: " ++ name ++ Text.ofString ": " ++ message

namespace Daemon

/-- The port on which the daemon listens. -/
def port : Number := .ofNat 31000

structure Process where
  root : Route
  settings : Settings
  table : SymbolTable

namespace Process

def service (p : Process) (v : Volume) : Service where
  root := p.root
  source := Scan.source v p.settings.toScanOptions
  options := p.settings.toOfferOptions
  table := p.table

/-- Answers a request, with the lines that it logs. -/
def answer (p : Process) (v : Volume) (r : Service.Request) : Process × Service.Reply × List Text :=
  let (s, a) := (p.service v).answer r
  ({ p with table := s.table }, a.reply, a.notes.map Service.Note.text)

def openingLines (root : Text) (summary : ScanSummary) : List Text :=
  [Text.ofString "Indexing " ++ root ++ "...",
    Text.ofString "Indexed " ++ (Number.ofNat summary.filesVisited).toText ++ Text.ofString " files (" ++
      (Number.ofNat summary.functions).toText ++ Text.ofString " functions) in 0ms.",
    Text.ofString "Server listening on http://localhost:" ++ port.toText]

/-- Starts the daemon of the project at `root`: it scans the project and then listens. Warnings are logged
after what it says about itself. -/
def start (v : Volume) (root : Route) : Process × List Text :=
  let (settings, unread) := Settings.ofProject v root
  let (s, summary, warnings) := (service ⟨root, settings, {}⟩ v).scan root.absolute
  (⟨root, settings, s.table⟩,
    openingLines root.absolute summary ++
      (unread ++ warnings).map fun w => Service.Note.text (.warning w))

end Process
end Daemon
end CCompletion
