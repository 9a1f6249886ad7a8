import CCompletion.Daemon.Process

/-!
The world in which commands run: the files, the daemon's record and the daemon itself. The record may
outlive the daemon, and the daemon its record.
-/

namespace CCompletion.CommandLine

structure World where
  volume : Volume
  /-- The directory in which commands are given. -/
  current : Route
  /-- The content of the record's file. -/
  record? : Option Text := none
  daemon? : Option Daemon.Process := none

/-- What a command does besides changing the world. -/
structure Outcome where
  exit : Nat := 0
  /-- What it prints, text by text. -/
  output : List Text := []
  /-- What it prints about its own progress and failure. -/
  complaints : List Text := []
  /-- What the daemon logs meanwhile. -/
  log : List Text := []
  warnings : List Warning := []

namespace World

/-- The record, if its file holds one. -/
def record (w : World) : Option Daemon.Record := w.record?.bind Daemon.Record.ofText?

/-- The daemon that listens where the record says. -/
def reachable (w : World) : Option Daemon.Process :=
  match w.record with
  | some r => if r.port = Daemon.port then w.daemon? else none
  | none => none

/-- The record of a daemon that has just started. -/
def freshRecord : Text := (Daemon.Record.mk Daemon.port (.ofNat 1)).toText

/-- The daemon of the current directory, which is started where none can be reached. -/
def withDaemon (w : World) : Daemon.Process × World × Outcome :=
  match w.reachable with
  | some daemon => (daemon, w, {})
  | none =>
    let (daemon, log) := Daemon.Process.start w.volume w.current
    (daemon, { w with record? := some freshRecord, daemon? := some daemon },
      { complaints := ["Server not running. Starting server...",
          Text.ofString "Server started on port " ++ Daemon.port.toText ++ "."]
        log := log })

/-- The daemon ends without removing its record. -/
def crash (w : World) : World := { w with daemon? := none }

/-- Tells the daemon to end, which removes its record; answers what the daemon logs. -/
def signal (w : World) : World × List Text :=
  match w.daemon? with
  | some _ => ({ w with record? := none, daemon? := none }, ["Shutting down..."])
  | none => (w, [])

def writeFile (w : World) (path content : Text) : World :=
  match Volume.names w.current path with
  | .ok names => { w with volume := w.volume.put names (.file content.toBytes) }
  | .error _ => w

end World
end CCompletion.CommandLine
