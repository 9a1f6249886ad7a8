import CCompletion.Digest
import CCompletion.Json.Printer
import CCompletion.Json.Reader
import CCompletion.Path
import CCompletion.Text.Bytes

/-!
The record that a running daemon leaves behind: where it listens and which process it is. The record's
file is named after the project's directory.
-/

namespace CCompletion.Daemon

structure Record where
  port : Number
  pid : Number
deriving DecidableEq

def number? : Json → Option Number
  | .number n => some n
  | _ => none

/-- The record that a file's content states; nothing for content of any other shape. -/
def Record.ofText? (content : Text) : Option Record := do
  let value ← Json.ofText? content
  let port ← (value.field? "port").bind number?
  let pid ← (value.field? "pid").bind number?
  return ⟨port, pid⟩

def Record.toText (r : Record) : Text :=
  Json.compact (.object [("port", .number r.port), ("pid", .number r.pid)])

/-- The name of the record's file for the project at `root`. -/
def recordName (root : Route) : Text :=
  Text.ofString "c-complete-daemon-" ++ Digest.hexText (Digest.md5 (Text.toBytes root.absolute)) ++ ".json"

end CCompletion.Daemon
