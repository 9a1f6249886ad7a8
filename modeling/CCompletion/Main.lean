import CCompletion.CommandLine.Run
import CCompletion.Json.Reader

/-!
The program. Its files are those that one line on standard input lists, as an object of paths and contents;
what a command changes lasts as long as the program.
-/

namespace CCompletion.CommandLine

/-- The world with the files of a listing in its current directory. -/
def World.ofListing (listing : Text) : World :=
  let current : Route := ["project"]
  let empty : World := { volume := { top := Node.put (.directory []) current (.directory []) }, current := current }
  match Json.ofText? listing with
  | some (.object entries) =>
    entries.foldl (fun w e =>
      match e.2 with
      | .string content => w.writeFile e.1 content
      | _ => w) empty
  | _ => empty

def printAll (out : IO.FS.Stream) (texts : List Text) : IO Unit :=
  texts.forM fun t => out.putStrLn t.toString

/-- Runs one command line; help needs no files. -/
def runProgram (words : List Text) (listing : IO Text) : IO UInt32 := do
  let out ← IO.getStdout
  let complaints ← IO.getStderr
  match Invocation.ofWords words with
  | .error e =>
    printAll complaints [e.message]
    return 1
  | .ok (.print texts) =>
    printAll out texts
    return 0
  | .ok invocation =>
    let (_, o) := (World.ofListing (← listing)).follow invocation
    printAll complaints (o.warnings.map (·.message) ++ o.complaints)
    printAll out o.output
    return o.exit.toUInt32

end CCompletion.CommandLine

def main (args : List String) : IO UInt32 :=
  CCompletion.CommandLine.runProgram (args.map CCompletion.Text.ofString) do
    return CCompletion.Text.ofString (← (← IO.getStdin).getLine)
