import CCompletion.Index.Draft

/-!
Scans that are requested while others are running. They run one after the other, in the order in which
they were requested, and each replaces the visible table only once it has read its last file. What a
scan asks of the file system is answered by events, one at a time.
-/

namespace CCompletion

/-- How far the running scan has come. -/
inductive ScanStage where
  /-- It waits for the paths below its root. -/
  | listing (root : Text)
  /-- It waits for the content of the file at `next`, with `rest` still to come. -/
  | reading (draft : Draft) (next : Text) (rest : List Text)

inductive ScanEvent where
  | requested (root : Text)
  /-- The paths below the root of the running scan arrive, or listing them has failed. -/
  | listed (paths? : Option (List Text))
  /-- The content of the file being read arrives, or reading it has failed. -/
  | read (content? : Option Text)

structure ScanQueue where
  visible : SymbolTable := {}
  running : Option ScanStage := none
  /-- The roots of the scans that have not begun. -/
  waiting : List Text := []
  /-- The answers given so far, the first one first. -/
  answers : List ScanSummary := []
  warnings : List Warning := []

namespace ScanQueue

/-- Begins the next scan, if one is waiting. -/
def beginNext (q : ScanQueue) : ScanQueue :=
  match q.waiting with
  | [] => { q with running := none }
  | root :: rest => { q with running := some (.listing root), waiting := rest }

/-- Ends the running scan with its draft: the draft's table becomes the visible one. -/
def finish (q : ScanQueue) (d : Draft) : ScanQueue :=
  { q with visible := d.table, answers := q.answers ++ [d.summary] }.beginNext

/-- Goes on with the files that are still to be read. -/
def continueWith (q : ScanQueue) (d : Draft) : List Text → ScanQueue
  | [] => q.finish d
  | path :: rest => { q with running := some (.reading d path rest) }

def warn (q : ScanQueue) (warnings : List Warning) : ScanQueue := { q with warnings := q.warnings ++ warnings }

/-- What happens to the queue when something arrives; what no scan waits for changes nothing. -/
def step (q : ScanQueue) (event : ScanEvent) : ScanQueue :=
  match event, q.running with
  | .requested root, none => { q with waiting := q.waiting ++ [root] }.beginNext
  | .requested root, some _ => { q with waiting := q.waiting ++ [root] }
  | .listed paths?, some (.listing root) =>
    let q' := q.warn (if paths?.isNone then [.filesUnlisted root] else [])
    q'.continueWith (.start root (paths?.getD [])) (Text.sorted (paths?.getD []))
  | .read content?, some (.reading d path rest) =>
    (q.warn (Draft.fileWarnings path content?)).continueWith (d.addFile path content?) rest
  | _, _ => q

def run (q : ScanQueue) (events : List ScanEvent) : ScanQueue := events.foldl step q

/-- The event that answers the running scan from a source, if a scan is running. -/
def nextEvent? (q : ScanQueue) (source : ProjectSource) : Option ScanEvent :=
  q.running.map fun stage =>
    match stage with
    | .listing root => .listed (source.list root).1
    | .reading _ path _ => .read (source.read path)

/-- Answers the running scans from a source, at most so many times. -/
def serve (source : ProjectSource) : Nat → ScanQueue → ScanQueue
  | 0, q => q
  | n + 1, q =>
    match q.nextEvent? source with
    | some event => serve source n (q.step event)
    | none => q

end ScanQueue
end CCompletion
