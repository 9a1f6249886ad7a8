import CCompletion.Json.Printer
import CCompletion.Path
import CCompletion.Report.Table
import CCompletion.Source.Position

/-!
Reports: replies laid out for people, either as JSON, just as they were received, or as tables and plain
sentences. A report is a list of texts that are printed one after the other.
-/

namespace CCompletion

/-- How a report is to look. -/
structure Look where
  theme : Theme := Theme.darkBlue
  colored : Bool := false
  /-- Whether tables are wanted in the place of JSON. -/
  asTable : Bool := false
  /-- The directory from which paths are shown. -/
  current : Route

namespace Report

def style (look : Look) : TableStyle :=
  if look.colored then ⟨look.theme.head, look.theme.border⟩ else {}

def paintKind (look : Look) (kind : Text) : Text :=
  match Kind.ofName? kind with
  | some k => if look.colored then (look.theme.kindColor k).paint kind else kind
  | none => kind

def shownPath (look : Look) (path : Text) : Text := Path.relative look.current look.current.absolute path

def table (look : Look) (head : List Text) (rows : List (List Text)) : Text :=
  Table.print (style look) ⟨head, rows⟩

/-- A scalar as the text of a cell. -/
def cell : Json → Text
  | .string t => t
  | .number n => n.toText
  | .bool b => if b then "true" else "false"
  | _ => []

def field (key : String) (v : Json) : Json := (v.field? key).getD .null

def items : Json → List Json
  | .array vs => vs
  | _ => []

def entries : Json → List (Text × Json)
  | .object es => es
  | _ => []

/-- The text, or a word for having none. -/
def orNone (t : Text) : Text := if t = [] then "(none)" else t

def listed (v : Json) : Text := orNone (Text.joinWith ", " ((items v).map cell))

def completions (look : Look) (list : Json) : List Text :=
  if !look.asTable then [list.indented]
  else
    let opening :=
      Text.ofString "Context: " ++ cell (field "context" list) ++ "  Prefix: " ++
        orNone (cell (field "prefix" list))
    let candidates := items (field "candidates" list)
    if candidates.isEmpty then [opening, "No completions."]
    else
      [opening, table look ["Text", "Kind"] (candidates.map fun c =>
        [cell (field "text" c), paintKind look (cell (field "kind" c))])]

def context (look : Look) (name : Json) : List Text :=
  if look.asTable then [cell name] else [(Json.object [("context", name)]).indented]

def dashes : Text := List.replicate 51 (unit '-')

def wholeNumber (v : Json) : Int :=
  match v with
  | .number n => n.toInt?.getD 0
  | _ => 0

/-- Where the cursor is after an insertion, as a position in the new text. -/
def cursorText (inserted : Json) : Text :=
  (Position.ofOffset (cell (field "newText" inserted)) (wholeNumber (field "newCursorOffset" inserted))).toText

def applied (look : Look) (before : Text) (inserted : Json) : List Text :=
  let after := cell (field "newText" inserted)
  if look.asTable then
    [table look ["Cursor", "Offset", "Inserted"]
      [[cursorText inserted, cell (field "newCursorOffset" inserted),
        (Number.ofInt (after.length - before.length)).toText]],
      "\nText:", dashes, after, dashes]
  else [(Json.object (Json.put "cursor" (.string (cursorText inserted)) (entries inserted))).indented]

def files (look : Look) (name : Json) (paths : Json) : List Text :=
  if !look.asTable then [(Json.object [("name", name), ("files", paths)]).indented]
  else if (items paths).isEmpty then [Text.ofString "No files define " ++ cell name ++ "."]
  else [table look ["File"] ((items paths).map fun p => [shownPath look (cell p)])]

def scan (look : Look) (summary : Json) : List Text :=
  if !look.asTable then [summary.indented]
  else
    [table look ["Root", "Files", "Skipped", "Functions", "Headers", "Types", "ms"]
      [["root", "filesVisited", "filesSkipped", "functions", "headers", "types", "elapsedMs"].map fun key =>
        cell (field key summary)]]

def index (look : Look) (snapshot : Json) : List Text :=
  if !look.asTable then [snapshot.indented]
  else
    [table look ["Function", "Files"] ((entries (field "functions" snapshot)).map fun e =>
        [e.1, Text.joinWith [newline] ((items e.2).map fun p => shownPath look (cell p))]),
      Text.ofString "Headers: " ++ listed (field "headers" snapshot),
      Text.ofString "Types: " ++ listed (field "types" snapshot)]

end Report
end CCompletion
