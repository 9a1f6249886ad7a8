import CCompletion.Index.Draft
import CCompletion.Path
import CCompletion.Service.Reply

/-!
The service: the symbols of one project, and the answers to the calls about them. Only a scan changes
the symbols.
-/

namespace CCompletion

structure Service where
  /-- The directory of the project. -/
  root : Route
  source : ProjectSource
  options : OfferOptions := {}
  table : SymbolTable := {}

namespace Service

/-- What the service notes while it answers. -/
inductive Note where
  | warning (w : Warning)
  | refusal (r : Refusal)
  | failure (name message : Text)

/-- A reply, with the notes made on the way. -/
structure Answer where
  reply : Reply
  notes : List Note := []

def Answer.refused (r : Refusal) : Answer := ⟨.refused r.message, [.refusal r]⟩

def Answer.ofResult {α : Type} (toJson : α → Json) : Except Refusal α → Answer
  | .ok a => ⟨.ok (toJson a), []⟩
  | .error r => .refused r

/-- Scans a directory, given by a path from the project's, and takes over the symbols found there. -/
def scan (s : Service) (path : Text) : Service × ScanSummary × List Warning :=
  let (draft, warnings) := Draft.ofSource s.source (Route.absolute (Path.resolve s.root path))
  ({ s with table := draft.table }, draft.summary, warnings)

def complete (s : Service) (t : Text) (offset : Number) : Except OfferError Offer :=
  CCompletion.complete s.table.symbols s.options t offset

def contextJson (c : Context) : Json := .object [("context", .string c.name)]

def statusJson (status : Text) : Json := .object [("status", .string status)]

def filesJson (name : Text) (files : List Text) : Json :=
  .object [("name", .string name), ("files", Json.ofTexts files)]

def ask (s : Service) : Question → Answer
  | .complete t offset =>
    match s.complete t offset with
    | .ok o => ⟨.ok o.toJson, []⟩
    | .error (.refused r) => .refused r
    | .error (.unlisted u) => ⟨.failed, [.failure "TypeError" u.message]⟩
    | .error (.tooLong e) => ⟨.failed, [.failure "SyntaxError" e.message]⟩
  | .classify t offset => .ofResult contextJson (CCompletion.classify t offset)
  | .apply t offset candidate => .ofResult Inserted.toJson (candidate.insert t offset)
  | .symbols name => ⟨.ok (filesJson name (s.table.filesDefining name)), []⟩
  | .index => ⟨.ok s.table.snapshot.toJson, []⟩
  | .health => ⟨.ok (statusJson "ok"), []⟩
  | .shutdown => ⟨.ok (statusJson "shutting down"), []⟩

def perform (s : Service) (call : Call) : Service × Answer :=
  match call with
  | .scan path =>
    let (s', summary, warnings) := s.scan (path.getD s.root.absolute)
    (s', ⟨.ok summary.toJson, warnings.map .warning⟩)
  | .ask question => (s, s.ask question)

def answer (s : Service) (r : Request) : Service × Answer :=
  match Call.ofRequest r with
  | .ok call => s.perform call
  | .error bad => (s, ⟨.ofBadRequest bad, []⟩)

end Service
end CCompletion
