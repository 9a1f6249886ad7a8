import CCompletion.Completion.Insertion
import CCompletion.Index.Draft
import CCompletion.Service.Call

/-!
Replies: what the service answers, as JSON.
-/

namespace CCompletion

def Candidate.toJson (c : Candidate) : Json :=
  .object [("kind", .string c.kind.name), ("text", .string c.text)]

def Offer.toJson (o : Offer) : Json :=
  .object [("context", .string o.context.name), ("prefix", .string o.typed),
    ("candidates", .array (o.candidates.map Candidate.toJson))]

def Inserted.toJson (i : Inserted) : Json :=
  .object [("newText", .string i.text), ("newCursorOffset", .ofNat i.cursor)]

def ScanSummary.toJson (s : ScanSummary) : Json :=
  .object [("root", .string s.root), ("filesVisited", .ofNat s.filesVisited),
    ("filesSkipped", .ofNat s.filesSkipped), ("functions", .ofNat s.functions),
    ("headers", .ofNat s.headers), ("types", .ofNat s.types), ("elapsedMs", .ofNat 0)]

def Snapshot.toJson (s : Snapshot) : Json :=
  .object [("root", (s.root.map Json.string).getD .null),
    ("functions", .object (s.functions.map fun f => (f.name, Json.ofTexts f.files))),
    ("headers", Json.ofTexts s.headers), ("types", Json.ofTexts s.types)]

namespace Service

structure Reply where
  status : Nat
  body : Json

namespace Reply

def ok (body : Json) : Reply := ⟨200, body⟩

/-- The work itself was refused. -/
def refused (message : Text) : Reply := ⟨400, .object [("error", .string message)]⟩

/-- The work failed in a way that nobody asked for. -/
def failed : Reply := ⟨500, .object [("error", .string "Internal Server Error")]⟩

/-- The reply to what is no call. A body that cannot be read has a message that says so in the reader's
words, which are left out. -/
def ofBadRequest : BadRequest → Reply
  | .bodyTooLarge =>
    ⟨413, .object [("statusCode", .ofNat 413), ("code", .string "FST_ERR_CTP_BODY_TOO_LARGE"),
      ("error", .string "Payload Too Large"), ("message", .string "Request body is too large")]⟩
  | .emptyBody =>
    ⟨400, .object [("statusCode", .ofNat 400), ("code", .string "FST_ERR_CTP_EMPTY_JSON_BODY"),
      ("error", .string "Bad Request")]⟩
  | .malformedBody => ⟨400, .object [("statusCode", .ofNat 400), ("error", .string "Bad Request")]⟩
  | .invalid violation =>
    ⟨400, .object [("statusCode", .ofNat 400), ("code", .string "FST_ERR_VALIDATION"),
      ("error", .string "Bad Request"), ("message", .string violation.message)]⟩
  | .noRoute method target =>
    ⟨404, .object [("message", .string (Text.ofString "Route " ++ method ++ ":" ++ target ++ " not found")),
      ("error", .string "Not Found"), ("statusCode", .ofNat 404)]⟩

end Reply
end Service
end CCompletion
