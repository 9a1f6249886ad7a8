import CCompletion.Json.Reader
import CCompletion.Service.Schema
import CCompletion.Service.Url

/-!
Calls of the service, and how requests become calls. The body of a request is read before its path is
looked at.
-/

namespace CCompletion.Service

structure Request where
  method : Text
  target : Text
  body : Option Text := none

/-- What can be asked without changing anything. -/
inductive Question where
  | complete (text : Text) (offset : Number)
  | classify (text : Text) (offset : Number)
  | apply (text : Text) (offset : Number) (candidate : Candidate)
  | symbols (name : Text)
  | index
  | health
  | shutdown

inductive Call where
  /-- Scans a root, or the project itself. -/
  | scan (root : Option Text)
  | ask (question : Question)

/-- Why a request is no call. -/
inductive BadRequest where
  | bodyTooLarge
  | emptyBody
  | malformedBody
  | invalid (violation : Violation)
  | noRoute (method target : Text)

/-- Is the entry a constructor with a prototype, or none at all? -/
def isConstructor (entry : Text × Json) : Bool :=
  entry.1 == "constructor" &&
    match entry.2 with
    | .null => true
    | .object entries => entries.any fun e => e.1 == "prototype"
    | _ => false

mutual

/-- Does an object in the value name a prototype? Such bodies are refused. -/
def namesPrototype : Json → Bool
  | .array items => anyNamesPrototype items
  | .object entries =>
    entries.any (fun e => e.1 == "__proto__" || isConstructor e) || entriesNamePrototype entries
  | _ => false

def anyNamesPrototype : List Json → Bool
  | [] => false
  | v :: rest => namesPrototype v || anyNamesPrototype rest

def entriesNamePrototype : List (Text × Json) → Bool
  | [] => false
  | (_, v) :: rest => namesPrototype v || entriesNamePrototype rest

end

def byteOrderMark : CodeUnit := 0xFEFF

/-- The value that a body holds. -/
def bodyValue (body : Text) : Except BadRequest Json :=
  match Json.ofText? (if body.head? = some byteOrderMark then body.drop 1 else body) with
  | some v => if namesPrototype v then .error .malformedBody else .ok v
  | none => .error .malformedBody

/-- The largest size of a body, in bytes. -/
def bodyLimit : Nat := 1048576

/-- A request that only asks; its body is not looked at. -/
def Request.isQuery (r : Request) : Bool := r.method == "GET" || r.method == "HEAD"

def Request.value (r : Request) : Except BadRequest Json :=
  if r.isQuery then .ok .null
  else
    match r.body with
    | none => .ok .null
    | some [] => if r.method = "DELETE" ∨ r.method = "OPTIONS" then .ok .null else .error .emptyBody
    | some body => if bodyLimit < body.toBytes.length then .error .bodyTooLarge else bodyValue body

def scanCall (body : Json) : Checked Call := do
  let entries ← entriesAt "body" body
  match Json.lookup? "root" entries with
  | some v => return .scan (some (← filledTextAt "body/root" v))
  | none => return .scan none

/-- The text and the offset that a body gives, with its entries. -/
def documentOf (body : Json) (fields : List Text) : Checked (Text × Number × List (Text × Json)) := do
  let entries ← entriesAt "body" body
  requireFields "body" entries fields
  let text ← textAt "body/text" (value entries "text")
  let offset ← offsetAt "body/offset" (value entries "offset")
  return (text, offset, entries)

def completeCall (body : Json) : Checked Call := do
  let (text, offset, _) ← documentOf body ["text", "offset"]
  return .ask (.complete text offset)

def classifyCall (body : Json) : Checked Call := do
  let (text, offset, _) ← documentOf body ["text", "offset"]
  return .ask (.classify text offset)

def applyCall (body : Json) : Checked Call := do
  let (text, offset, entries) ← documentOf body ["text", "offset", "candidate"]
  return .ask (.apply text offset (← candidateAt "body/candidate" (value entries "candidate")))

def symbolsCall (url : Url) : Checked Call :=
  match url.values "name" with
  | [] => .error ⟨"querystring", .field "name"⟩
  | [name] => (identifierAt "querystring/name" name).map fun n => .ask (.symbols n)
  | _ => .error ⟨"querystring/name", .string⟩

/-- The call that a method and a path stand for, if there is one. -/
def route? (r : Request) (url : Url) (body : Json) : Option (Checked Call) :=
  if r.isQuery then
    if url.path = "/symbols" then some (symbolsCall url)
    else if url.path = "/index" then some (.ok (.ask .index))
    else if url.path = "/health" then some (.ok (.ask .health))
    else none
  else if r.method ≠ "POST" then none
  else if url.path = "/scan" then some (scanCall body)
  else if url.path = "/complete" then some (completeCall body)
  else if url.path = "/classify" then some (classifyCall body)
  else if url.path = "/apply" then some (applyCall body)
  else if url.path = "/shutdown" then some (.ok (.ask .shutdown))
  else none

def Call.ofRequest (r : Request) : Except BadRequest Call := do
  let body ← r.value
  match route? r (Url.ofTarget r.target) body with
  | some (.ok call) => return call
  | some (.error violation) => throw (.invalid violation)
  | none => throw (.noRoute r.method r.target)

end CCompletion.Service
