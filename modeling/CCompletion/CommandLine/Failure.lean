import CCompletion.CommandLine.Arguments
import CCompletion.Json.Printer
import CCompletion.Refusal
import CCompletion.Service.Reply
import CCompletion.Volume.Access

/-!
Why a command fails once it has been understood.
-/

namespace CCompletion.CommandLine

inductive Failure where
  | unknownKind (kind : Text)
  | refused (refusal : Refusal)
  | unread (path : Text) (error : AccessError)
  /-- A word that is no text stands where a file is to be named. -/
  | fileNotText (value : Scalar)
  /-- A word that is no text stands where a directory is to be named. -/
  | rootNotText (value : Scalar)
  /-- The service declines. -/
  | declined (reply : Service.Reply)

def Scalar.typeText : Scalar → Text
  | .switch on => Text.ofString "type boolean (" ++ (Scalar.switch on).toText ++ ")"
  | .number n => Text.ofString "type number (" ++ n.toText ++ ")"
  | .text t => Text.ofString "type string ('" ++ t ++ "')"

def Failure.message : Failure → Text
  | .unknownKind kind =>
    Text.ofString "Unknown kind: " ++ kind ++ Text.ofString " (expected one of " ++
      Text.joinWith ", " (Kind.all.map Kind.name) ++ ")"
  | .refused refusal => refusal.message
  | .unread path error => error.message path
  | .fileNotText value =>
    Text.ofString "The \"path\" argument must be of type string or an instance of Buffer or URL. Received " ++
      value.typeText
  | .rootNotText value =>
    Text.ofString "The \"paths[0]\" argument must be of type string. Received " ++ value.typeText
  | .declined reply =>
    (Number.ofNat reply.status).toText ++ Text.ofString " - " ++ reply.body.compact

end CCompletion.CommandLine
