import CCompletion.Completion.Offer
import CCompletion.Json.Reader
import CCompletion.Path
import CCompletion.Scan.Options
import CCompletion.Theme
import CCompletion.Warning

/-!
Settings: what a project's settings file may change. An entry of the file counts when its value has the
right shape; any other entry leaves its setting as it is.
-/

namespace CCompletion

structure Settings extends ScanOptions, OfferOptions where
  theme : Text := Theme.defaultName

/-- The settings that a file states. -/
structure StatedSettings where
  extensions : Option (List Text) := none
  excluded : Option (List Text) := none
  followsIgnoreFiles : Option Bool := none
  maxKilobytes : Option (Option Nat) := none
  maxFiles : Option (Option Nat) := none
  mode : Option MatchMode := none
  limit : Option (Option Number) := none
  theme : Option Text := none

inductive SettingsError where
  | notAnObject
  | malformed
deriving DecidableEq

def SettingsError.message : SettingsError → Text
  | .notAnObject => "configuration must be a JSON object"
  | .malformed => "configuration must be JSON"

namespace Settings

def fileName : Text := ".c-complete.json"

def filePath (root : Text) : Text := Path.join root fileName

def text? : Json → Option Text
  | .string t => some t
  | _ => none

def texts? : Json → Option (List Text)
  | .array items => items.mapM text?
  | _ => none

def flag? : Json → Option Bool
  | .bool b => some b
  | _ => none

def positive? (n : Number) : Option Nat :=
  match n.toInt? with
  | some (.ofNat (k + 1)) => some (k + 1)
  | _ => none

/-- A limit is a positive whole number, or null for no limit. -/
def limit? : Json → Option (Option Nat)
  | .null => some none
  | .number n => (positive? n).map some
  | _ => none

/-- A limit of candidates is kept as the number it is. -/
def offerLimit? : Json → Option (Option Number)
  | .null => some none
  | .number n => (positive? n).map fun _ => some n
  | _ => none

def mode? : Json → Option MatchMode
  | .string t =>
    if t = "contains" then some .containing else if t = "prefix" then some .starting else none
  | _ => none

/-- The value of an entry, where it has the right shape. -/
def entry? {α : Type} (key : String) (read : Json → Option α) (entries : List (Text × Json)) : Option α :=
  (Json.lookup? key entries).bind read

end Settings

namespace StatedSettings

open Settings

def ofJson : Json → Except SettingsError StatedSettings
  | .object entries => .ok {
      extensions := entry? "extensions" texts? entries
      excluded := entry? "excludeDirs" texts? entries
      followsIgnoreFiles := entry? "respectGitignore" flag? entries
      maxKilobytes := entry? "maxFileSizeKb" limit? entries
      maxFiles := entry? "maxFiles" limit? entries
      mode := entry? "matchMode" mode? entries
      limit := entry? "maxResults" offerLimit? entries
      theme := entry? "theme" text? entries }
  | _ => .error .notAnObject

def ofText (content : Text) : Except SettingsError StatedSettings :=
  match Json.ofText? content with
  | some value => ofJson value
  | none => .error .malformed

def limitJson : Option Nat → Json
  | some n => .ofNat n
  | none => .null

def offerLimitJson : Option Number → Json
  | some n => .number n
  | none => .null

def modeJson : MatchMode → Json
  | .containing => .string "contains"
  | .starting => .string "prefix"

def entry {α : Type} (key : String) (write : α → Json) (value : Option α) : List (Text × Json) :=
  (value.map fun v => (Text.ofString key, write v)).toList

/-- The stated settings as an object that reads back as them. -/
def toJson (s : StatedSettings) : Json :=
  .object (
    entry "extensions" Json.ofTexts s.extensions ++
    entry "excludeDirs" Json.ofTexts s.excluded ++
    entry "respectGitignore" Json.bool s.followsIgnoreFiles ++
    entry "maxFileSizeKb" limitJson s.maxKilobytes ++
    entry "maxFiles" limitJson s.maxFiles ++
    entry "matchMode" modeJson s.mode ++
    entry "maxResults" offerLimitJson s.limit ++
    entry "theme" Json.string s.theme)

end StatedSettings

namespace Settings

/-- The settings with the stated ones in their place. -/
def updated (s : Settings) (stated : StatedSettings) : Settings where
  extensions := stated.extensions.getD s.extensions
  excluded := stated.excluded.getD s.excluded
  followsIgnoreFiles := stated.followsIgnoreFiles.getD s.followsIgnoreFiles
  maxKilobytes := stated.maxKilobytes.getD s.maxKilobytes
  maxFiles := stated.maxFiles.getD s.maxFiles
  mode := stated.mode.getD s.mode
  limit := stated.limit.getD s.limit
  theme := stated.theme.getD s.theme

/-- All settings, stated. -/
def stated (s : Settings) : StatedSettings where
  extensions := s.extensions
  excluded := s.excluded
  followsIgnoreFiles := s.followsIgnoreFiles
  maxKilobytes := some s.maxKilobytes
  maxFiles := some s.maxFiles
  mode := s.mode
  limit := some s.limit
  theme := s.theme

/-- The settings after reading the file at `path`: the defaults where there is no such file, and also, with
a warning, where it cannot be read or holds no object. -/
def load {ε : Type} (path : Text) (reading : Except ε (Option Text)) : Settings × List Warning :=
  match reading with
  | .ok none => ({}, [])
  | .ok (some content) =>
    match StatedSettings.ofText content with
    | .ok stated => (({} : Settings).updated stated, [])
    | .error _ => ({}, [.settingsUnread path])
  | .error _ => ({}, [.settingsUnread path])

end Settings
end CCompletion
