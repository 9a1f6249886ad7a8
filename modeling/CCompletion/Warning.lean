import CCompletion.Number.Printer

/-!
What goes wrong without stopping anything: the work goes on without the entry, file or setting at fault.
-/

namespace CCompletion

inductive Warning where
  | filesUnlisted (root : Text)
  | fileUnread (path : Text)
  | directoryUnresolved (path : Text)
  | directoryUnread (path : Text)
  | entryUnknown (path : Text)
  | fileTooLarge (path : Text) (kilobytes : Nat)
  | ignoreRulesUnread
  | settingsUnread (path : Text)
deriving DecidableEq

def Warning.message : Warning → Text
  | .filesUnlisted root => "Failed to list source files under " ++ root
  | .fileUnread path => "Skipping unreadable file " ++ path
  | .directoryUnresolved path => "Failed to resolve directory " ++ path
  | .directoryUnread path => "Failed to read directory " ++ path
  | .entryUnknown path => "Failed to stat " ++ path
  | .fileTooLarge path kilobytes =>
    Text.ofString "Skipping " ++ path ++ ": larger than " ++ (Number.ofNat kilobytes).toText ++ " KB"
  | .ignoreRulesUnread => "Failed to process .gitignore files"
  | .settingsUnread path => Text.ofString "Failed to read " ++ path ++ ", using defaults"

end CCompletion
