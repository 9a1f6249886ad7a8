import CCompletion.Text.Basic

/-!
What a scan of a project tree takes in.
-/

namespace CCompletion

structure ScanOptions where
  /-- The extensions of source files, each with its point. -/
  extensions : List Text := [".c", ".h"]
  /-- The names of directories that are never entered. -/
  excluded : List Text := [".git", "node_modules"]
  /-- Whether the ignore files of the tree are followed. -/
  followsIgnoreFiles : Bool := false
  /-- Larger files are left out. -/
  maxKilobytes : Option Nat := none
  /-- A scan ends once it has found so many files. -/
  maxFiles : Option Nat := none

end CCompletion
