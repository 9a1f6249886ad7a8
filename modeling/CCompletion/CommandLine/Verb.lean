import CCompletion.Text.Basic

/-!
The commands, with the operands and options that each of them takes.
-/

namespace CCompletion.CommandLine

structure OptionForm where
  /-- The option as help shows it. -/
  shown : Text
  names : List Text
  takesValue : Bool := false
  description : Text

namespace OptionForm

def help : OptionForm where
  shown := "-h, --help"
  names := ["h", "help"]
  description := "Display this message"

def version : OptionForm where
  shown := "-v, --version"
  names := ["v", "version"]
  description := "Display version number"

def offset : OptionForm where
  shown := "--offset <n>"
  names := ["offset"]
  takesValue := true
  description := "0-based character offset (default: end of file)"

def position : OptionForm where
  shown := "--at <line:col>"
  names := ["at"]
  takesValue := true
  description := "1-based line and column"

def write : OptionForm where
  shown := "--write"
  names := ["write"]
  description := "Rewrite the file in place"

def table : OptionForm where
  shown := "--table"
  names := ["table"]
  description := "Output in table format"

def plain : OptionForm := { table with description := "Output in plain text" }

def theme : OptionForm where
  shown := "--theme <name>"
  names := ["theme"]
  takesValue := true
  description := "Table theme (vscode_dark, xcode_dark, light)"

/-- The options that every command takes. -/
def shared : List OptionForm := [help, version]

end OptionForm

inductive Verb where
  | complete
  | classify
  | apply
  | scan
  | locate
  | index
  | stop
deriving DecidableEq, Repr

namespace Verb

def all : List Verb := [complete, classify, apply, scan, locate, index, stop]

def name : Verb → Text
  | complete => "complete"
  | classify => "classify"
  | apply => "apply"
  | scan => "scan"
  | locate => "where"
  | index => "index"
  | stop => "stop"

/-- The operands as help shows them. -/
def operands : Verb → List Text
  | complete | classify => ["<file>"]
  | apply => ["<file>", "<kind>", "<text>"]
  | scan => ["[root]"]
  | locate => ["<name>"]
  | index | stop => []

def options : Verb → List OptionForm
  | complete => [.offset, .position, .table, .theme]
  | classify => [.offset, .position, .plain]
  | apply => [.offset, .position, .write, .table, .theme]
  | scan | locate | index => [.table, .theme]
  | stop => []

def description : Verb → Text
  | complete => "List completions at a position in a C file"
  | classify => "Show the lexical context at a position"
  | apply => "Insert a completion candidate at a position"
  | scan => "Re-scan the project (or another root)"
  | locate => "List the files defining or declaring a function"
  | index => "Dump the project index"
  | stop => "Stop the background server"

/-- The command with its operands. -/
def shown (v : Verb) : Text := Text.joinWith " " (v.name :: v.operands)

end Verb
end CCompletion.CommandLine
