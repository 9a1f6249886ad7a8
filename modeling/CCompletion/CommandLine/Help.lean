import CCompletion.CommandLine.Verb

/-!
The help texts: sections with a title each, below the name of the program.
-/

namespace CCompletion.CommandLine

def programName : Text := "c-complete"

def versionText : Text := programName ++ Text.ofString "/0.1.0"

/-- The text with blanks after it, up to a width. -/
def padded (width : Nat) (t : Text) : Text := t ++ List.replicate (width - t.length) (unit ' ')

def width (ts : List Text) : Nat := (ts.map (·.length)).foldl max 0

structure HelpSection where
  title : Text
  lines : List Text

def HelpSection.text (s : HelpSection) : Text :=
  s.title ++ unit ':' :: newline :: Text.joinWith [newline] (s.lines.map fun l => Text.ofString "  " ++ l)

/-- A call of the program. -/
def callLine (rest : Text) : Text := Text.ofString "$ " ++ programName ++ unit ' ' :: rest

/-- Two columns; an option's description has a blank after it, where its default would stand. -/
def columns (rows : List (Text × Text)) : List Text :=
  let first := width (rows.map (·.1))
  rows.map fun r => padded first r.1 ++ Text.ofString "  " ++ r.2

def optionSection (options : List OptionForm) : HelpSection where
  title := "Options"
  lines := columns (options.map fun o => (o.shown, o.description ++ [unit ' ']))

def usageSection (rest : Text) : HelpSection where
  title := "Usage"
  lines := [callLine rest]

def helpText (sections : List HelpSection) : Text :=
  Text.joinWith [newline, newline] (versionText :: sections.map HelpSection.text)

def Verb.help (v : Verb) : Text :=
  helpText [usageSection v.shown, optionSection (v.options ++ [.help])]

/-- The help for all of the program. -/
def programHelp : Text :=
  helpText
    [usageSection "<command> [options]",
      ⟨"Commands", columns (Verb.all.map fun v => (v.shown, v.description))⟩,
      ⟨"For more info, run any command with the `--help` flag",
        Verb.all.map fun v => callLine (v.name ++ Text.ofString " --help")⟩,
      optionSection OptionForm.shared]

end CCompletion.CommandLine
