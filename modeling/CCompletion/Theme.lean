import CCompletion.Candidate.Basic
import CCompletion.Refusal

/-!
Colour themes and the choice among them.
-/

namespace CCompletion

inductive Color where
  | black
  | red
  | green
  | yellow
  | blue
  | magenta
  | cyan
  | white
  | gray
deriving DecidableEq, Repr

def Color.name : Color → Text
  | .black => "black"
  | .red => "red"
  | .green => "green"
  | .yellow => "yellow"
  | .blue => "blue"
  | .magenta => "magenta"
  | .cyan => "cyan"
  | .white => "white"
  | .gray => "gray"

structure Theme where
  name : Text
  head : List Color
  border : List Color
  kindColor : Kind → Color

namespace Theme

def darkBlue : Theme where
  name := "vscode_dark"
  head := [.cyan]
  border := [.gray]
  kindColor
    | .keyword => .blue
    | .type => .cyan
    | .function => .yellow
    | .variable => .cyan
    | .preprocessor => .magenta
    | .header => .green
    | .snippet => .white

def darkMagenta : Theme where
  name := "xcode_dark"
  head := [.magenta]
  border := [.gray]
  kindColor
    | .keyword => .magenta
    | .type => .cyan
    | .function => .blue
    | .variable => .cyan
    | .preprocessor => .yellow
    | .header => .red
    | .snippet => .white

def light : Theme where
  name := "light"
  head := [.blue]
  border := [.black]
  kindColor
    | .keyword => .blue
    | .type => .green
    | .function => .magenta
    | .variable => .black
    | .preprocessor => .red
    | .header => .red
    | .snippet => .black

def all : List Theme := [darkBlue, darkMagenta, light]

def defaultName : Text := darkBlue.name

def isNamed (theme : Theme) (name : Text) : Bool := theme.name = name

def named (name : Text) : Except Refusal Theme :=
  match all.find? fun theme => theme.isNamed name with
  | some theme => .ok theme
  | none => .error (.unknownTheme name (all.map (·.name)))

/-- The theme called `name` in the place of `current`; nothing changes when it is that theme already. -/
def switch (current : Theme) (name : Text) : Except Refusal Theme :=
  if current.isNamed name then .ok current else named name

/-- The theme after this one, the first after the last. -/
def next (current : Theme) : Theme :=
  (all[(all.findIdx (fun theme => theme.name = current.name) + 1) % all.length]?).getD darkBlue

end Theme
end CCompletion
