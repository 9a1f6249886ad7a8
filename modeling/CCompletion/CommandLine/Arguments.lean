import CCompletion.Json.Basic
import CCompletion.Number.Printer
import CCompletion.Number.Reader

/-!
The words of a command line, sorted into operands and options. A word that begins with dashes names an
option, whose value stands after an equals sign or is the next word; a word that begins with a dash is
never taken as a value. Values that can be read as numbers are numbers.
-/

namespace CCompletion.CommandLine

inductive Scalar where
  | switch (on : Bool)
  | number (value : Number)
  | text (value : Text)
deriving DecidableEq

namespace Scalar

/-- A value as written: a number wherever it can be read as a finite one. -/
def ofText (t : Text) : Scalar :=
  match Number.ofText t with
  | .finite q => .number (.finite q)
  | _ => .text t

def toText : Scalar → Text
  | .switch on => if on then "true" else "false"
  | .number n => n.toText
  | .text t => t

def toNumber : Scalar → Number
  | .switch on => .ofNat on.toNat
  | .number n => n
  | .text t => .ofText t

def isOn : Scalar → Bool
  | .switch on => on
  | .number n => n ≠ .finite 0
  | .text t => t ≠ []

end Scalar

/-- What was given for an option: a value for each time that the option was named. -/
abbrev Given := List Scalar

namespace Given

/-- Several values count as given, whatever they are. -/
def isOn : Given → Bool
  | [] => false
  | [value] => value.isOn
  | _ => true

def text (g : Given) : Text := Text.joinWith "," (g.map Scalar.toText)

/-- Several values are no number. -/
def number : Given → Number
  | [value] => value.toNumber
  | _ => .notANumber

end Given

/-- The shapes of words. -/
inductive Word where
  | operand (t : Text)
  /-- `--no-name`. -/
  | denial (name : Text)
  /-- `--name` or `--name=value`; after a single dash each letter is a name. -/
  | options (names : List Text) (value? : Option Text)
deriving DecidableEq

def Word.ofText (t : Text) : Word :=
  let dashes := (t.takeWhile (· = unit '-')).length
  let body := t.drop dashes
  if dashes = 0 then .operand t
  else if (Text.ofString "no-").isPrefixOf body then .denial (body.drop 3)
  else
    let name := body.take 1 ++ (body.drop 1).takeWhile (· ≠ unit '=')
    let value := body.drop (name.length + 1)
    .options (if dashes = 2 then [name] else name.map fun letter => [letter])
      (if value = [] then none else some value)

structure Arguments where
  operands : List Scalar := []
  /-- The options in the order in which they were first named. -/
  options : List (Text × Given) := []

namespace Arguments

/-- What was given for an option under the first name used for it. -/
def givenAs (a : Arguments) (names : List Text) : Given :=
  ((a.options.find? fun o => names.contains o.1).map (·.2)).getD []

def given (a : Arguments) (name : Text) : Given := a.givenAs [name]

/-- Changes what was given for an option. -/
def update (change : Given → Given) (name : Text) : List (Text × Given) → List (Text × Given)
  | [] => [(name, change [])]
  | o :: rest => if o.1 = name then (name, change o.2) :: rest else o :: update change name rest

/-- The option that a name stands for: a point begins the name of a part of it. -/
def optionName (name : Text) : Text := name.takeWhile (· ≠ unit '.')

def addValue (a : Arguments) (name : Text) (value : Scalar) : Arguments :=
  { a with options := update (· ++ [value]) (optionName name) a.options }

/-- Takes back what was given for an option so far. -/
def deny (a : Arguments) (name : Text) : Arguments :=
  { a with options := update (fun _ => [.switch false]) (optionName name) a.options }

def addOperand (a : Arguments) (value : Scalar) : Arguments := { a with operands := a.operands ++ [value] }

/-- Names an option with a text for its value. A switch takes no value but `true` and `false`: any other text
is an operand, and turns the switch on unless it is empty. -/
def give (isSwitch : Text → Bool) (a : Arguments) (name value : Text) : Arguments :=
  if !isSwitch name then a.addValue name (.ofText value)
  else if value = "false" then a.addValue name (.switch false)
  else if value = "true" then a.addValue name (.switch true)
  else (a.addOperand (.ofText value)).addValue name (.switch (value ≠ []))

def turnOn (a : Arguments) (name : Text) : Arguments := a.addValue name (.switch true)

/-- Names options one after the other, of which only the last takes the value. -/
def nameAll (isSwitch : Text → Bool) (value? : Option Text) (a : Arguments) : List Text → Arguments
  | [] => a
  | [last] =>
    match value? with
    | some value => a.give isSwitch last value
    | none => a.turnOn last
  | name :: rest => nameAll isSwitch value? (a.turnOn name) rest

/-- Can the word be the value of the option before it? -/
def isValue (t : Text) : Bool := t.head? ≠ some (unit '-')

/-- Takes in a word that is no value of an option before it. The second part of the result are the options
that the word names without saying their value. -/
def addWord (isSwitch : Text → Bool) (a : Arguments) : Word → Arguments × Option (List Text)
  | .operand t => (a.addOperand (.text t), none)
  | .denial name => (a.deny name, none)
  | .options names none => (a, some names)
  | .options names (some value) => (a.nameAll isSwitch (some value) names, none)

/-- Sorts words into what has been sorted before, while some options may still wait for their value. -/
def sort (isSwitch : Text → Bool) (a : Arguments) (waiting : Option (List Text)) : List Text → Arguments
  | [] => a.nameAll isSwitch none (waiting.getD [])
  | t :: rest =>
    match waiting, isValue t with
    | some names, true => sort isSwitch (a.nameAll isSwitch (some t) names) none rest
    | _, _ =>
      let (a', waiting') := (a.nameAll isSwitch none (waiting.getD [])).addWord isSwitch (.ofText t)
      sort isSwitch a' waiting' rest

/-- Sorts the words before the first `--`; those after it count as neither operands nor options. -/
def ofWords (isSwitch : Text → Bool) (words : List Text) : Arguments :=
  sort isSwitch {} none (words.takeWhile (· ≠ Text.ofString "--"))

end Arguments
end CCompletion.CommandLine
