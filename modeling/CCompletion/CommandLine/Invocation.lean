import CCompletion.CommandLine.Arguments
import CCompletion.CommandLine.Help
import CCompletion.Source.Position

/-!
What a command line asks for. The command is found by sorting the words with the switches of each command
in turn: only these decide which words are operands.
-/

namespace CCompletion.CommandLine

/-- Why a command line cannot be followed. -/
inductive UsageError where
  | unknownOption (name : Text)
  | valueMissing (option : OptionForm)
  | operandsMissing (verb : Verb)

def UsageError.message : UsageError → Text
  | .unknownOption name =>
    Text.ofString "Unknown option `" ++ Text.ofString (if 1 < name.length then "--" else "-") ++ name ++ "`"
  | .valueMissing option => Text.ofString "option `" ++ option.shown ++ "` value is missing"
  | .operandsMissing verb =>
    Text.ofString "missing required args for command `" ++ verb.shown ++ "`"

/-- A file and a place in it. -/
structure Spot where
  file : Scalar
  cursor : CursorRequest

/-- What the service is wanted for. -/
inductive Work where
  | complete (spot : Spot)
  | classify (spot : Spot)
  | apply (spot : Spot) (kind text : Scalar) (write : Bool)
  | scan (root? : Option Scalar)
  | locate (name : Scalar)
  | index

/-- How its answer is to be shown. -/
structure Display where
  asTable : Bool := false
  theme? : Option Text := none

inductive Invocation where
  | print (texts : List Text)
  | serve (work : Work) (display : Display)
  | stop

namespace Invocation

def isNamed (options : List OptionForm) (name : Text) : Bool :=
  options.any fun o => o.names.contains name

/-- The switches among options. -/
def isSwitch (options : List OptionForm) (name : Text) : Bool :=
  isNamed (options.filter fun o => !o.takesValue) name

def isSmallLetter (u : CodeUnit) : Bool := 97 ≤ u && u ≤ 122

/-- A hyphen between small letters is dropped for a capital. -/
def camelCase : Text → Text
  | u :: v :: w :: rest =>
    if isSmallLetter u ∧ v = unit '-' ∧ isSmallLetter w then u :: (w - 32) :: camelCase rest
    else u :: camelCase (v :: w :: rest)
  | t => t

/-- Options are looked at in the order of an object's keys. -/
def ordered (options : List (Text × Given)) : List Text :=
  (options.mergeSort fun a b => Json.keyBefore (a.1, .null) (b.1, .null)).map (·.1)

def checkOptions (known : List OptionForm) (a : Arguments) : Except UsageError Unit :=
  match (ordered a.options).find? fun name => !isNamed known name with
  | some name => .error (.unknownOption (camelCase name))
  | none => .ok ()

/-- Was the option named without a value? -/
def lacksValue (a : Arguments) (o : OptionForm) : Bool :=
  o.takesValue &&
    match a.givenAs o.names with
    | [.switch _] => true
    | _ => false

def checkValues (known : List OptionForm) (a : Arguments) : Except UsageError Unit :=
  match known.find? (lacksValue a) with
  | some o => .error (.valueMissing o)
  | none => .ok ()

def cursorOf (a : Arguments) : CursorRequest where
  position? := if a.given "at" = [] then none else some (a.given "at").text
  offset? := if a.given "offset" = [] then none else some (a.given "offset").number

def displayOf (a : Arguments) : Display where
  asTable := (a.given "table").isOn
  theme? := if a.given "theme" = [] then none else some (a.given "theme").text

/-- The invocation that a command with its operands stands for, or nothing when operands are missing. -/
def ofOperands? (v : Verb) (a : Arguments) : Option Invocation :=
  match v, a.operands with
  | .complete, file :: _ => some (.serve (.complete ⟨file, cursorOf a⟩) (displayOf a))
  | .classify, file :: _ => some (.serve (.classify ⟨file, cursorOf a⟩) (displayOf a))
  | .apply, file :: kind :: text :: _ =>
    some (.serve (.apply ⟨file, cursorOf a⟩ kind text (a.given "write").isOn) (displayOf a))
  | .scan, operands => some (.serve (.scan operands.head?) (displayOf a))
  | .locate, name :: _ => some (.serve (.locate name) (displayOf a))
  | .index, _ => some (.serve .index (displayOf a))
  | .stop, _ => some .stop
  | _, _ => none

def ofVerb (v : Verb) (a : Arguments) : Except UsageError Invocation := do
  checkOptions (v.options ++ OptionForm.shared) a
  checkValues v.options a
  match ofOperands? v a with
  | some invocation => return invocation
  | none => throw (.operandsMissing v)

/-- The arguments of a command, if that is the command that the words begin with. -/
def argumentsFor? (words : List Text) (v : Verb) : Option (Verb × Arguments) :=
  let a := Arguments.ofWords (isSwitch (OptionForm.shared ++ v.options)) words
  match a.operands with
  | first :: rest => if first = .text v.name then some (v, { a with operands := rest }) else none
  | [] => none

def isAsked (a : Arguments) (o : OptionForm) : Bool := (a.givenAs o.names).isOn

/-- Of several commands that words can be read as, the last one counts. Asking for help is answered before
anything is checked. -/
def ofWords (words : List Text) : Except UsageError Invocation :=
  match (Verb.all.filterMap (argumentsFor? words)).getLast? with
  | some (v, a) =>
    if isAsked a .help then .ok (.print (v.help :: (if isAsked a .version then [versionText] else [])))
    else ofVerb v a
  | none =>
    let a := Arguments.ofWords (isSwitch OptionForm.shared) words
    .ok (.print ((if isAsked a .help then [programHelp] else []) ++
      (if isAsked a .version then [versionText] else [])))

end Invocation
end CCompletion.CommandLine
