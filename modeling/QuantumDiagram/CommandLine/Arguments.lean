import QuantumDiagram.Decimal.Digits
import QuantumDiagram.Decimal.Reading

/-!
# Arguments of the command line

The program takes some options, each at most once, and at most one file. An option has a long name,
most have a letter too; letters may be put together, and the value of an option may be attached to
its name or follow as an argument of its own, which must not look like an option.
-/

namespace QuantumDiagram.CommandLine

inductive Valued where
  | stylesheet
  | width
  | height
  | fontSize
  | logLevel
deriving DecidableEq, Repr

inductive Switch where
  | strict
  | debug
  | help
deriving DecidableEq, Repr

inductive Opt where
  | valued (v : Valued)
  | switch (s : Switch)
deriving DecidableEq, Repr

def optOfLetter? : Char → Option Opt
  | 's' => some (.valued .stylesheet)
  | 'W' => some (.valued .width)
  | 'H' => some (.valued .height)
  | 'f' => some (.valued .fontSize)
  | 'd' => some (.switch .debug)
  | 'h' => some (.switch .help)
  | _ => none

def longNames : List (Text × Opt) :=
  [("stylesheet", .valued .stylesheet), ("width", .valued .width), ("height", .valued .height),
    ("font-size", .valued .fontSize), ("log-level", .valued .logLevel),
    ("strict", .switch .strict), ("debug", .switch .debug), ("help", .switch .help)]

structure Arguments where
  input : Option Text := none
  stylesheet : Option Text := none
  width : Option Int := none
  height : Option Int := none
  fontSize : Option Float := none
  logLevel : Option Text := none
  strict : Bool := false
  debug : Bool := false

inductive Request where
  | draw (a : Arguments)
  | help
  /-- The arguments cannot be understood. -/
  | refused

def readInteger? (t : Text) : Option Int :=
  let (negative, digits) := Decimal.readSign t
  ((Decimal.readNatural? digits).map fun n => if negative then -(n : Int) else n).filter fun n =>
    -2147483648 ≤ n ∧ n ≤ 2147483647

namespace Arguments

/-- Gives a value to what has none yet. -/
def once {α : Type} (old new : Option α) : Option (Option α) :=
  if old.isSome then none else new.map some

def readPath? (t : Text) : Option Text := if t = [] then none else some t

/-- Gives a value to an option; it must be right for it, and the first one. -/
def setValue (a : Arguments) (v : Valued) (t : Text) : Option Arguments :=
  match v with
  | .stylesheet => (once a.stylesheet (readPath? t)).map fun x => { a with stylesheet := x }
  | .width => (once a.width (readInteger? t)).map fun x => { a with width := x }
  | .height => (once a.height (readInteger? t)).map fun x => { a with height := x }
  | .fontSize => (once a.fontSize (Decimal.readFloat? t)).map fun x => { a with fontSize := x }
  | .logLevel => (once a.logLevel (some t)).map fun x => { a with logLevel := x }

/-- Gives the file; it must be the first one. -/
def setInput (a : Arguments) (t : Text) : Option Arguments :=
  (once a.input (readPath? t)).map fun x => { a with input := x }

end Arguments

inductive Step where
  | done (a : Arguments)
  /-- The value of an option is still to come. -/
  | awaits (v : Valued) (a : Arguments)
  | help
  | refused

namespace Step

/-- A step that may fail. -/
def ofOption : Option Arguments → Step
  | some a => done a
  | none => refused

end Step

/-- Sets a switch, which must not be set yet. -/
def throwSwitch (a : Arguments) : Switch → Step
  | .strict => if a.strict then .refused else .done { a with strict := true }
  | .debug => if a.debug then .refused else .done { a with debug := true }
  | .help => .help

/-- Reads letters of options. What follows the letter of an option with a value is its value,
perhaps after an equals sign. -/
def readLetters (a : Arguments) : Text → Step
  | [] => .done a
  | c :: rest =>
    match optOfLetter? c with
    | none => .refused
    | some (.switch s) =>
      match throwSwitch a s with
      | .done a => readLetters a rest
      | step => step
    | some (.valued v) =>
      match rest with
      | [] => .awaits v a
      | '=' :: value => .ofOption (a.setValue v value)
      | value => .ofOption (a.setValue v value)

/-- Reads the long name of an option, perhaps with an equals sign and a value. -/
def readLong (a : Arguments) (t : Text) : Step :=
  let name := t.takeWhile (· ≠ '=')
  let value := (t.dropWhile (· ≠ '=')).tail?
  match longNames.lookup name, value with
  | some (.valued v), some value => .ofOption (a.setValue v value)
  | some (.valued v), none => .awaits v a
  | some (.switch s), none => throwSwitch a s
  | some (.switch _), some _ => .refused
  | none, _ => .refused

/-- Reads one argument before the end of the options. -/
def readArgument (a : Arguments) : Text → Step
  | '-' :: '-' :: t => readLong a t
  | ['-'] => .ofOption (a.setInput ['-'])
  | '-' :: letters => readLetters a letters
  | t => .ofOption (a.setInput t)

/-- Whether an argument cannot be the value of the option before it. -/
def looksLikeOption (t : Text) : Bool := t.head? = some '-' && t ≠ ['-']

/-- Reads arguments, of which those after two hyphens are files. -/
def readArguments (a : Arguments) : List Text → Request
  | [] => .draw a
  | arg :: rest =>
    if arg = ['-', '-'] then
      match rest.foldlM Arguments.setInput a with
      | some a => .draw a
      | none => .refused
    else
      match readArgument a arg with
      | .done a => readArguments a rest
      | .help => .help
      | .refused => .refused
      | .awaits v a =>
        match rest with
        | [] => .refused
        | value :: rest =>
          if looksLikeOption value then .refused
          else
            match a.setValue v value with
            | some a => readArguments a rest
            | none => .refused

end QuantumDiagram.CommandLine
