import QuantumDiagram.CommandLine.Arguments
import QuantumDiagram.Rendering
import QuantumDiagram.Report
import QuantumDiagram.Stylesheet.Reading

/-!
# The command

The command draws one program: it reads the stylesheet and then the program, and writes the drawing
to its output, or what is wrong to its error output. How files are read is a parameter, so that what
the command does is a function of what it reads.
-/

namespace QuantumDiagram.CommandLine

open Text (line)

inductive FileError where
  /-- The system refuses, in its own words and with its number for the reason. -/
  | system (reason : Text) (number : Nat)
  /-- What the file holds is not the UTF-8 form of a text. -/
  | notText

namespace FileError

def message : FileError → Text
  | system reason number => Text.join [reason, " (os error ", Decimal.natural number, ")"]
  | notText => "stream did not contain valid UTF-8"

def notFound : FileError := .system "No such file or directory" 2

def notDirectory : FileError := .system "Not a directory" 20

def isDirectory : FileError := .system "Is a directory" 21

end FileError

structure Outcome where
  code : Nat
  output : Text
  errors : Text

def failure (errors : Text) : Outcome := ⟨1, [], errors⟩

/-! ## Texts -/

def help : Text :=
  Text.join [
    line ["Draw quantum circuit descriptions as SVG"],
    line [],
    line ["Usage: circuit-illustrator [OPTIONS] [INPUT]"],
    line [],
    line ["Arguments:"],
    line ["  [INPUT]  Input file (reads from stdin if not provided)"],
    line [],
    line ["Options:"],
    line ["  -s, --stylesheet <STYLESHEET>  Stylesheet file for colors and font (TOML format)"],
    line ["  -W, --width <WIDTH>            Drawing surface width [default: 800]"],
    line ["  -H, --height <HEIGHT>          Drawing surface height [default: 400]"],
    line ["  -f, --font-size <FONT_SIZE>    Label font size, overriding the stylesheet"],
    line ["      --strict                   Fail when the surface is too small instead of ",
      "drawing a cramped layout"],
    line ["      --log-level <LOG_LEVEL>    Log level (off, error, warn, info, debug, trace) ",
      "[default: warn]"],
    line ["  -d, --debug                    Debug mode: dump the circuit model and geometry to ",
      "stderr"],
    line ["  -h, --help                     Print help"]]

/-- What is said of arguments that cannot be understood. -/
def usage : Text :=
  line ["error: the arguments cannot be understood"] ++
    line ["Usage: circuit-illustrator [OPTIONS] [INPUT]"]

/-- The levels that may be chosen for the log, in any case of letters. -/
def logLevels : List Text := ["off", "error", "warn", "info", "debug", "trace"]

/-- What is said of the chosen level of the log: nothing if there is such a level. -/
def levelWarning : Option Text → Text
  | none => []
  | some level =>
    if Text.lower level ∈ logLevels then []
    else line ["Invalid log level: ", level, ". Using 'warn' instead."]

/-! ## Listings -/

def sizesText (sizes : List Int) : Text :=
  Text.join ["[", Text.joinWith ", " (sizes.map Decimal.integer), "]"]

def elementLine (e : Element) : Text :=
  line ["[", e.channel.text, " @ ", Decimal.natural e.column, "] ", e.gate.name,
    " x=", Decimal.integer e.bounds.x, " y=", Decimal.integer e.bounds.y,
    " w=", Decimal.integer e.bounds.width, " h=", Decimal.integer e.bounds.height]

def dump (m : Circuit) (l : Layout) : Text :=
  Text.join [
    line ["=== Circuit Model ==="],
    m.listing,
    line ["=== Layout Debug ==="],
    line ["columns ", sizesText l.frame.widths],
    line ["rows    ", sizesText l.frame.heights],
    l.elements.flatMap elementLine,
    line ["===================="]]

/-! ## The run -/

/-- How the arguments ask for a drawing, with the given stylesheet. -/
def renderingOf (a : Arguments) (stylesheet : Stylesheet) : Rendering where
  stylesheet := { stylesheet with fontSize := a.fontSize.getD stylesheet.fontSize }
  surface := ⟨a.width.getD 800, a.height.getD 400⟩
  strict := a.strict

/-- Draws a program that was read from the named file. -/
def draw (a : Arguments) (stylesheet : Stylesheet) (source fileName : Text) : Outcome :=
  let r := renderingOf a stylesheet
  match r.prepare source with
  | .ok (m, l) => ⟨0, line [r.write l], if a.debug then dump m l else []⟩
  | .error (.parse e) => failure (Report.text e source fileName)
  | .error e => failure (line ["Error: ", e.message])

def loadStylesheet (path : Text) (content : Except FileError Text) : Except Text Stylesheet :=
  let problem (reason : List Text) : Text :=
    line ["Error loading stylesheet '", path, "': ", Text.join reason]
  match content with
  | .error e => .error (problem ["Failed to read stylesheet file: ", e.message])
  | .ok t =>
    match Stylesheet.read? t with
    | some s => .ok s
    | none => .error (problem ["Failed to parse stylesheet TOML"])

section
variable {m : Type → Type} [Monad m] (readFile : Text → m (Except FileError Text))
variable (readInput : m (Except FileError Text))

def perform (a : Arguments) : m Outcome := do
  let stylesheet : Except Text Stylesheet ← match a.stylesheet with
    | none => pure (.ok .default)
    | some path => loadStylesheet path <$> readFile path
  match stylesheet with
  | .error problem => return failure problem
  | .ok stylesheet =>
    match a.input with
    | none =>
      match ← readInput with
      | .ok source => return draw a stylesheet source "<stdin>"
      | .error e => return failure (line ["Error reading from stdin: ", e.message])
    | some path =>
      match ← readFile path with
      | .ok source => return draw a stylesheet source path
      | .error e => return failure (line ["Error reading file '", path, "': ", e.message])

def run (args : List Text) : m Outcome := do
  match readArguments {} args with
  | .refused => return ⟨2, [], usage⟩
  | .help => return ⟨0, help, []⟩
  | .draw a =>
    let outcome ← perform readFile readInput a
    return { outcome with errors := levelWarning a.logLevel ++ outcome.errors }

end

end QuantumDiagram.CommandLine
