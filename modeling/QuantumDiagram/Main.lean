import QuantumDiagram.CommandLine.Command

/-!
# The executable

Reads what the command asks for, writes what it leaves behind and ends with its code.
-/

namespace QuantumDiagram.CommandLine

def FileError.ofSystem : IO.Error → FileError
  | .noFileOrDirectory .. => .notFound
  | .inappropriateType _ 21 _ => .isDirectory
  | .inappropriateType .. => .notDirectory
  | .permissionDenied _ number reason => .system reason.toList number.toNat
  | .otherError number reason => .system reason.toList number.toNat
  | e => .system e.toString.toList 0

def readText (read : IO ByteArray) : IO (Except FileError Text) := do
  try
    match String.fromUTF8? (← read) with
    | some s => return .ok s.toList
    | none => return .error .notText
  catch e => return .error (.ofSystem e)

/-- Runs the command on the files of the system and its standard input. -/
def runOnSystem (args : List String) : IO Outcome :=
  run (fun path => readText (IO.FS.readBinFile (String.ofList path)))
    (readText (do (← IO.getStdin).readBinToEnd)) (args.map String.toList)

end QuantumDiagram.CommandLine

def main (args : List String) : IO UInt32 := do
  let outcome ← QuantumDiagram.CommandLine.runOnSystem args
  (← IO.getStdout).putStr (String.ofList outcome.output)
  (← IO.getStderr).putStr (String.ofList outcome.errors)
  return outcome.code.toUInt32
