import OneTape.CommandLine.Program

namespace OneTape.CommandLine

def faultOf : IO.Error → Files.Fault
  | .noFileOrDirectory .. => .notFound
  | .inappropriateType name code details =>
    if code = 20 ∨ code = -20 then .notDirectory
    else if code = 21 ∨ code = -21 then .isDirectory
    else .other (toString (IO.Error.inappropriateType name code details))
  | e => .other (toString e)

def readFile (path : String) : IO (Except Files.Fault ByteArray) := do
  try
    return .ok (← IO.FS.readBinFile path)
  catch e =>
    return .error (faultOf e)

def accessFor (arguments : List String) : IO Files.Access := do
  let content ← match parse arguments with
    | .ok (.run { program := some path, .. }) => readFile path
    | _ => pure (.error .notFound)
  return ⟨fun _ => content, fun _ => .error .notFound⟩

/-- Prints a transcript as it grows with the fuel. The numbers count the characters printed. -/
partial def print (transcript : Nat → Transcript) (fuel shownOut shownErr : Nat) : IO UInt32 := do
  let t := transcript fuel
  (← IO.getStdout).putStr (t.stdout.drop shownOut).copy
  (← IO.getStderr).putStr (t.stderr.drop shownErr).copy
  (← IO.getStdout).flush
  match t.code with
  | some code => return code.toUInt32
  | none => print transcript (4 * fuel) t.stdout.length t.stderr.length

end OneTape.CommandLine

def main (arguments : List String) : IO UInt32 := do
  let files ← OneTape.CommandLine.accessFor arguments
  OneTape.CommandLine.print (OneTape.CommandLine.execute files arguments) 1000 0 0
