import LayeredConfig.CommandLine

/-!
# The program

Reads the files of a command line, runs it, and writes what it says.
-/

open LayeredConfig CommandLine

/-- The reason for a failure of the system. -/
def faultOf : IO.Error → FileFault
  | .noFileOrDirectory _ _ _ => .missing
  | .inappropriateType _ _ _ => .isDirectory
  | e => .other (toString e)

/-- The text of a file, or why it cannot be read. -/
def readText (file : String) : IO (Except FileFault String) := do
  try return .ok (← IO.FS.readFile file) catch e => return .error (faultOf e)

/-- Writes a file. The result says why it cannot be written. -/
def writeText (file text : String) : IO (Option FileFault) := do
  try
    IO.FS.writeFile file text
    return none
  catch e => return some (faultOf e)

def main (arguments : List String) : IO UInt32 := do
  let files := match Command.ofArguments arguments with
    | .ok command => command.files
    | .error _ => []
  let texts ← files.mapM fun file => return (file, ← readText file)
  let read (file : String) := (texts.lookup file).getD (.error .missing)
  let planned := run ⟨read, fun _ => .ok .file⟩ arguments
  let outcome ← match planned.written? with
    | none => pure planned
    | some (file, text) =>
      match ← writeText file text with
      | none => pure planned
      | some fault => pure (run ⟨read, fun _ => .error fault⟩ arguments)
  IO.print outcome.stdout
  IO.eprint outcome.stderr
  return outcome.code.toUInt32
