import GraphSurvey.CommandLine.Program

/-!
# The command line

Runs the program on the files of the system.
-/

namespace GraphSurvey

/-- The system's number for a path that goes through a file. It is also given with a minus sign. -/
def isPathThroughFile (code : UInt32) : Bool := code = 20 || -code = 20

/-- Why the system cannot read a file. -/
def fileErrorOf : IO.Error → FileError
  | .inappropriateType _ code _ => if isPathThroughFile code then .notADirectory else .isADirectory
  | _ => .notFound

/-- Reads a file of the system. -/
def readFile : FileReader IO := fun path => do
  try
    return textOfBytes (← IO.FS.readBinFile path)
  catch e =>
    return .error (fileErrorOf e)

end GraphSurvey

/-- Runs the program, prints what it leaves and ends with its exit code. -/
def main (args : List String) : IO UInt32 := do
  let outcome ← GraphSurvey.program GraphSurvey.readFile args
  IO.print outcome.stdout
  IO.eprint outcome.stderr
  return outcome.code.toUInt32
