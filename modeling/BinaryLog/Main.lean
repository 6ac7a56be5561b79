import BinaryLog.CommandLine.Report

/-!
# The program

Reads the two files that the arguments name, and prints the report.
-/

open BinaryLog

/-- The fault that an error of the file system is. A directory is opened like a file, so it shows by
    the number of the error that reading it ends in. -/
def faultOf : IO.Error → FileFault
  | .noFileOrDirectory .. => .notFound
  | .inappropriateType _ 21 _ => .isDirectory
  | .inappropriateType .. => .notDirectory
  | .invalidArgument .. => .nameTooLong
  | error => .other (toString error)

/-- What is found under a path of the file system. -/
def readFile (path : String) : IO FileContent := do
  try
    let bytes ← IO.FS.readBinFile path
    return .ok bytes.toList
  catch error => return .error (faultOf error)

/-- Runs the program. -/
def main (arguments : List String) : IO UInt32 := do
  let report ←
    match CommandLine.Invocation.ofArguments arguments with
    | .replay options =>
      let catalogFile ← readFile options.catalog
      let logFile ← readFile options.logFile
      pure (CommandLine.report options catalogFile logFile)
    | _ => pure (CommandLine.run arguments fun _ => .error .notFound)
  IO.print report.output
  IO.eprint report.errors
  return report.exitCode
