/-
The program: its arguments come from the command line, its files from disk.
-/

import RelationalLayout.CommandLine

namespace RelationalLayout

def ReadError.ofIO : IO.Error → ReadError
  | .noFileOrDirectory _ 20 _ => .insideFile
  | .noFileOrDirectory _ _ _ => .missing
  | .inappropriateType _ 20 _ => .insideFile
  | .inappropriateType _ 21 _ => .directory
  | .permissionDenied _ _ _ => .denied
  | .invalidArgument _ 36 _ => .nameTooLong
  | error => .other (toString error)

def readFile (path : String) : IO (Except ReadError String) := do
  try
    match String.fromUTF8? (← IO.FS.readBinFile path) with
    | some text => return .ok text
    | none => return .error .notText
  catch error =>
    return .error (.ofIO error)

def readFiles (paths : List String) : IO (List (String × Except ReadError String)) :=
  paths.mapM (fun path => return (path, ← readFile path))

end RelationalLayout

open RelationalLayout in
def main (arguments : List String) : IO UInt32 := do
  let sources ← readFiles (pathsOfArguments arguments)
  let files : Files := fun path => (sources.lookup path).getD (.error .missing)
  let outcome := runArguments files arguments
  IO.print outcome.output
  IO.eprint outcome.report
  return UInt32.ofNat outcome.code
