import Tablespace.CommandLine

/-!
# The program

Opens the file that the arguments name, prints what the command answers and
exits with its code.
-/

open Tablespace

def openFile (path : String) : IO (Except FileError Access) := do
  try
    let contents ← IO.FS.readBinFile path
    return .ok { file := some (.ofBytes contents.data.toList) }
  catch
    | .inappropriateType _ 21 _ => return .error (.io .isADirectory)
    | .inappropriateType .. | .noFileOrDirectory .. | .invalidArgument .. =>
      return .error (.fileNotFound path)
    | e => throw e

def main (args : List String) : IO UInt32 := do
  let outcome ← CommandLine.run openFile args
  IO.print outcome.out
  IO.eprint outcome.err
  return UInt32.ofNat outcome.code
