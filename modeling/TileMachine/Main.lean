import TileMachine.Command

/-! The command line program. -/
namespace TileMachine

def usage : String :=
  "usage: hrmi run PROGRAM [-i VALUES] [-t VALUES] [-v] [--max-steps N]\n" ++
  "       hrmi check PROGRAM\n" ++
  "       hrmi fmt PROGRAM\n" ++
  "       hrmi test PROGRAM FIXTURE [--max-steps N]\n"

def readFile (path : String) : IO (Except FileError ByteArray) :=
  try
    return .ok (← IO.FS.readBinFile path)
  catch
    | .noFileOrDirectory .. => return .error .missing
    | .inappropriateType .. => return .error .directory
    | e => return .error (.other (toString e))

def readFiles (paths : List String) : IO Files := do
  let contents ← paths.mapM fun path => return (path, ← readFile path)
  return fun path => (contents.lookup path).getD (.error .missing)

/-- Asks again with twice the patience until there is an answer. -/
partial def untilAnswered (answer : Nat → Option Report) (patience : Nat) : IO Report :=
  match answer patience with
  | some report => return report
  | none => untilAnswered answer (2 * patience)

def perform (c : Command) : IO UInt32 := do
  let files ← readFiles c.paths
  let report ← untilAnswered (c.respond? files) 1000000
  (← IO.getStdout).putStr report.output
  (← IO.getStderr).putStr report.errorOutput
  return report.exitCode.toUInt32

end TileMachine

open TileMachine in
def main (args : List String) : IO UInt32 := do
  match Arguments.parse args (← IO.getEnv "HRM_MAX_STEPS") with
  | none =>
    (← IO.getStderr).putStr usage
    return 1
  | some .version =>
    (← IO.getStdout).putStrLn versionText
    return 0
  | some (.command c) => perform c
