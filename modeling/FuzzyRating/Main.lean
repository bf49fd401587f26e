import FuzzyRating.Command.Run
import Std.Time.DateTime

/-!
The command line program.
-/

open FuzzyRating

/-- Reads a file as text. -/
def readText (path : String) : IO FileText := do
  try
    return .ofBytes (← IO.FS.readBinFile path)
  catch error =>
    return .error (.other (toString error))

/-- The time of day. -/
def readClock : IO Timestamp := do
  let now ← Std.Time.Timestamp.now
  let nanoseconds := now.toNanosecondsSinceUnixEpoch.val.toNat
  return ⟨nanoseconds / 1000000000, nanoseconds % 1000000000⟩

/-- Reads what the arguments ask for, and then answers them. -/
def main (arguments : List String) : IO UInt32 := do
  let stdout ← IO.getStdout
  let stderr ← IO.getStderr
  let configPath ← IO.getEnv "FUZZY_INTERP_CONFIG"
  let files ← (namedPaths configPath arguments).mapM fun path => return (path, ← readText path)
  let empty : Surroundings :=
    { configPath
      read := fun _ => .error .missing
      terminal := ← stdout.isTty
      clock := some (← readClock) }
  let output := runProgram (empty.withFiles files) arguments
  stdout.putStr output.stdout
  stderr.putStr output.stderr
  return UInt32.ofNat output.status.code
