import Kusto.CommandLine.Run

/-!
# The program

The command line on the files and the environment of the machine.
-/

open Kusto.CommandLine

namespace Kusto

/-- The number of a system error, with whatever sign it comes. -/
def systemNumber (code : UInt32) : Nat := code.toInt32.toInt.natAbs

/-- The message of the system, with its number. -/
def systemReason (number : Nat) (details : String) : String :=
  let text :=
    match number with
    | 2 => "No such file or directory"
    | 13 => "Permission denied"
    | 20 => "Not a directory"
    | 21 => "Is a directory"
    | 36 => "File name too long"
    | 40 => "Too many levels of symbolic links"
    | _ => details
  text ++ " (os error " ++ String.ofList (Number.natText number) ++ ")"

/-- A failed reading. There is nothing at a path that cannot be followed to its end either. -/
def systemFault (code : UInt32) (details : String) : ReadFault :=
  let number := systemNumber code
  let reason := systemReason number details
  if number ∈ [2, 20, 36, 40] then .absent reason else .unreadable reason

/-- A failed reading. -/
def readFault : IO.Error → ReadFault
  | .noFileOrDirectory _ code details | .inappropriateType _ code details
  | .permissionDenied _ code details | .invalidArgument _ code details => systemFault code details
  | e => .unreadable e.toString

/-- The text of a file. -/
def readFile (path : String) : IO (Except ReadFault String) := do
  match ← (IO.FS.readBinFile path).toBaseIO with
  | .error e => return .error (readFault e)
  | .ok bytes =>
    match String.fromUTF8? bytes with
    | some text => return .ok text
    | none => return .error (.unreadable "stream did not contain valid UTF-8")

/-- The standard directory of settings. -/
def standardHome : IO (Option String) := do
  match ← IO.getEnv "HOME" with
  | some home => return if home = "" then none else some (home ++ "/.config")
  | none => return none

/-- An absolute directory of the user's choice, else the standard one. -/
def settingsHome : IO (Option String) := do
  match ← IO.getEnv "XDG_CONFIG_HOME" with
  | some dir => if dir.startsWith "/" then return some dir else standardHome
  | none => standardHome

/-- The machine. -/
def machine : Host IO := ⟨readFile, fun name => IO.getEnv name, settingsHome⟩

end Kusto

/-- Run a request and leave with its exit code. -/
def main (args : List String) : IO UInt32 := do
  let o ← run Kusto.machine args
  (← IO.getStdout).putStr o.output
  (← IO.getStderr).putStr o.errors
  return o.exitCode.toUInt32
