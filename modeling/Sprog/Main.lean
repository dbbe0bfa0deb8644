import Sprog.CommandLine
import Sprog.Text.Typed
import Std.Time.DateTime.Timestamp

/-!
# The program

Reads arguments, files and lines, and writes what the library says. `CommandLine.run` decides it
all, unless lines come from a terminal. There each line is answered before the next one is read, by
`CommandLine.runLines`.
-/
namespace Sprog.Main

open CommandLine

/-- More calls and rounds than a run ever takes. -/
def unlimited : Nat := 0x4000000000000000

/-- A clock that shows the time of now, in milliseconds since 1970. -/
def clock : IO Clock := do
  let time ← Std.Time.Timestamp.now
  return .fixed (Float.ofInt time.toMillisecondsSinceUnixEpoch.toInt)

/-- Writes out and flushes. -/
def emit (output : ByteArray) (errors : String) : IO Unit := do
  let out ← IO.getStdout
  out.write output
  out.flush
  IO.eprint errors

/-- Reads lines from a terminal until it is closed, with a mark before each of them. -/
partial def converse (m : Machine) : IO Unit := do
  emit "> ".toUTF8 ""
  let line ← (← IO.getStdin).getLine
  if line.isEmpty then return
  let lines := Text.typedLines line
  match runLines unlimited { m with clock := ← clock } lines with
  | some (m, errors) =>
    emit m.sink.written errors
    converse m.flush
  | none => converse m

/-- The files that the arguments name. -/
def files : List String → IO Files
  | [path] => return [(path, ← IO.FS.readBinFile path)]
  | _ => return []

/-- Everything that is to be read, if there are no arguments. -/
def input : List String → IO String
  | [] => do return (← (← IO.getStdin).readToEnd)
  | _ => return ""

/-- Runs the program with its arguments. -/
def run (arguments : List String) : IO UInt32 := do
  if arguments.isEmpty && (← (← IO.getStdin).isTty) then
    converse (.start (← clock) none)
    return Status.success.code.toUInt32
  let files ← files arguments
  let input ← input arguments
  match CommandLine.run Text.typedLines unlimited (← clock) arguments files input with
  | some report =>
    emit report.output report.errors
    return report.status.code.toUInt32
  | none => return Status.software.code.toUInt32

end Sprog.Main

def main (arguments : List String) : IO UInt32 :=
  Sprog.Main.run arguments
