import Sprog.Files
import Sprog.Session
import Sprog.Text.Blank

/-!
# The command line

Without an argument the program is a prompt: each line of the input runs on the same machine, and a
failure ends its line and nothing else. White space at the end of such a line does not count. Which
lines the input has is up to an editor of lines. With one argument the program runs a file.
`CommandLine.run` says what is written and how the program ends.
-/
namespace Sprog.CommandLine

/-- How the program ends. -/
inductive Status where
  | success
  /-- The file cannot be read, or it is not a text. -/
  | unreadable
  /-- Too many arguments. -/
  | usage
  /-- The file is no program. -/
  | dataError
  /-- The run of the file failed. -/
  | software
  deriving DecidableEq, Repr

def Status.code : Status → UInt8
  | success => 0
  | unreadable => 1
  | usage => 64
  | dataError => 65
  | software => 70

/-- The lines that an editor makes of the input. -/
abbrev Editor := String → List (List Char)

/-- What the program leaves behind. -/
structure Report where
  status : Status
  output : ByteArray
  errors : String

/-- How a failure is reported. -/
def report (f : Failure) : String := f.text ++ "\n"

/-- The source text that a line of the prompt stands for. -/
def source (line : List Char) : String :=
  String.ofList (Text.trimEnd line)

/-- Runs one line of the prompt: the new state and what is reported. -/
def runLine (n : Nat) (m : Machine) (line : List Char) : Option (Machine × String) :=
  match Session.run .bare n (source line) m with
  | .done () m => some (m, "")
  | .failed f m => some (m, report f)
  | .exhausted => none

/-- Runs the lines of the prompt. -/
def runLines (n : Nat) (m : Machine) : List (List Char) → Option (Machine × String)
  | [] => some (m, "")
  | line :: rest => do
    let (m, here) ← runLine n m line
    let (m, later) ← runLines n m rest
    return (m, here ++ later)

/-- The prompt, with all of its input. -/
def prompt (editor : Editor) (n : Nat) (m : Machine) (input : String) : Option Report := do
  let (m, errors) ← runLines n m (editor input)
  return ⟨.success, m.sink.written, errors⟩

/-- How the program ends when the run of a file failed. -/
def statusOf : Failure → Status
  | .parse _ => .dataError
  | .runtime _ => .software

/-- Runs the text of a file. -/
def runText (n : Nat) (m : Machine) (source : String) : Option Report :=
  match Session.run .bare n source m with
  | .done () m => some ⟨.success, m.sink.written, ""⟩
  | .failed f m => some ⟨statusOf f, m.sink.written, report f⟩
  | .exhausted => none

/-- Runs a file, given its content if it can be read. -/
def runFile (n : Nat) (m : Machine) (content : Option ByteArray) : Option Report :=
  match content.bind String.fromUTF8? with
  | some source => runText n m source
  | none => some ⟨.unreadable, .empty, ""⟩

/-- What is written when there are too many arguments. -/
def usageText : String := "For mange argumenter, du...\n"

/-- The whole program: its arguments, the files it can read, and its input. There is no report if
the run is not allowed to go on. -/
def run (editor : Editor) (n : Nat) (clock : Clock) (arguments : List String) (files : Files)
    (input : String) : Option Report :=
  let m := Machine.start clock none
  match arguments with
  | [] => prompt editor n m input
  | [path] => runFile n m (files.read? path)
  | _ => some ⟨.usage, usageText.toUTF8, ""⟩

end Sprog.CommandLine
