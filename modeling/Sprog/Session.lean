import Sprog.Evaluation
import Sprog.Program

/-!
# Sessions

A session runs source texts one after the other on the same machine. A text with a fault in it does
not run at all; a text that fails in its run keeps what it did up to then. A host may also call a
callable directly. `host` says what the host's own routines do.
-/
namespace Sprog

/-- Why a source text did not run to its end. -/
inductive Failure where
  | parse (errors : List Diagnostic)
  | runtime (fault : Fault)
  deriving Repr

/-- How a failure is shown. -/
def Failure.text : Failure → String
  | parse errors => "\n".intercalate (errors.map Diagnostic.text)
  | runtime fault => fault.text

namespace Session

variable (host : Host)

/-- Runs statements, with at most `n` calls inside one another and `n` rounds of each loop. -/
def execute (n : Nat) (statements : List Stmt) : Eval Unit :=
  execAll (invoke host n) n statements

/-- Runs a source text. -/
def run (n : Nat) (source : String) (m : Machine) : Outcome Failure Unit :=
  match Program.ofSource source with
  | .error errors => .failed (.parse errors) m
  | .ok statements => (execute host n statements m).mapError .runtime

/-- Calls a callable directly: nothing is checked, counted or logged for this one call. -/
def call (n : Nat) (c : Callable) (args : List Value) : Eval Value :=
  invoke host n c args

end Session

end Sprog
