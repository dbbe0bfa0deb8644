import Sprog.Value

/-!
# What can go wrong in a run

A `Fault` ends a run. `Fault.text` is how it is shown: what went wrong, and on the next line where.
-/
namespace Sprog

inductive Fault where
  | undefinedVariable (name : Token)
  | operandNotNumber (op : Token)
  | operandsNotNumbers (op : Token)
  | operandsNotNumbersOrTexts (op : Token)
  | notCallable (line : Nat) (value : Value)
  | wrongArgumentCount (line expected actual : Nat)
  | stackOverflow (line : Nat)
  /-- The sink took no more bytes; the line is the one of the print statement. -/
  | sinkFull (line : Nat)
  deriving Repr

namespace Fault

def line : Fault → Nat
  | undefinedVariable t | operandNotNumber t | operandsNotNumbers t
  | operandsNotNumbersOrTexts t => t.line
  | notCallable line _ | wrongArgumentCount line _ _ | stackOverflow line | sinkFull line => line

/-- The name or operator that is blamed. -/
def token? : Fault → Option Token
  | undefinedVariable t | operandNotNumber t | operandsNotNumbers t
  | operandsNotNumbersOrTexts t => some t
  | notCallable .. | wrongArgumentCount .. | stackOverflow _ | sinkFull _ => none

def message : Fault → String
  | undefinedVariable name => "Undefined variable '" ++ name.lexeme ++ "'."
  | operandNotNumber _ => "Operand must be a number."
  | operandsNotNumbers _ => "Operands must be numbers."
  | operandsNotNumbersOrTexts _ => "Operands must be two numbers or two strings."
  | notCallable .. => "Can only call functions and classes."
  | wrongArgumentCount _ expected actual =>
    "Expected " ++ toString expected ++ " arguments but got " ++ toString actual ++ "."
  | stackOverflow _ => "Stack overflow."
  | sinkFull _ => "Writing output failed with error: sink full"

def text (f : Fault) : String :=
  f.message ++ "\n[line " ++ toString f.line ++ "]"

end Fault

end Sprog
