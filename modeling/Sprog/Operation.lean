import Sprog.Fault

/-!
# Operations on values

What the operators do with values that are already there. Arithmetic and order are those of
IEEE 754, so a division by zero is no fault.
-/
namespace Sprog

def UnaryOp.apply (op : UnaryOp) (token : Token) (v : Value) : Except Fault Value :=
  match op, v with
  | .not, v => .ok (.bool !v.truthy)
  | .negate, .number x => .ok (.number (-x))
  | .negate, _ => .error (.operandNotNumber token)

namespace BinaryOp

/-- A number from two numbers. -/
def arithmetic (f : Float → Float → Float) (token : Token) : Value → Value → Except Fault Value
  | .number a, .number b => .ok (.number (f a b))
  | _, _ => .error (.operandsNotNumbers token)

/-- A truth value from two numbers. -/
def compare (f : Float → Float → Bool) (token : Token) : Value → Value → Except Fault Value
  | .number a, .number b => .ok (.bool (f a b))
  | _, _ => .error (.operandsNotNumbers token)

/-- The sum of two numbers or two texts one after the other. -/
def plus (token : Token) : Value → Value → Except Fault Value
  | .number a, .number b => .ok (.number (a + b))
  | .text a, .text b => .ok (.text (a ++ b))
  | _, _ => .error (.operandsNotNumbersOrTexts token)

def apply (op : BinaryOp) (token : Token) (l r : Value) : Except Fault Value :=
  match op with
  | add => plus token l r
  | subtract => arithmetic (· - ·) token l r
  | multiply => arithmetic (· * ·) token l r
  | divide => arithmetic (· / ·) token l r
  | greater => compare (fun a b => b < a) token l r
  | greaterEqual => compare (fun a b => b ≤ a) token l r
  | less => compare (fun a b => a < b) token l r
  | lessEqual => compare (fun a b => a ≤ b) token l r
  | equal => .ok (.bool (l.same r))
  | notEqual => .ok (.bool !(l.same r))

end BinaryOp

/-- Whether the left side alone settles the result. -/
def LogicalOp.settledBy (op : LogicalOp) (left : Value) : Bool :=
  match op with
  | .or => left.truthy
  | .and => !left.truthy

end Sprog
