import Sprog.Parser.Basic
import Sprog.Tree

/-!
# Parsing expressions

From loosest to tightest an expression is an assignment, a disjunction, a conjunction, an equality,
a comparison, a sum, a product, a sign or negation, a call, and at last a constant, a name or a
group in parentheses. Operations of one level associate to the left, assignments to the right.

Every parser here takes a bound on the number of tokens left. Each recursive step passes over a
token first, so with a bound that holds the step at zero sees no token at all.
-/
namespace Sprog

/-- The operators of one level: which tree an operator token builds. -/
abbrev Level := Kind → Option (Token → Expr → Expr → Expr)

namespace Level

def product : Level
  | .star => some (Expr.binary .multiply)
  | .slash => some (Expr.binary .divide)
  | _ => none

def sum : Level
  | .plus => some (Expr.binary .add)
  | .minus => some (Expr.binary .subtract)
  | _ => none

def comparison : Level
  | .less => some (Expr.binary .less)
  | .lessEqual => some (Expr.binary .lessEqual)
  | .greater => some (Expr.binary .greater)
  | .greaterEqual => some (Expr.binary .greaterEqual)
  | _ => none

def equality : Level
  | .equalEqual => some (Expr.binary .equal)
  | .bangEqual => some (Expr.binary .notEqual)
  | _ => none

def conjunction : Level
  | .andKw => some (Expr.logical .and)
  | _ => none

def disjunction : Level
  | .orKw => some (Expr.logical .or)
  | _ => none

/-- All levels, the tightest first. -/
def all : List Level := [product, sum, comparison, equality, conjunction, disjunction]

end Level

/-- The operators that stand before their operand. -/
def UnaryOp.ofKind? : Kind → Option UnaryOp
  | .bang => some .not
  | .minus => some .negate
  | _ => none

namespace Parser

/-- A constant, a name, or a group in parentheses. -/
def primary (expr : Parser Expr) : Parser Expr := do
  let token ← current
  match token.kind with
  | .falseKw => skip; return .constant (.bool false)
  | .trueKw => skip; return .constant (.bool true)
  | .nilKw => skip; return .constant .nil
  | .number | .string => skip; return .constant (.ofLiteral token.literal)
  | .identifier => skip; return .var token
  | .leftParen =>
    skip
    let inner ← expr
    let _ ← expect .rightParen .closingOfGroup
    return .group inner
  | _ => fail .expression

/-- What stands between the parentheses of a call. -/
def arguments (expr : Parser Expr) (n : Nat) : Parser (List Expr) := do
  if ← sees .rightParen then return [] else commaSeparated expr n

/-- The calls that follow a callee. -/
def calls (expr : Parser Expr) : Nat → Expr → Parser Expr
  | 0, callee => return callee
  | n + 1, callee => do
    match ← accept .leftParen with
    | none => return callee
    | some _ =>
      let args ← arguments expr n
      let closing ← expect .rightParen .closingOfArguments
      calls expr n (.call callee closing args)

def call (expr : Parser Expr) (n : Nat) : Parser Expr := do
  calls expr n (← primary expr)

/-- Any number of signs and negations before an operand. -/
def unary (operand : Parser Expr) : Nat → Parser Expr
  | 0 => operand
  | n + 1 => do
    match ← acceptFrom UnaryOp.ofKind? with
    | some (op, token) => return .unary op token (← unary operand n)
    | none => operand

/-- The operations of one level that follow their first operand. -/
def operations (level : Level) (operand : Parser Expr) : Nat → Expr → Parser Expr
  | 0, left => return left
  | n + 1, left => do
    match ← acceptFrom level with
    | none => return left
    | some (node, token) =>
      let right ← operand
      operations level operand n (node token left right)

/-- Operands joined by the operators of one level. -/
def joined (n : Nat) (operand : Parser Expr) (level : Level) : Parser Expr := do
  operations level operand n (← operand)

/-- Everything tighter than an assignment. -/
def operation (expr : Parser Expr) (n : Nat) : Parser Expr :=
  Level.all.foldl (joined n) (unary (call expr n) n)

/-- An assignment, or an operation alone. Something other than a name before the equals sign is
reported, and is then the result. -/
def assignment (expr : Parser Expr) (n : Nat) : Parser Expr := do
  let target ← operation expr n
  match ← accept .equal with
  | none => return target
  | some equals =>
    let value ← expr
    match target with
    | .var name => return .assign name value
    | _ =>
      report (.invalidAssignmentTarget equals)
      return target

/-- An expression, when at most `n` tokens are left. -/
def expression : Nat → Parser Expr
  | 0 => fail .expression
  | n + 1 => assignment (expression n) (n + 1)

end Parser

end Sprog
