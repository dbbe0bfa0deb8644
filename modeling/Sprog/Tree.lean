import Sprog.Token

/-!
# Expressions and statements

The trees keep the tokens that a run may have to point at: the operator of an operation, the name
of a variable, the closing parenthesis of a call and the keyword of a print statement.

There is no statement for a counting loop: `Stmt.counting` builds it from a block and a loop.
-/
namespace Sprog

/-- The value that a constant in the source stands for. -/
inductive Constant where
  | nil
  | bool (value : Bool)
  | number (value : Float)
  | text (value : String)
  deriving DecidableEq, Repr

/-- What a token stands for as a constant: its literal decides, whatever its kind. -/
def Constant.ofLiteral : Option Literal → Constant
  | some (.number x) => .number x
  | some (.text s) => .text s
  | none => .nil

inductive UnaryOp where
  | negate | not
  deriving DecidableEq, Repr

/-- Operations that always evaluate both sides. -/
inductive BinaryOp where
  | add | subtract | multiply | divide
  | greater | greaterEqual | less | lessEqual
  | equal | notEqual
  deriving DecidableEq, Repr

/-- Operations that evaluate the right side only if the left one does not settle the result. -/
inductive LogicalOp where
  | and | or
  deriving DecidableEq, Repr

inductive Expr where
  | constant (value : Constant)
  | group (inner : Expr)
  | unary (op : UnaryOp) (token : Token) (operand : Expr)
  | binary (op : BinaryOp) (token : Token) (left right : Expr)
  | logical (op : LogicalOp) (token : Token) (left right : Expr)
  | var (name : Token)
  | assign (name : Token) (value : Expr)
  | call (callee : Expr) (closing : Token) (arguments : List Expr)
  deriving Repr

inductive Stmt where
  | expr (value : Expr)
  | print (keyword : Token) (value : Expr)
  | declare (name : Token) (initial : Option Expr)
  | block (body : List Stmt)
  | branch (test : Expr) (yes : Stmt) (no : Option Stmt)
  | loop (test : Expr) (body : Stmt)
  | function (name : Token) (parameters : List Token) (body : List Stmt)
  deriving Repr

/-- A counting loop: the initial statement and the loop share a block, and the increment runs after
the body in each round. A missing condition is true. -/
def Stmt.counting (initial : Option Stmt) (test increment : Option Expr) (body : Stmt) : Stmt :=
  let round := match increment with
    | some e => .block [body, .expr e]
    | none => body
  let loop := .loop (test.getD (.constant (.bool true))) round
  match initial with
  | some s => .block [s, loop]
  | none => loop

end Sprog
