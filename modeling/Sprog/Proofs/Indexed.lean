import Sprog.Parser.Statement

/-!
# Parsers on an index

The same grammar read by a cursor. The tokens stand in one list that is never cut, with a mark at
its end, and a parser is at an index into it. It can look at the token there and at the one before,
and it can step on by one token unless it is at a mark. An index at which nothing stands breaks the
parser down.

There is no bound on the tokens left here, only an allowance for rounds and nested parts that is
handed down. A parser that has used it up breaks down as well, so one that does not break down has
come to its end by itself.

On the way a parser keeps a record: the position behind every step of the cursor, and where each
declaration of a row began and ended.

* `Indexed.advance`: the only step of the cursor.
* `Indexed.synchronize`: where the cursor goes after a fault.
* `Indexed.parse`: a whole token list, which need not end with a mark.
-/
namespace Sprog

/-- Why a parser breaks down. -/
inductive Breakdown where
  /-- It looked at an index at which there is no token. -/
  | outOfRange
  /-- It was not allowed to go on. -/
  | exhausted
  deriving DecidableEq, Repr

/-- How a parser on an index ended: its result, where the cursor stands, and the faults reported in
order. `path` has the position behind every step of the cursor, and `spans` the beginning and the
end of every declaration of a row, in the order in which they ended. -/
structure Indexed.Step (α : Type) where
  result : Except Diagnostic α
  position : Nat
  reports : List Diagnostic
  path : List Nat
  spans : List (Nat × Nat)

/-- A parser for `α` on an index: given all tokens and the position of the cursor. -/
def Indexed (α : Type) := List Token → Nat → Except Breakdown (Indexed.Step α)

namespace Indexed

variable {α β : Type}

protected def pure (a : α) : Indexed α :=
  fun _ i => .ok ⟨.ok a, i, [], [], []⟩

protected def bind (p : Indexed α) (f : α → Indexed β) : Indexed β :=
  fun items i =>
    match p items i with
    | .error b => .error b
    | .ok ⟨.error e, j, reports, path, spans⟩ => .ok ⟨.error e, j, reports, path, spans⟩
    | .ok ⟨.ok a, j, reports, path, spans⟩ =>
      match f a items j with
      | .error b => .error b
      | .ok s => .ok ⟨s.result, s.position, reports ++ s.reports, path ++ s.path, spans ++ s.spans⟩

instance : Monad Indexed where
  pure := Indexed.pure
  bind := Indexed.bind

/-! ## The cursor -/

/-- Breaks down for want of an allowance. -/
def exhausted : Indexed α := fun _ _ => .error .exhausted

def position : Indexed Nat := fun _ i => .ok ⟨.ok i, i, [], [], []⟩

/-- The token at an index. -/
def tokenAt (index : Nat) : Indexed Token := fun items i =>
  match items[index]? with
  | some t => .ok ⟨.ok t, i, [], [], []⟩
  | none => .error .outOfRange

/-- Puts the cursor at a position. -/
def moveTo (j : Nat) : Indexed Unit := fun _ _ => .ok ⟨.ok (), j, [], [j], []⟩

def current : Indexed Token := do tokenAt (← position)

/-- The token before the current one; at the beginning the current one. -/
def previous : Indexed Token := do tokenAt ((← position) - 1)

def isAtEnd : Indexed Bool := return (← current).kind == .eof

/-- Steps over the current token unless it is a mark, and gives the token before the cursor. -/
def advance : Indexed Token := do
  let here ← position
  if ← isAtEnd then moveTo here else moveTo (here + 1)
  previous

/-- Whether the current token is of the given kind and no mark. -/
def sees (kind : Kind) : Indexed Bool := do
  if ← isAtEnd then return false else return (← current).kind == kind

/-- Steps over the current token if it is of the given kind. -/
def accept (kind : Kind) : Indexed (Option Token) := do
  if ← sees kind then return some (← advance) else return none

/-- Steps over the current token if the table has an entry for its kind. -/
def acceptFrom (table : Kind → Option α) : Indexed (Option (α × Token)) := do
  match table (← current).kind with
  | some a => return some (a, ← advance)
  | none => return none

def throw (d : Diagnostic) : Indexed α := fun _ i => .ok ⟨.error d, i, [], [], []⟩

def fail (expected : Expected) : Indexed α := do
  throw (.unexpectedToken (← current) expected)

def expect (kind : Kind) (expected : Expected) : Indexed Token := do
  if ← sees kind then advance else fail expected

def report (d : Diagnostic) : Indexed Unit := fun _ i => .ok ⟨.ok (), i, [d], [], []⟩

/-! ## Going on after a fault -/

/-- Steps on to the end, up to behind a semicolon or up to a token that starts a statement. -/
def resume : Nat → Indexed Unit
  | 0 => exhausted
  | n + 1 => do
    if ← isAtEnd then return
    if (← previous).kind = .semicolon then return
    if Parser.startsStatement (← current).kind then return
    let _ ← advance
    resume n

def synchronize (n : Nat) : Indexed Unit := do
  let _ ← advance
  resume n

/-- Makes the result of a parser, or what stopped it, a value. -/
def attempt (p : Indexed α) : Indexed (Except Diagnostic α) := fun items i =>
  match p items i with
  | .error b => .error b
  | .ok s => .ok ⟨.ok s.result, s.position, s.reports, s.path, s.spans⟩

/-- Records where a parser began and where it ended. -/
def recorded (p : Indexed α) : Indexed α := fun items i =>
  match p items i with
  | .error b => .error b
  | .ok s => .ok { s with spans := s.spans ++ [(i, s.position)] }

/-- Runs a parser whose failure is reported and left behind. -/
def recover (n : Nat) (p : Indexed α) : Indexed (Option α) := do
  match ← attempt p with
  | .ok a => return some a
  | .error e =>
    report e
    synchronize n
    return none

/-! ## Expressions -/

/-- One or more items with commas between them. -/
def commaSeparated (item : Indexed α) : Nat → Indexed (List α)
  | 0 => exhausted
  | n + 1 => do
    let first ← item
    match ← accept .comma with
    | none => return [first]
    | some _ => return first :: (← commaSeparated item n)

/-- A constant, a name, or a group in parentheses. -/
def primary (expr : Indexed Expr) : Indexed Expr := do
  let token ← current
  match token.kind with
  | .falseKw => let _ ← advance; return .constant (.bool false)
  | .trueKw => let _ ← advance; return .constant (.bool true)
  | .nilKw => let _ ← advance; return .constant .nil
  | .number | .string => let _ ← advance; return .constant (.ofLiteral token.literal)
  | .identifier => let _ ← advance; return .var token
  | .leftParen =>
    let _ ← advance
    let inner ← expr
    let _ ← expect .rightParen .closingOfGroup
    return .group inner
  | _ => fail .expression

def arguments (expr : Indexed Expr) (n : Nat) : Indexed (List Expr) := do
  if ← sees .rightParen then return [] else commaSeparated expr n

def calls (expr : Indexed Expr) : Nat → Expr → Indexed Expr
  | 0, _ => exhausted
  | n + 1, callee => do
    match ← accept .leftParen with
    | none => return callee
    | some _ =>
      let args ← arguments expr n
      let closing ← expect .rightParen .closingOfArguments
      calls expr n (.call callee closing args)

def call (expr : Indexed Expr) (n : Nat) : Indexed Expr := do
  calls expr n (← primary expr)

def unary (operand : Indexed Expr) : Nat → Indexed Expr
  | 0 => exhausted
  | n + 1 => do
    match ← acceptFrom UnaryOp.ofKind? with
    | some (op, token) => return .unary op token (← unary operand n)
    | none => operand

def operations (level : Level) (operand : Indexed Expr) : Nat → Expr → Indexed Expr
  | 0, _ => exhausted
  | n + 1, left => do
    match ← acceptFrom level with
    | none => return left
    | some (node, token) =>
      let right ← operand
      operations level operand n (node token left right)

def joined (n : Nat) (operand : Indexed Expr) (level : Level) : Indexed Expr := do
  operations level operand n (← operand)

def operation (expr : Indexed Expr) (n : Nat) : Indexed Expr :=
  Level.all.foldl (joined n) (unary (call expr n) n)

def assignment (expr : Indexed Expr) (n : Nat) : Indexed Expr := do
  let target ← operation expr n
  match ← accept .equal with
  | none => return target
  | some equals =>
    let value ← expr
    match target with
    | .var name => return .assign name value
    | _ =>
      report (.invalidAssignmentTarget equals)
      return target

def expression : Nat → Indexed Expr
  | 0 => exhausted
  | n + 1 => assignment (expression n) (n + 1)

/-! ## Statements -/

def expressionStatement (n : Nat) : Indexed Stmt := do
  let e ← expression n
  let _ ← expect .semicolon .semicolonAfterExpression
  return .expr e

def printRest (n : Nat) (keyword : Token) : Indexed Stmt := do
  let e ← expression n
  let _ ← expect .semicolon .semicolonAfterValue
  return .print keyword e

def declareRest (n : Nat) : Indexed Stmt := do
  let name ← expect .identifier .variableName
  let initial ← match ← accept .equal with
    | some _ => some <$> expression n
    | none => pure none
  let _ ← expect .semicolon .semicolonAfterVariable
  return .declare name initial

def branchRest (n : Nat) (part : Indexed Stmt) : Indexed Stmt := do
  let _ ← expect .leftParen .parenAfterIf
  let test ← expression n
  let _ ← expect .rightParen .closingOfIf
  let yes ← part
  match ← accept .elseKw with
  | some _ => return .branch test yes (some (← part))
  | none => return .branch test yes none

def loopRest (n : Nat) (part : Indexed Stmt) : Indexed Stmt := do
  let _ ← expect .leftParen .parenAfterWhile
  let test ← expression n
  let _ ← expect .rightParen .closingOfWhile
  return .loop test (← part)

def countingInitial (n : Nat) : Indexed (Option Stmt) := do
  match ← accept .semicolon with
  | some _ => return none
  | none =>
    match ← accept .varKw with
    | some _ => some <$> declareRest n
    | none => some <$> expressionStatement n

def optionalBefore (kind : Kind) (n : Nat) : Indexed (Option Expr) := do
  if ← sees kind then return none else some <$> expression n

def countingRest (n : Nat) (part : Indexed Stmt) : Indexed Stmt := do
  let _ ← expect .leftParen .parenAfterFor
  let initial ← countingInitial n
  let test ← optionalBefore .semicolon n
  let _ ← expect .semicolon .semicolonAfterCondition
  let increment ← optionalBefore .rightParen n
  let _ ← expect .rightParen .closingOfFor
  return .counting initial test increment (← part)

/-- Whether a row of declarations goes on. -/
def continues (stop : Option Kind) : Indexed Bool := do
  if ← isAtEnd then return false
  match stop with
  | some kind => return !(← sees kind)
  | none => return true

/-- Declarations up to the end or up to a token of kind `stop`, each of them recorded. -/
def declarations (stop : Option Kind) (item : Indexed Stmt) : Nat → Indexed (List Stmt)
  | 0 => exhausted
  | n + 1 => do
    if ← continues stop then
      let first ← recorded (recover (n + 1) item)
      let rest ← declarations stop item n
      return first.toList ++ rest
    else return []

def blockRest (n : Nat) (item : Indexed Stmt) : Indexed (List Stmt) := do
  let body ← declarations (some .rightBrace) item n
  let _ ← expect .rightBrace .braceAfterBlock
  return body

def parameters (n : Nat) : Indexed (List Token) := do
  if ← sees .rightParen then return []
  else commaSeparated (expect .identifier .parameterName) n

def functionRest (n : Nat) (item : Indexed Stmt) : Indexed Stmt := do
  let name ← expect .identifier .functionName
  let _ ← expect .leftParen .parenAfterFunctionName
  let names ← parameters n
  let _ ← expect .rightParen .closingOfParameters
  let _ ← expect .leftBrace .braceBeforeBody
  return .function name names (← blockRest n item)

/-- A statement that is no declaration, by what it has as parts. -/
def bare (n : Nat) (part : Place → Indexed Stmt) : Indexed Stmt := do
  let token ← current
  match token.kind with
  | .ifKw => let _ ← advance; branchRest n (part .inner)
  | .printKw => let _ ← advance; printRest n token
  | .whileKw => let _ ← advance; loopRest n (part .inner)
  | .forKw => let _ ← advance; countingRest n (part .inner)
  | .leftBrace => let _ ← advance; return .block (← blockRest n (part .outer))
  | _ => expressionStatement (n + 1)

/-- A statement at the given place. Only the outer place has declarations. -/
def statement : Nat → Place → Indexed Stmt
  | 0, _ => exhausted
  | n + 1, .inner => bare n (statement n)
  | n + 1, .outer => do
    match ← accept .varKw with
    | some _ => declareRest n
    | none =>
      match ← accept .functionKw with
      | some _ => functionRest n (statement n .outer)
      | none => bare n (statement n)

def program (n : Nat) : Indexed (List Stmt) :=
  declarations none (statement n .outer) n

end Indexed

/-- The tokens with a mark at their end: their own if they have one there, else one on the line of
the last token. -/
def completed (tokens : List Token) : List Token :=
  if tokens.getLast?.map Token.kind = some .eof then tokens
  else tokens ++ [.eof ((tokens.getLast?.map Token.line).getD 1)]

/-- Parses a token list from its first token on, with an allowance for rounds and nested parts. -/
def Indexed.parse (n : Nat) (tokens : List Token) : Except Breakdown (Step (List Stmt)) :=
  program n (completed tokens) 0

end Sprog
