import Sprog.Parser.Expression

/-!
# Parsing statements and whole programs

Declarations stand at the top level and directly in blocks; the parts of a branch or a loop are
statements and never bare declarations. A declaration that fails is reported and left out, and
parsing goes on behind it, also inside a block.

* `parse`: the statements of a token list and the faults found in it.
-/
namespace Sprog

/-- Where a statement stands. -/
inductive Place where
  /-- At the top level or directly in a block. -/
  | outer
  /-- As a part of a branch or a loop. -/
  | inner
  deriving DecidableEq, Repr

namespace Parser

def expressionStatement (n : Nat) : Parser Stmt := do
  let e ← expression n
  let _ ← expect .semicolon .semicolonAfterExpression
  return .expr e

/-- A print statement behind its keyword. -/
def printRest (n : Nat) (keyword : Token) : Parser Stmt := do
  let e ← expression n
  let _ ← expect .semicolon .semicolonAfterValue
  return .print keyword e

/-- A variable declaration behind its keyword. -/
def declareRest (n : Nat) : Parser Stmt := do
  let name ← expect .identifier .variableName
  let initial ← match ← accept .equal with
    | some _ => some <$> expression n
    | none => pure none
  let _ ← expect .semicolon .semicolonAfterVariable
  return .declare name initial

/-- A branch behind its keyword. -/
def branchRest (n : Nat) (part : Parser Stmt) : Parser Stmt := do
  let _ ← expect .leftParen .parenAfterIf
  let test ← expression n
  let _ ← expect .rightParen .closingOfIf
  let yes ← part
  match ← accept .elseKw with
  | some _ => return .branch test yes (some (← part))
  | none => return .branch test yes none

/-- A loop behind its keyword. -/
def loopRest (n : Nat) (part : Parser Stmt) : Parser Stmt := do
  let _ ← expect .leftParen .parenAfterWhile
  let test ← expression n
  let _ ← expect .rightParen .closingOfWhile
  return .loop test (← part)

/-- The initial part of a counting loop, its semicolon included. -/
def countingInitial (n : Nat) : Parser (Option Stmt) := do
  match ← accept .semicolon with
  | some _ => return none
  | none =>
    match ← accept .varKw with
    | some _ => some <$> declareRest n
    | none => some <$> expressionStatement n

/-- An expression that may be missing in front of a token of the given kind. -/
def optionalBefore (kind : Kind) (n : Nat) : Parser (Option Expr) := do
  if ← sees kind then return none else some <$> expression n

/-- A counting loop behind its keyword. -/
def countingRest (n : Nat) (part : Parser Stmt) : Parser Stmt := do
  let _ ← expect .leftParen .parenAfterFor
  let initial ← countingInitial n
  let test ← optionalBefore .semicolon n
  let _ ← expect .semicolon .semicolonAfterCondition
  let increment ← optionalBefore .rightParen n
  let _ ← expect .rightParen .closingOfFor
  return .counting initial test increment (← part)

/-- Whether there is a token left that is not of the given kind. -/
def continues (stop : Option Kind) : Parser Bool :=
  fun _ ts => ⟨.ok (ts.head?.any fun t => some t.kind != stop), ts, []⟩

/-- Declarations up to the end or up to a token of kind `stop`; those that fail are left out. `n`
bounds the tokens left. -/
def declarations (stop : Option Kind) (item : Parser Stmt) : Nat → Parser (List Stmt)
  | 0 => return []
  | n + 1 => do
    if ← continues stop then
      let first ← recover item
      let rest ← declarations stop item n
      return first.toList ++ rest
    else return []

/-- The declarations of a block and its closing brace. -/
def blockRest (n : Nat) (item : Parser Stmt) : Parser (List Stmt) := do
  let body ← declarations (some .rightBrace) item n
  let _ ← expect .rightBrace .braceAfterBlock
  return body

/-- The names between the parentheses of a function declaration. -/
def parameters (n : Nat) : Parser (List Token) := do
  if ← sees .rightParen then return []
  else commaSeparated (expect .identifier .parameterName) n

/-- A function declaration behind its keyword. -/
def functionRest (n : Nat) (item : Parser Stmt) : Parser Stmt := do
  let name ← expect .identifier .functionName
  let _ ← expect .leftParen .parenAfterFunctionName
  let names ← parameters n
  let _ ← expect .rightParen .closingOfParameters
  let _ ← expect .leftBrace .braceBeforeBody
  return .function name names (← blockRest n item)

/-- A statement at the given place, when at most `n` tokens are left. -/
def statement : Nat → Place → Parser Stmt
  | 0, _ => expressionStatement 0
  | n + 1, place => do
    let token ← current
    match token.kind, place with
    | .varKw, .outer => skip; declareRest n
    | .functionKw, .outer => skip; functionRest n (statement n .outer)
    | .ifKw, _ => skip; branchRest n (statement n .inner)
    | .printKw, _ => skip; printRest n token
    | .whileKw, _ => skip; loopRest n (statement n .inner)
    | .forKw, _ => skip; countingRest n (statement n .inner)
    | .leftBrace, _ => skip; return .block (← blockRest n (statement n .outer))
    | _, _ => expressionStatement (n + 1)

/-- All declarations up to the end, when at most `n` tokens are left. -/
def program (n : Nat) : Parser (List Stmt) :=
  declarations none (statement n .outer) n

end Parser

/-- The statements of a token list and the faults found in it, in the order of their report. -/
structure ParseResult where
  statements : List Stmt
  errors : List Diagnostic
  deriving Repr

/-- The mark at which parsing ends: the first one in the list, or one on the line of the last token
if the list has none. -/
def endMark (tokens : List Token) : Token :=
  (tokens.find? (·.kind == .eof)).getD (.eof ((tokens.getLast?.map Token.line).getD 1))

/-- The tokens before the first mark of the end. -/
def beforeEnd (tokens : List Token) : List Token :=
  tokens.takeWhile (·.kind != .eof)

/-- Parses the tokens before the first mark of the end. -/
def parse (tokens : List Token) : ParseResult :=
  let ts := beforeEnd tokens
  let step := Parser.program ts.length (endMark tokens) ts
  ⟨step.result.toOption.getD [], step.reports⟩

end Sprog
