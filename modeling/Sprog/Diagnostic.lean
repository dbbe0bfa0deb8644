import Sprog.Token

/-!
# What can be wrong with a source text

A `Diagnostic` is a fault found before anything runs: a character or a text that makes no token,
or a token that does not fit where it stands. `Diagnostic.text` is how it is shown.
-/
namespace Sprog

/-- What the grammar asks for at a place where something else stands. -/
inductive Expected where
  | expression
  | closingOfGroup
  | closingOfArguments
  | semicolonAfterExpression
  | semicolonAfterValue
  | variableName
  | semicolonAfterVariable
  | functionName
  | parenAfterFunctionName
  | parameterName
  | closingOfParameters
  | braceBeforeBody
  | braceAfterBlock
  | parenAfterIf
  | closingOfIf
  | parenAfterWhile
  | closingOfWhile
  | parenAfterFor
  | semicolonAfterCondition
  | closingOfFor
  deriving DecidableEq, Repr

def Expected.message : Expected → String
  | .expression => "Expect expression."
  | .closingOfGroup => "Expect ')' after expression."
  | .closingOfArguments => "Expect ')' after arguments."
  | .semicolonAfterExpression => "Expect ';' after expression."
  | .semicolonAfterValue => "Expect ';' after value."
  | .variableName => "Expect variable name."
  | .semicolonAfterVariable => "Expect ';' after variable declaration."
  | .functionName => "Expect function name."
  | .parenAfterFunctionName => "Expect '(' after function name."
  | .parameterName => "Expect parameter name."
  | .closingOfParameters => "Expect ')' after parameters."
  | .braceBeforeBody => "Expect '\x7b' before function body."
  | .braceAfterBlock => "Expect '\x7d' after block."
  | .parenAfterIf => "Expect '(' after 'hvis'."
  | .closingOfIf => "Expect ')' after if condition."
  | .parenAfterWhile => "Expect '(' after 'imens'."
  | .closingOfWhile => "Expect ')' after condition."
  | .parenAfterFor => "Expect '(' after 'for'."
  | .semicolonAfterCondition => "Expect ';' after loop condition."
  | .closingOfFor => "Expect ')' after for clauses."

inductive Diagnostic where
  /-- A character that starts no token. -/
  | unexpectedCharacter (line : Nat) (char : Char)
  /-- A text without its closing quote; the line is the last one of the source. -/
  | unterminatedString (line : Nat)
  /-- A token where the grammar asks for something else. -/
  | unexpectedToken (token : Token) (expected : Expected)
  /-- An equals sign after something that is not a bare name. -/
  | invalidAssignmentTarget (equals : Token)
  deriving DecidableEq, Repr

namespace Diagnostic

/-- Whether the fault lies in the characters, not in the order of the tokens. -/
def isLexical : Diagnostic → Bool
  | unexpectedCharacter .. | unterminatedString _ => true
  | unexpectedToken .. | invalidAssignmentTarget _ => false

def line : Diagnostic → Nat
  | unexpectedCharacter line _ | unterminatedString line => line
  | unexpectedToken token _ | invalidAssignmentTarget token => token.line

/-- The token that is blamed. -/
def token? : Diagnostic → Option Token
  | unexpectedCharacter .. | unterminatedString _ => none
  | unexpectedToken token _ | invalidAssignmentTarget token => some token

/-- Where the blamed token stands, in words. -/
def location? (d : Diagnostic) : Option String :=
  d.token?.map fun token =>
    if token.kind = .eof then "at end" else "at '" ++ token.lexeme ++ "'"

def message : Diagnostic → String
  | unexpectedCharacter .. => "Unexpected character."
  | unterminatedString _ => "Unterminated string."
  | unexpectedToken _ expected => expected.message
  | invalidAssignmentTarget _ => "Invalid assignment target."

/-- The line as it is shown to the user. -/
def text (d : Diagnostic) : String :=
  let place := match d.location? with
    | some location => " " ++ location
    | none => ""
  "[line " ++ toString d.line ++ "] Error" ++ place ++ ": " ++ d.message

end Diagnostic

example : (Diagnostic.unexpectedToken (.eof 7) .braceAfterBlock).text =
    "[line 7] Error at end: Expect '\x7d' after block." := by
  decide

end Sprog
