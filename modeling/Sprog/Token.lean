/-!
# Tokens

A token is a piece of source text with the kind of word it is, the value it stands for if it is a
number or a text, and the line on which it ends. The keywords are Danish.
-/
namespace Sprog

/-- The kinds of words and signs. -/
inductive Kind where
  | leftParen | rightParen | leftBrace | rightBrace
  | comma | dot | minus | plus | semicolon | slash | star
  | bang | bangEqual | equal | equalEqual | greater | greaterEqual | less | lessEqual
  | identifier | string | number
  | andKw | classKw | elseKw | falseKw | functionKw | forKw | ifKw | nilKw | orKw | printKw
  | returnKw | superKw | thisKw | trueKw | varKw | whileKw | maybeKw
  | eof
  deriving DecidableEq, Repr

/-- The value that a number or a text in the source stands for. -/
inductive Literal where
  | number (value : Float)
  | text (value : String)
  deriving DecidableEq, Repr

structure Token where
  kind : Kind
  lexeme : String
  literal : Option Literal
  line : Nat
  deriving DecidableEq, Repr

/-- The mark at the end of the source. -/
def Token.eof (line : Nat) : Token := ⟨.eof, "", none, line⟩

/-- The words with a meaning of their own. -/
def keywords : List (String × Kind) := [
  ("og", .andKw),
  ("klass", .classKw),
  ("ellers", .elseKw),
  ("falsk", .falseKw),
  ("for", .forKw),
  ("gøremål", .functionKw),
  ("hvis", .ifKw),
  ("ingenting", .nilKw),
  ("eller", .orKw),
  ("skriv", .printKw),
  ("returner", .returnKw),
  ("super", .superKw),
  ("dette", .thisKw),
  ("sandt", .trueKw),
  ("sæt", .varKw),
  ("imens", .whileKw),
  ("måske", .maybeKw)]

/-- The kind of a word: a keyword's own, and `identifier` for every other word. -/
def Kind.ofWord (word : String) : Kind :=
  (keywords.lookup word).getD .identifier

end Sprog
