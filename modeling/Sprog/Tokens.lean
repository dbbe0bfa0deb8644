import Sprog.Diagnostic
import Sprog.Segment

/-!
# The tokens of a source text

`tokenize` numbers the lines of the segments of a text. Lines count from one, and a segment lies on
the line on which it ends: a text that goes over several lines carries the line of its closing
quote. Only line feeds between segments and those inside quotes are counted; there are no others.
-/
namespace Sprog

/-- The tokens of a source text, and what in it makes no token. -/
structure Tokens where
  items : List Token
  errors : List Diagnostic
  deriving DecidableEq, Repr

/-- The line that is reached behind a segment if it starts on the given line. -/
def Segment.lastLine (s : Segment) (line : Nat) : Nat :=
  match s.role with
  | .newline => line + 1
  | .token .string _ | .unterminated => line + s.text.count '\n'
  | .blank | .comment | .token .. | .unexpected _ => line

/-- What a segment adds to the tokens and errors that follow it. -/
def Tokens.prepend (s : Segment) (line : Nat) (after : Tokens) : Tokens :=
  match s.role with
  | .blank | .newline | .comment => after
  | .token kind literal =>
    { after with items := ⟨kind, String.ofList s.text, literal, line⟩ :: after.items }
  | .unterminated => { after with errors := .unterminatedString line :: after.errors }
  | .unexpected char => { after with errors := .unexpectedCharacter line char :: after.errors }

/-- The tokens and errors of segments of which the first starts on the given line. -/
def Tokens.ofSegments (line : Nat) : List Segment → Tokens
  | [] => ⟨[.eof line], []⟩
  | s :: rest => .prepend s (s.lastLine line) (.ofSegments (s.lastLine line) rest)

/-- The tokens of a source text in order, closed by the mark at its end, and its errors. -/
def tokenize (source : String) : Tokens :=
  .ofSegments 1 (Segment.divide source.toList)

end Sprog
