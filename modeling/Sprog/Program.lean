import Sprog.Tokens
import Sprog.Parser.Statement

/-!
# Programs

A source text is a program if it has no fault at all, neither in its characters nor in the order of
its tokens. Parsing goes on behind a lexical fault, so all faults of both sorts are shown together,
ordered by line.
-/
namespace Sprog

namespace Program

/-- The faults of a source text by line; on one line the lexical ones come first. -/
def sortedErrors (lexical grammatical : List Diagnostic) : List Diagnostic :=
  (lexical ++ grammatical).mergeSort fun a b => a.line ≤ b.line

/-- The statements of a source text, or everything that is wrong with it. -/
def ofSource (source : String) : Except (List Diagnostic) (List Stmt) :=
  let tokens := tokenize source
  let parsed := parse tokens.items
  match sortedErrors tokens.errors parsed.errors with
  | [] => .ok parsed.statements
  | errors => .error errors

end Program

end Sprog
