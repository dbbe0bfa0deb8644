import Sprog.Diagnostic

/-!
# Parsers

A parser reads tokens from the front of a list. It ends with a result or with the diagnostic that
stopped it, and leaves the tokens it did not read. On the way it may report faults that do not
stop it. The mark at the end of the source is not in the list: it is the token a parser sees, and
blames, when the list is empty.

* `Parser.expect`: the only way to demand a token.
* `Parser.recover`: where parsing goes on after a fault.
-/
namespace Sprog

/-- How a parser ended: its result, the tokens left, and the faults reported in order. -/
structure Step (α : Type) where
  result : Except Diagnostic α
  rest : List Token
  reports : List Diagnostic

/-- A parser for `α`: given the mark at the end and the tokens before it. -/
def Parser (α : Type) := Token → List Token → Step α

namespace Parser

variable {α β : Type}

protected def pure (a : α) : Parser α :=
  fun _ ts => ⟨.ok a, ts, []⟩

protected def bind (p : Parser α) (f : α → Parser β) : Parser β :=
  fun eof ts =>
    match p eof ts with
    | ⟨.error e, rest, reports⟩ => ⟨.error e, rest, reports⟩
    | ⟨.ok a, rest, reports⟩ =>
      let s := f a eof rest
      ⟨s.result, s.rest, reports ++ s.reports⟩

instance : Monad Parser where
  pure := Parser.pure
  bind := Parser.bind

/-- The next token, which stays where it is. -/
def current : Parser Token :=
  fun eof ts => ⟨.ok (ts.headD eof), ts, []⟩

/-- Passes over the next token. -/
def skip : Parser Unit :=
  fun _ ts => ⟨.ok (), ts.tail, []⟩

/-- Stops at the next token. -/
def fail (expected : Expected) : Parser α :=
  fun eof ts => ⟨.error (.unexpectedToken (ts.headD eof) expected), ts, []⟩

/-- Reports a fault and goes on. -/
def report (d : Diagnostic) : Parser Unit :=
  fun _ ts => ⟨.ok (), ts, [d]⟩

/-- Whether the next token is of the given kind. -/
def sees (kind : Kind) : Parser Bool :=
  fun _ ts => ⟨.ok (ts.head?.any (·.kind == kind)), ts, []⟩

/-- Reads the next token if the table has an entry for its kind. -/
def acceptFrom (table : Kind → Option α) : Parser (Option (α × Token)) :=
  fun _ ts =>
    match ts with
    | [] => ⟨.ok none, [], []⟩
    | t :: rest =>
      match table t.kind with
      | some a => ⟨.ok (some (a, t)), rest, []⟩
      | none => ⟨.ok none, t :: rest, []⟩

/-- Reads the next token if it is of the given kind. -/
def accept (kind : Kind) : Parser (Option Token) :=
  fun _ ts =>
    match ts with
    | [] => ⟨.ok none, [], []⟩
    | t :: rest => if t.kind = kind then ⟨.ok (some t), rest, []⟩ else ⟨.ok none, t :: rest, []⟩

/-- Reads a token of the given kind, and stops at any other. -/
def expect (kind : Kind) (expected : Expected) : Parser Token := do
  match ← accept kind with
  | some t => return t
  | none => fail expected

/-- One or more items with commas between them. `n` bounds the tokens left. -/
def commaSeparated (item : Parser α) : Nat → Parser (List α)
  | 0 => do return [← item]
  | n + 1 => do
    let first ← item
    match ← accept .comma with
    | none => return [first]
    | some _ => return first :: (← commaSeparated item n)

/-! ## Going on after a fault -/

/-- Keywords that start a statement or a declaration. -/
def startsStatement : Kind → Bool
  | .classKw | .functionKw | .varKw | .forKw | .ifKw | .whileKw | .printKw | .returnKw => true
  | _ => false

/-- Passes over tokens until the one passed last is a semicolon or the next one starts a
statement. -/
def resume (last : Token) : List Token → List Token
  | [] => []
  | t :: rest =>
    if last.kind = .semicolon ∨ startsStatement t.kind then t :: rest else resume t rest

/-- Where parsing goes on after it stopped in front of the given tokens. The token it stopped at is
always passed over. -/
def afterFault : List Token → List Token
  | [] => []
  | t :: rest => resume t rest

/-- Runs a parser whose failure is reported and does not stop what follows. -/
def recover (p : Parser α) : Parser (Option α) :=
  fun eof ts =>
    match p eof ts with
    | ⟨.ok a, rest, reports⟩ => ⟨.ok (some a), rest, reports⟩
    | ⟨.error e, rest, reports⟩ => ⟨.ok none, afterFault rest, reports ++ [e]⟩

end Parser

end Sprog
