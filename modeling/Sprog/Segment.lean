import Sprog.Number.Shortest
import Sprog.Text.Alphabetic
import Sprog.Token

/-!
# Segments of a source text

A source text falls into segments: tokens, what is skipped between them, and what fits nowhere.
The first character of a segment decides what it is, and it is as long as that allows.
`Segment.next` cuts off the first segment and `Segment.divide` goes through the whole text.

* `Segment.text_append_next`: a cut loses nothing.
* `Segment.length_next`: what is left is shorter, so the division ends.
-/
namespace Sprog

/-- Signs that are a token by themselves, whatever follows. -/
def Kind.ofSign? : Char → Option Kind
  | '(' => some .leftParen
  | ')' => some .rightParen
  | '{' => some .leftBrace
  | '}' => some .rightBrace
  | ',' => some .comma
  | '.' => some .dot
  | '-' => some .minus
  | '+' => some .plus
  | ';' => some .semicolon
  | '*' => some .star
  | _ => none

/-- Signs that a following equals sign belongs to: the kinds without it and with it. -/
def Kind.ofOperator? : Char → Option (Kind × Kind)
  | '!' => some (.bang, .bangEqual)
  | '=' => some (.equal, .equalEqual)
  | '<' => some (.less, .lessEqual)
  | '>' => some (.greater, .greaterEqual)
  | _ => none

/-- Characters that a name may start with. -/
def isNameStart (c : Char) : Bool :=
  c == '_' || Text.isAlphabetic c

/-- Characters that a name may go on with. -/
def isNameChar (c : Char) : Bool :=
  isNameStart c || c.isDigit

namespace Segment

/-- What a segment is. -/
inductive Role where
  /-- A space, a tab or a carriage return. -/
  | blank
  | newline
  /-- From two slashes up to the end of the line. -/
  | comment
  | token (kind : Kind) (literal : Option Literal)
  /-- From a quote to the end of the source, where no second quote follows. -/
  | unterminated
  /-- What makes no token, by its first character: one that starts no other segment, or a text that
  should be a number and stands for none. -/
  | unexpected (char : Char)
  deriving DecidableEq, Repr

end Segment

structure Segment where
  text : List Char
  role : Segment.Role
  deriving DecidableEq, Repr

namespace Segment

/-- A segment that starts with a slash. -/
def slash (cs : List Char) : Segment × List Char :=
  match cs with
  | '/' :: cs =>
    (⟨'/' :: '/' :: cs.takeWhile (· != '\n'), .comment⟩, cs.dropWhile (· != '\n'))
  | cs => (⟨['/'], .token .slash none⟩, cs)

/-- A segment that starts with a sign which an equals sign may extend. -/
def operator (c : Char) (short long : Kind) (cs : List Char) : Segment × List Char :=
  match cs with
  | '=' :: cs => (⟨[c, '='], .token long none⟩, cs)
  | cs => (⟨[c], .token short none⟩, cs)

/-- A segment that starts with a quote; the text may go over several lines. -/
def quoted (cs : List Char) : Segment × List Char :=
  let body := cs.takeWhile (· != '"')
  match cs.dropWhile (· != '"') with
  | [] => (⟨'"' :: body, .unterminated⟩, [])
  | _ :: rest =>
    (⟨'"' :: body ++ ['"'], .token .string (some (.text (String.ofList body)))⟩, rest)

/-- The characters that go on with a number, and what follows them. A point belongs to them only if
a digit follows. -/
def numeral (cs : List Char) : List Char × List Char :=
  let whole := cs.takeWhile Char.isDigit
  match cs.dropWhile Char.isDigit with
  | '.' :: d :: rest =>
    if d.isDigit then
      (whole ++ '.' :: d :: rest.takeWhile Char.isDigit, rest.dropWhile Char.isDigit)
    else (whole, '.' :: d :: rest)
  | rest => (whole, rest)

/-- A segment that starts with a digit. The conversion of its text may fail. -/
def number (c : Char) (cs : List Char) : Segment × List Char :=
  let (body, rest) := numeral cs
  let text := c :: body
  match Number.ofText? text with
  | some x => (⟨text, .token .number (some (.number x))⟩, rest)
  | none => (⟨text, .unexpected c⟩, rest)

/-- A segment that starts a name. -/
def word (c : Char) (cs : List Char) : Segment × List Char :=
  let text := c :: cs.takeWhile isNameChar
  (⟨text, .token (.ofWord (String.ofList text)) none⟩, cs.dropWhile isNameChar)

/-- The first segment of the text `c :: cs`, and what follows it. -/
def next (c : Char) (cs : List Char) : Segment × List Char :=
  match Kind.ofSign? c, Kind.ofOperator? c with
  | some kind, _ => (⟨[c], .token kind none⟩, cs)
  | none, some (short, long) => operator c short long cs
  | none, none =>
    if c = '/' then slash cs
    else if c = ' ' ∨ c = '\r' ∨ c = '\t' then (⟨[c], .blank⟩, cs)
    else if c = '\n' then (⟨[c], .newline⟩, cs)
    else if c = '"' then quoted cs
    else if c.isDigit then number c cs
    else if isNameStart c then word c cs
    else (⟨[c], .unexpected c⟩, cs)

theorem text_append_slash (cs : List Char) : (slash cs).1.text ++ (slash cs).2 = '/' :: cs := by
  unfold slash
  split <;> simp [List.takeWhile_append_dropWhile]

theorem text_append_operator (c : Char) (short long : Kind) (cs : List Char) :
    (operator c short long cs).1.text ++ (operator c short long cs).2 = c :: cs := by
  unfold operator
  split <;> simp

theorem text_append_quoted (cs : List Char) : (quoted cs).1.text ++ (quoted cs).2 = '"' :: cs := by
  have hsplit := List.takeWhile_append_dropWhile (p := fun c => c != '"') (l := cs)
  unfold quoted
  split
  · rename_i h
    rw [h] at hsplit
    simpa using hsplit
  · rename_i q rest h
    have hq : q = '"' := by
      have := List.head?_dropWhile_not (fun c => c != '"') cs
      rw [h] at this
      simpa using this
    rw [h, hq] at hsplit
    simpa using hsplit

theorem append_numeral (cs : List Char) : (numeral cs).1 ++ (numeral cs).2 = cs := by
  have hsplit := List.takeWhile_append_dropWhile (p := Char.isDigit) (l := cs)
  unfold numeral
  dsimp only
  split
  · rename_i d rest h
    split
    · simpa [h] using hsplit
    · simpa [h] using hsplit
  · exact hsplit

theorem text_number (c : Char) (cs : List Char) : (number c cs).1.text = c :: (numeral cs).1 := by
  unfold number
  dsimp only
  split <;> rfl

theorem rest_number (c : Char) (cs : List Char) : (number c cs).2 = (numeral cs).2 := by
  unfold number
  dsimp only
  split <;> rfl

/-- A cut loses nothing. -/
theorem text_append_next (c : Char) (cs : List Char) :
    (next c cs).1.text ++ (next c cs).2 = c :: cs := by
  unfold next
  split
  · simp
  · exact text_append_operator ..
  · split
    · rename_i h; rw [h]; exact text_append_slash cs
    split
    · simp
    split
    · simp
    split
    · rename_i h; rw [h]; exact text_append_quoted cs
    split
    · rw [text_number, rest_number, List.cons_append, append_numeral]
    split
    · simp [word, List.takeWhile_append_dropWhile]
    · simp

/-- No segment is empty. -/
theorem text_next_ne_nil (c : Char) (cs : List Char) : (next c cs).1.text ≠ [] := by
  unfold next
  split
  · simp
  · unfold operator; split <;> simp
  · split
    · unfold slash; split <;> simp
    split
    · simp
    split
    · simp
    split
    · unfold quoted; dsimp only; split <;> simp
    split
    · simp [text_number]
    split
    · simp [word]
    · simp

/-- What follows a segment is shorter than the text it was cut from. -/
theorem length_next (c : Char) (cs : List Char) : (next c cs).2.length < (c :: cs).length := by
  have h := congrArg List.length (text_append_next c cs)
  have := List.length_pos_iff.2 (text_next_ne_nil c cs)
  rw [List.length_append] at h
  omega

/-- The segments of a text. -/
def divide : List Char → List Segment
  | [] => []
  | c :: cs => (next c cs).1 :: divide (next c cs).2
termination_by cs => cs.length
decreasing_by exact length_next c cs

end Segment

end Sprog
