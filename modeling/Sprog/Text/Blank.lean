import Sprog.Text.Ranges

/-!
# White space and lines

`isBlank` is the Unicode property White_Space. `trimEnd` removes it from the end of a text, and
`lines` divides a text into its lines.
-/
namespace Sprog.Text

/-- The code points with the property White_Space. -/
def blankRanges : Ranges := [
  (0x9, 0xd), (0x20, 0x20), (0x85, 0x85), (0xa0, 0xa0), (0x1680, 0x1680), (0x2000, 0x200a),
  (0x2028, 0x2029), (0x202f, 0x202f), (0x205f, 0x205f), (0x3000, 0x3000)]

/-- Whether `c` is white space. -/
def isBlank (c : Char) : Bool :=
  blankRanges.has c.toNat

/-- The text without the white space at its end. -/
def trimEnd (cs : List Char) : List Char :=
  (cs.reverse.dropWhile isBlank).reverse

/-- The lines of a text, each without its line feed. What follows the last line feed is a line of
its own unless it is empty, so the empty text has no lines. -/
def lines : List Char → List (List Char)
  | [] => []
  | c :: cs =>
    if c = '\n' then [] :: lines cs
    else match lines cs with
      | [] => [[c]]
      | line :: rest => (c :: line) :: rest

example : lines "a\nb\n\nc".toList = ["a".toList, "b".toList, [], "c".toList] := by decide

example : trimEnd "a b \r\u2003".toList = "a b".toList := by decide

end Sprog.Text
