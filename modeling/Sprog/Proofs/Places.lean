import Sprog.Proofs.Munch
import Sprog.Proofs.Ordering

/-!
# The lines of a source text

The line of a token or of a lexical fault is one more than the number of line feeds up to the end of
its segment. Nothing else has a part in it: neither which segments those line feeds are in, of their
own, in a comment's end or in a text in quotes, nor what was read before.

* `Segment.places`: the segments of a text with what stands before each of them.
* `Segment.collect_eq_filterMap`: counting lines along the way and counting them from the start.
* `Longest.rest_eq_nil`: nothing follows a text that is left open.
* `tokenize_lines`: the lines of tokens and faults.
-/
namespace Sprog

namespace Segment

/-! ## Segments in their places -/

/-- A segment and the text before it. -/
structure Place where
  before : List Char
  segment : Segment

namespace Place

/-- The text up to the end of the segment. -/
def upTo (p : Place) : List Char := p.before ++ p.segment.text

/-- The line on which the segment ends. -/
def line (p : Place) : Nat := 1 + p.upTo.count '\n'

end Place

/-- The segments one behind the other, the first one behind `before`. -/
def places (before : List Char) : List Segment → List Place
  | [] => []
  | s :: ss => ⟨before, s⟩ :: places (before ++ s.text) ss

/-- A place in a division is a part of the text, with the segment as the longest one there. -/
theorem Division.exists_after {cs : List Char} {ss : List Segment} (h : Division cs ss)
    {before : List Char} {p : Place} (hp : p ∈ places before ss) :
    ∃ after, before ++ cs = p.upTo ++ after ∧ Longest p.segment after := by
  induction h generalizing before with
  | nil => cases hp
  | @cons s rest ss hs _ ih =>
    rcases List.mem_cons.1 hp with rfl | hp
    · exact ⟨rest, (List.append_assoc ..).symm, hs⟩
    · obtain ⟨after, hafter, hlongest⟩ := ih hp
      exact ⟨after, List.append_assoc .. ▸ hafter, hlongest⟩

/-- To count the lines from segment to segment is to count them from the start. -/
theorem collect_eq_filterMap {α : Type} (f : Segment → Nat → Option α) (before : List Char)
    (ss : List Segment) : collect f (1 + before.count '\n') ss =
      (places before ss).filterMap fun p => f p.segment p.line := by
  induction ss generalizing before with
  | nil => rfl
  | cons s ss ih =>
    have hline : s.endsOn (1 + before.count '\n') = 1 + (before ++ s.text).count '\n' := by
      rw [endsOn, List.count_append, Nat.add_assoc]
    have hplace : (Place.mk before s).line = 1 + (before ++ s.text).count '\n' := rfl
    rw [collect, places, List.filterMap_cons, hline, ih, hplace]
    cases f s (1 + (before ++ s.text).count '\n') <;> rfl

/-! ## The places of faults -/

/-- Nothing follows a text that is left open. -/
theorem Longest.rest_eq_nil {s : Segment} {rest : List Char} (h : Longest s rest)
    (hrole : s.role = .unterminated) : rest = [] := by
  obtain ⟨c, cs, hc⟩ := List.exists_cons_of_ne_nil h.1.text_ne_nil
  have hnext : next c (cs ++ rest) = (s, rest) := h.eq_next (by rw [hc, List.cons_append])
  obtain rfl : '"' = c := by
    cases h.1 with
    | unexpected => cases hrole
    | regular hs =>
      cases hs with
      | unterminated => exact (List.cons_eq_cons.1 hc).1
      | blank | newline | comment | sign | string | integer | decimal | keyword | identifier =>
        cases hrole
  have hquoted : quoted (cs ++ rest) = (s, rest) := hnext
  unfold quoted at hquoted
  dsimp only at hquoted
  split at hquoted
  · exact (Prod.mk.inj hquoted).2.symm
  · obtain ⟨rfl, -⟩ := Prod.mk.inj hquoted
    cases hrole

/-- An unexpected character is a segment by itself, and no line feed. -/
theorem Fits.text_of_unexpected {s : Segment} (h : Fits s) {c : Char}
    (hrole : s.role = .unexpected c) : s.text = [c] ∧ c ≠ '\n' := by
  cases h with
  | regular hs => cases hs <;> cases hrole
  | unexpected hnone =>
    cases hrole
    exact ⟨rfl, fun hc => hnone _ .newline (by rw [hc]; rfl)⟩

end Segment

open Segment

/-- Line numbers are exact. A source text falls into its segments, and the line of what a segment
gives, a token or a fault, is one more than the number of line feeds up to the end of the segment in
its place; the mark at the end is on the last line. So a text that is left open is reported on the
last line, and an unexpected character on the line in which it stands, and the lines never go down,
neither along the tokens nor along the faults. -/
theorem tokenize_lines (source : String) : ∃ segments,
    Division source.toList segments ∧
    (∀ p ∈ places [] segments, p.upTo <+: source.toList) ∧
    (tokenize source).items =
      ((places [] segments).filterMap fun p => p.segment.token? p.line) ++
        [.eof (1 + source.toList.count '\n')] ∧
    (tokenize source).errors = ((places [] segments).filterMap fun p => p.segment.fault? p.line) ∧
    (∀ p ∈ places [] segments, p.segment.role = .unterminated →
      p.line = 1 + source.toList.count '\n') ∧
    (∀ p ∈ places [] segments, ∀ c, p.segment.role = .unexpected c →
      p.segment.text = [c] ∧ p.line = 1 + p.before.count '\n') ∧
    (tokenize source).items.Pairwise (·.line ≤ ·.line) ∧
    (tokenize source).errors.Pairwise (·.line ≤ ·.line) := by
  have hdivision : Division source.toList (divide source.toList) := division_iff.2 rfl
  have htokens := collect_eq_filterMap token? [] (divide source.toList)
  have hfaults := collect_eq_filterMap fault? [] (divide source.toList)
  refine ⟨divide source.toList, hdivision, ?prefixes, ?tokens, ?faults, ?unterminated, ?unexpected,
    pairwise_line_items source, pairwise_line_errors source⟩
  case prefixes =>
    intro p hp
    obtain ⟨after, hafter, -⟩ := hdivision.exists_after hp
    exact ⟨after, hafter.symm⟩
  case tokens => rw [tokenize_eq, ← htokens]; rfl
  case faults => rw [tokenize_eq, ← hfaults]; rfl
  case unterminated =>
    intro p hp hrole
    obtain ⟨after, hafter, hlongest⟩ := hdivision.exists_after hp
    rw [hlongest.rest_eq_nil hrole, List.nil_append, List.append_nil] at hafter
    rw [Place.line, hafter]
  case unexpected =>
    intro p hp c hrole
    obtain ⟨_, -, hlongest⟩ := hdivision.exists_after hp
    obtain ⟨htext, hc⟩ := hlongest.1.text_of_unexpected hrole
    have hnone : [c].count '\n' = 0 := List.count_eq_zero.2 (by simpa using hc.symm)
    refine ⟨htext, ?_⟩
    rw [Place.line, Place.upTo, htext, List.count_append, hnone, Nat.add_zero]

/-- A text in quotes is on the line of its closing quote, and what a comment holds counts only from
the end of its line. -/
example : ((tokenize "\"a\nb\" // c\n# d").items.map Token.line,
    (tokenize "\"a\nb\" // c\n# d").errors.map Diagnostic.line) = ([2, 3, 3], [3]) := by
  decide +kernel

end Sprog
