import Sprog.Proofs.Bound
import Sprog.Proofs.Reading

/-!
# Rows of declarations

A row of declarations goes on round by round until it meets its end. A round gives a declaration,
or reports why there is none; the row itself never fails. With a bound that holds it always reaches
its end, so a program is always read to the last token.

* `declarations_stop`, `declarations_next`: the rounds.
* `exists_program`: a program is read to the end, whatever is in it.
* `parse_eq_iff_program`: what the parser of whole token lists gives in those terms.
-/
namespace Sprog

namespace Parser

section
variable {stop : Option Kind} {item : Parser Stmt} {eof : Token} {ts : List Token}

/-- The row is at its end. -/
def Ended (stop : Option Kind) (ts : List Token) : Prop := ts = [] ∨ headKind ts = stop

instance (stop : Option Kind) (ts : List Token) : Decidable (Ended stop ts) :=
  inferInstanceAs (Decidable (ts = [] ∨ headKind ts = stop))

theorem continues_eq (stop : Option Kind) (eof : Token) (ts : List Token) :
    continues stop eof ts = ⟨.ok (!decide (Ended stop ts)), ts, []⟩ := by
  cases ts with
  | nil => simp [continues, Ended]
  | cons t ts => by_cases hk : some t.kind = stop <;> simp [continues, Ended, hk]

theorem declarations_stop (h : Ended stop ts) :
    ∀ n, declarations stop item n eof ts = ⟨.ok [], ts, []⟩
  | 0 => rfl
  | n + 1 => by
    rw [declarations, bind_ok (continues_eq stop eof ts)]
    simp only [h, decide_true, Bool.not_true, Bool.false_eq_true, if_false]
    rfl

theorem declarations_next (h : ¬ Ended stop ts) {first : Option Stmt} {mid : List Token}
    {reports : List Diagnostic} (hr : recover item eof ts = ⟨.ok first, mid, reports⟩) {n : Nat}
    {ss : List Stmt} {rest : List Token} {reports' : List Diagnostic}
    (hd : declarations stop item n eof mid = ⟨.ok ss, rest, reports'⟩) :
    declarations stop item (n + 1) eof ts =
      ⟨.ok (first.toList ++ ss), rest, reports ++ reports'⟩ := by
  rw [declarations, bind_ok (continues_eq stop eof ts)]
  simp only [h, decide_false, Bool.not_false, if_true]
  rw [bind_ok hr, bind_ok hd]
  simp [pure, Parser.pure]

theorem exists_recover {α : Type} (p : Parser α) (eof : Token) (ts : List Token) :
    ∃ first mid reports, recover p eof ts = ⟨.ok first, mid, reports⟩ := by
  rcases hi : p eof ts with ⟨e | a, mid, reports⟩
  · exact ⟨none, _, _, recover_error hi⟩
  · exact ⟨some a, _, _, recover_ok hi⟩

/-- A row of declarations never fails. -/
theorem exists_declarations (stop : Option Kind) (item : Parser Stmt) (eof : Token) :
    ∀ (n : Nat) (ts : List Token),
      ∃ ss rest reports, declarations stop item n eof ts = ⟨.ok ss, rest, reports⟩
  | 0, ts => ⟨[], ts, [], rfl⟩
  | n + 1, ts => by
    by_cases h : Ended stop ts
    · exact ⟨[], ts, [], declarations_stop h _⟩
    · obtain ⟨first, mid, reports, hr⟩ := exists_recover item eof ts
      obtain ⟨ss, rest, reports', hd⟩ := exists_declarations stop item eof n mid
      exact ⟨_, _, _, declarations_next h hr hd⟩

/-- A row of declarations gets to its end if every item takes a token. -/
theorem declarations_rest (hs : Shrinks item) (hc : Consumes item) (he : eof.kind = .eof) :
    ∀ (n : Nat) (ts : List Token), ts.length ≤ n →
      Ended stop (declarations stop item n eof ts).rest
  | 0, ts, hn => .inl (List.length_eq_zero_iff.1 (Nat.le_zero.1 hn))
  | n + 1, ts, hn => by
    by_cases h : Ended stop ts
    · rwa [declarations_stop h]
    · obtain ⟨first, mid, reports, hr⟩ := exists_recover item eof ts
      obtain ⟨ss, rest, reports', hd⟩ := exists_declarations stop item eof n mid
      have hlt : mid.length < ts.length := by
        simpa only [hr] using recover_rest_lt hs hc he fun hnil => h (.inl hnil)
      have hrest := declarations_rest hs hc he n mid (by omega)
      rw [declarations_next h hr hd]
      rwa [hd] at hrest

end

/-- A program is read to the end, whatever is in it. -/
theorem exists_program {eof : Token} (he : eof.kind = .eof) {n : Nat} {ts : List Token}
    (hn : ts.length ≤ n) : ∃ ss reports, program n eof ts = ⟨.ok ss, [], reports⟩ := by
  obtain ⟨ss, rest, reports, h⟩ := exists_declarations none (statement n .outer) eof n ts
  have hend : Ended none (declarations none (statement n .outer) n eof ts).rest :=
    declarations_rest (shrinks_closed.statement n .outer) (consumes_statement n .outer) he n ts hn
  rw [h] at hend
  cases rest with
  | nil => exact ⟨ss, reports, h⟩
  | cons t rest => rcases hend with hend | hend <;> cases hend

end Parser

/-! ## Whole token lists -/

theorem endMark_kind (ts : List Token) : (endMark ts).kind = .eof := by
  unfold endMark
  cases h : ts.find? (·.kind == .eof) with
  | none => rfl
  | some t => simpa using List.find?_some h

theorem beforeEnd_append {ts : List Token} (h : ∀ t ∈ ts, t.kind ≠ .eof) (us : List Token) :
    beforeEnd (ts ++ us) = ts ++ beforeEnd us :=
  List.takeWhile_append_of_pos fun t ht => by simpa using h t ht

theorem beforeEnd_eq_self {ts : List Token} (h : ∀ t ∈ ts, t.kind ≠ .eof) : beforeEnd ts = ts := by
  simpa [beforeEnd] using beforeEnd_append h []

/-- The parser of whole token lists gives what the program in front of the end mark gives, with any
bound that holds. -/
theorem parse_eq_iff_program {ts : List Token} {n : Nat} (hn : (beforeEnd ts).length ≤ n)
    {ss : List Stmt} {errors : List Diagnostic} :
    parse ts = ⟨ss, errors⟩ ↔
      Parser.program n (endMark ts) (beforeEnd ts) = ⟨.ok ss, [], errors⟩ := by
  have he := endMark_kind ts
  rw [← Parser.agree_program (Nat.le_refl _) hn (endMark ts) (beforeEnd ts) he (Nat.le_refl _)]
  obtain ⟨ss', reports, h⟩ := Parser.exists_program he (Nat.le_refl (beforeEnd ts).length)
  simp only [parse, h, Except.toOption, Option.getD_some, ParseResult.mk.injEq, Step.mk.injEq,
    Except.ok.injEq, true_and]

end Sprog
