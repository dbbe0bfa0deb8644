import Mathlib.Data.Finset.Lattice.Fold
import Mathlib.Data.Finset.Range
import Sprog.Proofs.Tolerance

/-!
# The first unexpected token

What a program takes up to its first unexpected token can be completed, and what can be completed is
taken without one. A parser decides by the next token alone, so the two together say where the first
unexpected token stands: right behind the longest row of tokens at the front that can still be
completed to a program without the rule about assignments.

* `Viable`: the rows of tokens that can be completed.
* `exists_program_iff_loose`: what that rule adds to the grammar.
* `unexpected_located`: token lists.
-/
namespace Sprog

open Grammar Sprog.Parser

/-- The tokens can be completed to a program. -/
def Grammar.Viable (ts : List Token) : Prop := ∃ us, Loose .declarations (ts ++ us)

/-- A bound that holds for one completion of every row at the front that has one. -/
theorem Grammar.exists_bound (ts : List Token) (n : Nat) :
    ∃ m, n ≤ m ∧ ∀ q ≤ ts.length, Viable (ts.take q) →
      ∃ us, Loose .declarations (ts.take q ++ us) ∧ (ts.take q ++ us).length ≤ m := by
  have hone : ∀ q, ∃ m, Viable (ts.take q) →
      ∃ us, Loose .declarations (ts.take q ++ us) ∧ (ts.take q ++ us).length ≤ m := by
    intro q
    by_cases hq : Viable (ts.take q)
    · obtain ⟨us, hus⟩ := hq
      exact ⟨_, fun _ => ⟨us, hus, Nat.le_refl _⟩⟩
    · exact ⟨0, fun h => absurd h hq⟩
  choose bound hbound using hone
  refine ⟨max n ((Finset.range (ts.length + 1)).sup bound), Nat.le_max_left .., fun q hq h => ?_⟩
  obtain ⟨us, hus, hlen⟩ := hbound q h
  have hle : bound q ≤ (Finset.range (ts.length + 1)).sup bound :=
    Finset.le_sup (Finset.mem_range.2 (by omega))
  exact ⟨us, hus, by omega⟩

namespace Parser

variable {eof : Token} {ts : List Token} {n : Nat}

/-- No token is unexpected in a program without the rule about assignments, and in no other row. -/
theorem unexpected?_program_eq_none (he : eof.kind = .eof) (hn : ts.length ≤ n) :
    (program n eof ts).unexpected? = none ↔ Loose .declarations ts := by
  constructor
  · intro hnone
    obtain ⟨ss, reports, hprogram⟩ := exists_program he hn
    obtain ⟨used, hused, hloose, -⟩ := (tracks_program n he ts).reads hprogram hnone
    rw [List.append_nil] at hused
    rwa [hused]
  · intro h
    have htaken := h.taken none n n eof [] he (by simpa using hn) (by simpa using hn) (.inl rfl) rfl
    rw [List.append_nil] at htaken
    exact htaken.unexpected?

/-- The tokens before the first unexpected one can be completed to a program; with that one they no
longer can. -/
theorem exists_of_unexpected?_program (he : eof.kind = .eof) (hn : ts.length ≤ n) {t : Token}
    (h : (program n eof ts).unexpected? = some t) :
    ∃ p, (ts ++ [eof])[p]? = some t ∧ Viable (ts.take p) ∧
      (p < ts.length → ¬ Viable (ts.take (p + 1))) := by
  -- the bound has to hold for the completions too
  obtain ⟨m, hnm, hbound⟩ := exists_bound ts n
  rw [agree_program hn (hn.trans hnm) eof ts he (Nat.le_refl _)] at h
  obtain ⟨used, rest, rfl, rfl, hviable, hlocal⟩ := (tracks_program m he ts).breaks h
  refine ⟨used.length, ?_, by rwa [List.take_left], fun hlt hnext => ?_⟩
  · cases rest <;> simp
  · cases rest with
    | nil => simp at hlt
    | cons u us =>
      obtain ⟨vs, hvs, hlen⟩ := hbound (used.length + 1) hlt hnext
      rw [List.take_length_add_append, List.append_assoc] at hvs hlen
      have hsome := hlocal eof ((u :: us).take 1 ++ vs) ⟨by simp, rfl⟩
      rw [(unexpected?_program_eq_none he hlen).2 hvs] at hsome
      cases hsome

end Parser

theorem unexpected?_parse {ts : List Token} (h : ∀ t ∈ ts, t.kind ≠ .eof) :
    (program ts.length (endMark ts) ts).unexpected? =
      (parse ts).errors.findSome? Diagnostic.unexpected? := by
  have hparse : parse ts = ⟨(parse ts).statements, (parse ts).errors⟩ := rfl
  have hprogram := (parse_eq_iff_program (Nat.le_refl _)).1 hparse
  rw [beforeEnd_eq_self h] at hprogram
  rw [hprogram]
  rfl

/-- No token is unexpected exactly in a program without the rule about assignments. -/
theorem not_unexpected_iff {ts : List Token} (h : ∀ t ∈ ts, t.kind ≠ .eof) :
    (∀ d ∈ (parse ts).errors, d.unexpected? = none) ↔ Loose .declarations ts := by
  rw [← unexpected?_program_eq_none (endMark_kind ts) (Nat.le_refl _), unexpected?_parse h,
    List.findSome?_eq_none_iff]

/-- The rule about assignments is all that the programs of the grammar have on top: they are those
in which no assignment is reported either. -/
theorem exists_program_iff_loose {ts : List Token} (h : ∀ t ∈ ts, t.kind ≠ .eof) :
    (∃ ss, Program ss ts) ↔
      Loose .declarations ts ∧ ∀ d ∈ (parse ts).errors, d.target? = none := by
  rw [← not_unexpected_iff h]
  constructor
  · rintro ⟨ss, hss⟩
    rw [(parse_eq_iff h ss).2 hss]
    exact ⟨List.forall_mem_nil _, List.forall_mem_nil _⟩
  · rintro ⟨hexpected, htarget⟩
    have hnone : (parse ts).errors = [] := by
      refine List.eq_nil_iff_forall_not_mem.2 fun d hd => ?_
      cases d with
      | unexpectedToken => cases hexpected _ hd
      | invalidAssignmentTarget => cases htarget _ hd
      | unexpectedCharacter | unterminatedString => cases isLexical_parse _ hd
    refine ⟨(parse ts).statements, (parse_eq_iff h _).1 ?_⟩
    rw [← hnone]

/-- The first unexpected token is found where it stands. No token is unexpected exactly if the list
is a program without the rule about assignments. Otherwise the tokens before the first unexpected
one, which may be the mark at the end, can be completed to such a program, and with it they cannot:
nothing that starts so is one, and at the end the list itself is none. -/
theorem unexpected_located {ts : List Token} (h : ∀ t ∈ ts, t.kind ≠ .eof) :
    ((∀ d ∈ (parse ts).errors, d.unexpected? = none) ↔ Loose .declarations ts) ∧
      ∀ t, (parse ts).errors.findSome? Diagnostic.unexpected? = some t →
        ∃ p, (ts ++ [endMark ts])[p]? = some t ∧ Viable (ts.take p) ∧
          (p < ts.length → ¬ Viable (ts.take (p + 1))) ∧
          (p = ts.length → ¬ Loose .declarations ts) := by
  refine ⟨not_unexpected_iff h, fun t ht => ?_⟩
  have hnot : ¬ Loose .declarations ts := by
    rw [← not_unexpected_iff h, ← List.findSome?_eq_none_iff, ht]
    exact nofun
  rw [← unexpected?_parse h] at ht
  obtain ⟨p, hp, hviable, hhopeless⟩ :=
    exists_of_unexpected?_program (endMark_kind ts) (Nat.le_refl _) ht
  exact ⟨p, hp, hviable, hhopeless, fun _ => hnot⟩

/-- The words of `sandt = a; hvis b) c;`. -/
def missingParen : List Token :=
  [⟨.trueKw, "sandt", none, 1⟩, ⟨.equal, "=", none, 1⟩, ⟨.identifier, "a", none, 1⟩,
    ⟨.semicolon, ";", none, 1⟩, ⟨.ifKw, "hvis", none, 1⟩, ⟨.identifier, "b", none, 1⟩,
    ⟨.rightParen, ")", none, 1⟩, ⟨.identifier, "c", none, 1⟩, ⟨.semicolon, ";", none, 1⟩]

/-- The assignment is reported first, but nothing is unexpected before the name behind `hvis`. -/
theorem missingParen_located :
    (∀ t ∈ missingParen, t.kind ≠ .eof) ∧
      (parse missingParen).errors.findSome? Diagnostic.unexpected? =
        some ⟨.identifier, "b", none, 1⟩ ∧
      Viable (missingParen.take 5) ∧ ¬ Viable (missingParen.take 6) := by
  have h : ∀ t ∈ missingParen, t.kind ≠ .eof := by decide
  have hfirst : (parse missingParen).errors.findSome? Diagnostic.unexpected? =
      some ⟨.identifier, "b", none, 1⟩ := by decide +kernel
  obtain ⟨p, hp, hviable, hhopeless, -⟩ := (unexpected_located h).2 _ hfirst
  have hlt : p < 10 := (List.getElem?_eq_some_iff.1 hp).choose
  have honly : ∀ q < 10, (missingParen ++ [endMark missingParen])[q]? =
      some ⟨.identifier, "b", none, 1⟩ → q = 5 := by decide
  have hp5 : p = 5 := honly p hlt hp
  subst hp5
  exact ⟨h, hfirst, hviable, hhopeless (by decide)⟩

end Sprog
