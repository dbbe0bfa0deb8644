import Mathlib.Data.List.Perm.Basic
import Sprog.Proofs.Origins
import Sprog.Proofs.Reports

/-!
# The order of faults

What a parse reports is bounded by its tokens and follows their order. Lines never go down along the
tokens of a text, nor along its lexical faults. So, ordered by line, the faults of both sorts keep
the order within each sort in which they were found: the sort is stable and has nothing to change
there. Only faulty assignments may change places, since they are reported behind their value.

* `StandAt`: the positions of tokens in a list.
* `filter_sortedErrors`: what already is ordered by line stays as it is among all faults.
* `errors_inOrder`: token lists, and source texts.
-/
namespace Sprog

open Segment

/-! ## Positions -/

/-- The tokens stand at the positions, each at its own. -/
def StandAt (ts found : List Token) (positions : List Nat) : Prop :=
  List.Forall₂ (fun t i => ts[i]? = some t) found positions

/-- Tokens that stand in this order in a list stand at positions that go up. -/
theorem exists_standAt_of_sublist {ts found : List Token} (h : found.Sublist ts) :
    ∃ ps, ps.Pairwise (· < ·) ∧ StandAt ts found ps := by
  induction h with
  | slnil => exact ⟨[], .nil, .nil⟩
  | cons t _ ih =>
    obtain ⟨ps, hlt, hat⟩ := ih
    exact ⟨ps.map (· + 1), List.pairwise_map.2 (hlt.imp Nat.succ_lt_succ),
      List.forall₂_map_right_iff.2 hat⟩
  | cons_cons t _ ih =>
    obtain ⟨ps, hlt, hat⟩ := ih
    refine ⟨0 :: ps.map (· + 1), List.pairwise_cons.2 ⟨?_, ?_⟩, .cons rfl ?_⟩
    · simp
    · exact List.pairwise_map.2 (hlt.imp Nat.succ_lt_succ)
    · exact List.forall₂_map_right_iff.2 hat

theorem StandAt.lt_length {ts found : List Token} {ps : List Nat} (h : StandAt ts found ps) :
    ∀ i ∈ ps, i < ts.length := by
  induction h with
  | nil => simp
  | cons hat _ ih =>
    refine List.forall_mem_cons.2 ⟨?_, ih⟩
    exact (List.getElem?_eq_some_iff.1 hat).1

/-- More tokens behind the list do not change positions. -/
theorem StandAt.append_right {ts found : List Token} {ps : List Nat} (h : StandAt ts found ps)
    (us : List Token) : StandAt (ts ++ us) found ps :=
  List.Forall₂.imp (fun _ _ hat => (List.getElem?_append_left
    (List.getElem?_eq_some_iff.1 hat).1).trans hat) h

section
variable {eof : Token} {ts : List Token} {reports : List Diagnostic}

/-- Unexpected tokens stand at positions that go up, until the end is met, which may be met again
and again. -/
theorem Parser.InOrder.exists_standAt (h : Parser.InOrder eof ts reports []) :
    ∃ ps : List Nat, ps.Pairwise (fun i j => i < j ∨ i = ts.length ∧ j = ts.length) ∧
      StandAt (ts ++ [eof]) (reports.filterMap Diagnostic.unexpected?) ps := by
  obtain ⟨used, blamed, k, rfl, hreports, hsub, -⟩ := h
  obtain ⟨ps, hlt, hat⟩ := exists_standAt_of_sublist hsub
  refine ⟨ps ++ List.replicate k (used ++ []).length, ?_, ?_⟩
  · refine List.pairwise_append.2 ⟨hlt.imp .inl, ?_, ?_⟩
    · exact List.pairwise_replicate.2 (.inr (.inr ⟨rfl, rfl⟩))
    · intro i hi j hj
      obtain ⟨-, rfl⟩ := List.mem_replicate.1 hj
      exact .inl (by simpa using hat.lt_length i hi)
  · rw [hreports, List.append_nil]
    refine List.rel_append (hat.append_right [eof]) ?_
    exact List.forall₂_iff_get.2 ⟨by simp, by simp⟩

/-- Faulty assignments have different equals signs. -/
theorem Parser.Charged.exists_standAt (h : Parser.Charged eof ts reports []) :
    ∃ ps : List Nat, ps.Nodup ∧ StandAt ts (reports.filterMap Diagnostic.target?) ps ∧
      ∀ t ∈ reports.filterMap Diagnostic.target?, t.kind = .equal := by
  obtain ⟨used, rfl, hsub⟩ := h
  have hkind : ∀ t ∈ reports.filterMap Diagnostic.target?, t.kind = .equal := by
    intro t ht
    have hmem := hsub.subset ht
    simpa using (List.mem_filter.1 hmem).2
  obtain ⟨found, hperm, hsub⟩ := hsub
  obtain ⟨ps, hlt, hat⟩ := exists_standAt_of_sublist (hsub.trans List.filter_sublist)
  obtain ⟨qs, hat', hqs⟩ := List.perm_comp_forall₂ hperm.symm hat
  have hnodup : ps.Nodup := hlt.imp Nat.ne_of_lt
  exact ⟨qs, hqs.symm.nodup hnodup, by rwa [List.append_nil], hkind⟩

/-! ## Lines -/

theorem Diagnostic.line_of_unexpected? {d : Diagnostic} {t : Token} (h : d.unexpected? = some t) :
    d.line = t.line := by
  cases d <;> cases h
  rfl

/-- Where lines never go down along the tokens, they never go down along unexpected tokens. -/
theorem Parser.InOrder.pairwise_line (h : Parser.InOrder eof ts reports [])
    (hlines : (ts ++ [eof]).Pairwise (·.line ≤ ·.line)) :
    (reports.filter (·.unexpected?.isSome)).Pairwise (·.line ≤ ·.line) := by
  obtain ⟨used, blamed, k, rfl, hreports, hsub, -⟩ := h
  rw [List.append_nil] at hlines
  obtain ⟨hused, -, hend⟩ := List.pairwise_append.1 hlines
  have hblamed : (blamed ++ List.replicate k eof).Pairwise (·.line ≤ ·.line) := by
    refine List.pairwise_append.2 ⟨hused.sublist hsub, ?_, ?_⟩
    · exact List.pairwise_replicate.2 (.inr (Nat.le_refl _))
    · intro t ht u hu
      obtain ⟨-, rfl⟩ := List.mem_replicate.1 hu
      exact hend t (hsub.subset ht) u List.mem_cons_self
  rw [← hreports, List.pairwise_filterMap] at hblamed
  refine List.pairwise_filter.2 (hblamed.imp fun {d d'} hle hd hd' => ?_)
  obtain ⟨t, ht⟩ := Option.isSome_iff_exists.1 hd
  obtain ⟨t', ht'⟩ := Option.isSome_iff_exists.1 hd'
  rw [Diagnostic.line_of_unexpected? ht, Diagnostic.line_of_unexpected? ht']
  exact hle t ht t' ht'

end

/-- Segments are on lines that never go down. -/
theorem pairwise_collect {α : Type} {f : Segment → Nat → Option α} {lineOf : α → Nat}
    (hf : ∀ {s line a}, f s line = some a → lineOf a = line) (line : Nat) (xs : List Segment) :
    (collect f line xs).Pairwise (lineOf · ≤ lineOf ·) := by
  induction xs generalizing line with
  | nil => exact .nil
  | cons s xs ih =>
    refine List.pairwise_append.2 ⟨?_, ih _, ?_⟩
    · cases f s (s.endsOn line) with
      | none => exact .nil
      | some a => exact List.pairwise_singleton ..
    · intro a ha b hb
      obtain ⟨s', l, hb, hle, -⟩ := exists_of_mem_collect hb
      rw [hf (Option.mem_toList.1 ha), hf hb]
      exact hle

theorem pairwise_line_items (source : String) :
    (tokenize source).items.Pairwise (·.line ≤ ·.line) := by
  rw [tokenize_eq]
  refine List.pairwise_append.2 ⟨pairwise_collect line_of_token? 1 _, ?_, ?_⟩
  · exact List.pairwise_singleton ..
  · intro t ht u hu
    cases List.mem_singleton.1 hu
    have hmem : t ∈ (tokenize source).items := by
      rw [tokenize_eq]
      exact List.mem_append_left _ ht
    exact (line_of_mem_items hmem).2

theorem pairwise_line_errors (source : String) :
    (tokenize source).errors.Pairwise (·.line ≤ ·.line) := by
  rw [tokenize_eq]
  exact pairwise_collect (fun h => (line_of_fault? h).2) 1 _

/-! ## All faults of a source text -/

section
variable {lexical grammatical : List Diagnostic}

theorem sortedErrors_perm :
    (Program.sortedErrors lexical grammatical).Perm (lexical ++ grammatical) :=
  List.mergeSort_perm ..

theorem pairwise_sortedErrors :
    (Program.sortedErrors lexical grammatical).Pairwise (·.line ≤ ·.line) := by
  have hsorted : (Program.sortedErrors lexical grammatical).Pairwise fun a b =>
      decide (a.line ≤ b.line) = true :=
    List.pairwise_mergeSort (by simp only [decide_eq_true_eq]; omega) (by simp; omega) _
  exact hsorted.imp of_decide_eq_true

/-- Faults of one sort that already are ordered by line stay in their order among all faults. -/
theorem filter_sortedErrors {p : Diagnostic → Bool}
    (h : ((lexical ++ grammatical).filter p).Pairwise (·.line ≤ ·.line)) :
    (Program.sortedErrors lexical grammatical).filter p = (lexical ++ grammatical).filter p := by
  have hsub : ((lexical ++ grammatical).filter p).Sublist
      (Program.sortedErrors lexical grammatical) :=
    List.sublist_mergeSort (by simp only [decide_eq_true_eq]; omega) (by simp; omega)
      (h.imp decide_eq_true) List.filter_sublist
  have hkept := hsub.filter p
  rw [List.filter_filter] at hkept
  simp only [Bool.and_self] at hkept
  exact (hkept.eq_of_length (sortedErrors_perm.filter p).length_eq.symm).symm

end

theorem beforeEnd_items (source : String) :
    beforeEnd (tokenize source).items ++ [endMark (tokenize source).items] =
      (tokenize source).items := by
  obtain ⟨ts, eof, hitems, hts, he⟩ := exists_items source
  rw [hitems, beforeEnd_append hts, endMark_append hts (List.cons_ne_nil eof [])]
  simp [beforeEnd, endMark, he]

/-- Only what the characters have wrong is lexical. -/
theorem filter_isLexical (source : String) :
    ((tokenize source).errors ++ (parse (tokenize source).items).errors).filter
      Diagnostic.isLexical = (tokenize source).errors := by
  have hlexical : ∀ d ∈ (tokenize source).errors, d.isLexical = true := fun d hd =>
    (line_of_mem_errors hd).1
  have hgrammatical : ∀ d ∈ (parse (tokenize source).items).errors, ¬ d.isLexical = true := by
    intro d hd
    simp [isLexical_parse d hd]
  rw [List.filter_append, List.filter_eq_self.2 hlexical, List.filter_eq_nil_iff.2 hgrammatical,
    List.append_nil]

/-- Only a parse finds unexpected tokens. -/
theorem filter_unexpected (source : String) :
    ((tokenize source).errors ++ (parse (tokenize source).items).errors).filter
      (·.unexpected?.isSome) =
        (parse (tokenize source).items).errors.filter (·.unexpected?.isSome) := by
  have hlexical : ∀ d ∈ (tokenize source).errors, ¬ d.unexpected?.isSome = true := by
    intro d hd
    have := (line_of_mem_errors hd).1
    cases d <;> simp_all [Diagnostic.isLexical, Diagnostic.unexpected?]
  rw [List.filter_append, List.filter_eq_nil_iff.2 hlexical, List.nil_append]

theorem ofSource_eq_error {source : String}
    (h : (tokenize source).errors ++ (parse (tokenize source).items).errors ≠ []) :
    Program.ofSource source = .error (Program.sortedErrors (tokenize source).errors
      (parse (tokenize source).items).errors) := by
  unfold Program.ofSource
  dsimp only
  split
  · rename_i hnil
    exact absurd (List.append_eq_nil_iff.2 (sortedErrors_eq_nil_iff.1 hnil)) h
  · rfl

/-- Faults do not multiply. In the parse of any token list, unexpected tokens are reported at
positions that go up, except that the end may be blamed several times at last; faulty assignments
have equals signs at different positions; and there are no more faults than tokens. So the faults
of a source text, lexical ones and those of the parse together, come ordered by line with the
lexical ones in the order of the text and the unexpected tokens in the order of their report. -/
theorem errors_inOrder :
    (∀ ts : List Token,
      (∃ ps : List Nat, ps.Pairwise (fun i j =>
          i < j ∨ i = (beforeEnd ts).length ∧ j = (beforeEnd ts).length) ∧
        StandAt (beforeEnd ts ++ [endMark ts])
          ((parse ts).errors.filterMap Diagnostic.unexpected?) ps) ∧
      (∃ ps : List Nat, ps.Nodup ∧
        StandAt (beforeEnd ts) ((parse ts).errors.filterMap Diagnostic.target?) ps ∧
        ∀ t ∈ (parse ts).errors.filterMap Diagnostic.target?, t.kind = .equal) ∧
      (parse ts).errors.length ≤ (beforeEnd ts).length) ∧
    ∀ source : String,
      (tokenize source).errors ++ (parse (tokenize source).items).errors ≠ [] →
      ∃ errors, Program.ofSource source = .error errors ∧
        errors.Perm ((tokenize source).errors ++ (parse (tokenize source).items).errors) ∧
        errors.Pairwise (·.line ≤ ·.line) ∧
        errors.filter Diagnostic.isLexical = (tokenize source).errors ∧
        errors.filter (·.unexpected?.isSome) =
          (parse (tokenize source).items).errors.filter (·.unexpected?.isSome) := by
  have hinOrder := parse_relates fun n => (Parser.inOrder_closed.program n).2
  have hcharged := parse_relates fun n => (Parser.charged_closed.program n).2
  have haffords := parse_relates Parser.affords_program
  refine ⟨fun ts => ⟨(hinOrder ts).exists_standAt, (hcharged ts).exists_standAt, ?_⟩, ?_⟩
  · simpa using haffords ts (endMark_kind ts)
  · intro source hne
    have hlines := pairwise_line_items source
    rw [← beforeEnd_items source] at hlines
    refine ⟨_, ofSource_eq_error hne, sortedErrors_perm, pairwise_sortedErrors, ?_, ?_⟩
    · rw [filter_sortedErrors, filter_isLexical]
      rw [filter_isLexical]
      exact pairwise_line_errors source
    · rw [filter_sortedErrors, filter_unexpected]
      rw [filter_unexpected]
      exact (hinOrder (tokenize source).items).pairwise_line hlines

/-- Faults of all sorts: bad characters, a number in place of a name, two blocks that do not end,
and an assignment to a number whose value, on the next line, is such an assignment itself. -/
def manyFaults : String := "sæt 1 @;\n\x7b 1 =\n2 = 3; \x7b @"

theorem manyFaults_inOrder :
    (tokenize manyFaults).errors ++ (parse (tokenize manyFaults).items).errors ≠ [] ∧
    ∃ errors, Program.ofSource manyFaults = .error errors ∧
      errors.Perm ((tokenize manyFaults).errors ++ (parse (tokenize manyFaults).items).errors) ∧
      errors.Pairwise (·.line ≤ ·.line) ∧
      errors.filter Diagnostic.isLexical = (tokenize manyFaults).errors ∧
      errors.filter (·.unexpected?.isSome) =
        (parse (tokenize manyFaults).items).errors.filter (·.unexpected?.isSome) := by
  have hne : (tokenize manyFaults).errors ++ (parse (tokenize manyFaults).items).errors ≠ [] := by
    decide +kernel
  exact ⟨hne, errors_inOrder.2 manyFaults hne⟩

end Sprog
