import Mathlib.Data.List.Perm.Subperm
import Sprog.Proofs.Boundary

/-!
# What a parse may report

Every fault that a parser reports can be charged to a token of its own. A fault that stops a
declaration is charged to the token in front of which it stopped, which is passed over then; where
that is the end, to the first token of the declaration, which was taken and is not blamed itself.
An assignment to something that is no name is charged to its equals sign. So there are never more
faults than tokens, and they come in the order of the tokens, except that what is wrong with an
assignment is reported behind its value.

Each of these is a relation between the tokens given, the faults reported and the tokens left
(`Relates`). Most parsers report nothing, so to account for all of them it is enough to account for
sequences, for assignments and for recovery (`Account`).

* `inOrder_closed`: unexpected tokens are met in order; what is left is only the end.
* `charged_closed`: each faulty assignment has an equals sign of its own.
* `affords_program`: a program has no more faults than tokens.
-/
namespace Sprog

namespace Diagnostic

/-- The token that does not fit where it stands. -/
def unexpected? : Diagnostic → Option Token
  | unexpectedToken t _ => some t
  | _ => none

/-- The equals sign of an assignment to something that is no name. -/
def target? : Diagnostic → Option Token
  | invalidAssignmentTarget t => some t
  | _ => none

end Diagnostic

namespace Parser

variable {α β : Type}

/-- Two properties together. -/
theorem Composes.and {P P' : ∀ {α : Type}, Parser α → Prop} (h : Composes P) (h' : Composes P') :
    Composes fun p => P p ∧ P' p where
  pure a := ⟨h.pure a, h'.pure a⟩
  bind hp hf := ⟨h.bind hp.1 fun a => (hf a).1, h'.bind hp.2 fun a => (hf a).2⟩
  current := ⟨h.current, h'.current⟩
  skip := ⟨h.skip, h'.skip⟩
  fail expected := ⟨h.fail expected, h'.fail expected⟩
  sees kind := ⟨h.sees kind, h'.sees kind⟩
  acceptFrom table := ⟨h.acceptFrom table, h'.acceptFrom table⟩
  accept kind := ⟨h.accept kind, h'.accept kind⟩
  continues stop := ⟨h.continues stop, h'.continues stop⟩

/-! ## Accounts -/

/-- The tokens given, the faults reported and the tokens left are always in the relation. -/
def Relates (Q : Token → List Token → List Diagnostic → List Token → Prop) (p : Parser α) : Prop :=
  ∀ eof ts, Q eof ts (p eof ts).reports (p eof ts).rest

/-- A relation that holds where nothing is reported, and of a sequence if of its parts. -/
structure Account (Q : Token → List Token → List Diagnostic → List Token → Prop) : Prop where
  silent : ∀ {eof ts rest}, rest <:+ ts → Q eof ts [] rest
  trans : ∀ {eof ts r mid r' rest}, Q eof ts r mid → Q eof mid r' rest → Q eof ts (r ++ r') rest

section
variable {Q : Token → List Token → List Diagnostic → List Token → Prop}

theorem Account.composes (h : Account Q) : Composes (Relates Q) where
  pure a eof ts := h.silent (shrinks_closed.pure a eof ts)
  bind := by
    intro α β p f hp hf eof ts
    have hfirst := hp eof ts
    rcases hstep : p eof ts with ⟨e | a, mid, reports⟩
    · rw [bind_error hstep]
      rwa [hstep] at hfirst
    · rw [bind_ok hstep]
      rw [hstep] at hfirst
      exact h.trans hfirst (hf a eof mid)
  current eof ts := h.silent (shrinks_closed.current eof ts)
  skip eof ts := h.silent (shrinks_closed.skip eof ts)
  fail expected eof ts := h.silent List.suffix_rfl
  sees kind eof ts := h.silent (shrinks_closed.sees kind eof ts)
  acceptFrom table eof ts := by
    have hs := shrinks_closed.acceptFrom table eof ts
    revert hs
    unfold acceptFrom
    split
    · exact h.silent
    · split <;> exact h.silent
  accept kind eof ts := by
    have hs := shrinks_closed.accept kind eof ts
    revert hs
    unfold accept
    split
    · exact h.silent
    · split <;> exact h.silent
  continues stop eof ts := h.silent (shrinks_closed.continues stop eof ts)

/-- An assignment is accounted for if its fault is, behind its target and its value. -/
theorem Account.relates_assignment (h : Account Q) {expr : Parser Expr} (he : Relates Q expr)
    {n : Nat} (hcharge : ∀ {eof ts target equals mid r r' rest},
      operation expr n eof ts = ⟨.ok target, equals :: mid, r⟩ → equals.kind = .equal →
      Q eof ts r (equals :: mid) → Q eof mid r' rest →
      Q eof ts (r ++ (r' ++ [.invalidAssignmentTarget equals])) rest) :
    Relates Q (assignment expr n) := by
  intro eof ts
  have hop := h.composes.operation he n eof ts
  rcases hstep : operation expr n eof ts with ⟨e | target, mid, r⟩
  · rw [assignment, bind_error hstep]
    rwa [hstep] at hop
  rw [assignment, bind_ok hstep]
  rw [hstep] at hop
  cases mid with
  | nil => exact h.trans hop (h.silent List.suffix_rfl)
  | cons equals mid =>
    by_cases hk : equals.kind = .equal
    · have hvalue := he eof mid
      have hbehind {r' rest} (hq : Q eof mid r' rest) : Q eof (equals :: mid) r' rest :=
        h.trans (h.silent (List.suffix_cons equals mid)) hq
      rw [bind_ok (accept_take hk eof mid)]
      rcases hexpr : expr eof mid with ⟨e | value, rest, r'⟩
      · rw [hexpr] at hvalue
        simp only [bind_error hexpr, List.nil_append]
        exact h.trans hop (hbehind hvalue)
      · rw [hexpr] at hvalue
        simp only [bind_ok hexpr, List.nil_append]
        split
        · exact h.trans hop (hbehind (h.trans hvalue (h.silent List.suffix_rfl)))
        · exact hcharge hstep hk hop hvalue
    · rw [bind_ok (accept_pass hk eof mid)]
      exact h.trans hop (h.silent List.suffix_rfl)

/-- Going on after a fault is accounted for if the token that stopped the parser is. -/
theorem Account.relates_recover (h : Account Q)
    (hfault : ∀ {eof mid expected},
      Q eof mid [.unexpectedToken (mid.headD eof) expected] (afterFault mid))
    {p : Parser α} (hb : Blames p) (hp : Relates Q p) : Relates Q (recover p) := by
  intro eof ts
  have hp := hp eof ts
  rcases hstep : p eof ts with ⟨e | a, mid, reports⟩
  · rw [recover_error hstep]
    rw [hstep] at hp
    obtain ⟨expected, rfl⟩ := hb hstep
    exact h.trans hp hfault
  · rw [recover_ok hstep]
    rwa [hstep] at hp

end

/-! ## Faults of the characters -/

/-- No fault of the characters is among the reports. -/
def Grammatical (_ : Token) (_ : List Token) (reports : List Diagnostic) (_ : List Token) : Prop :=
  ∀ d ∈ reports, d.isLexical = false

theorem grammatical_account : Account Grammatical where
  silent _ := List.forall_mem_nil _
  trans h h' := List.forall_mem_append.2 ⟨h, h'⟩

theorem grammatical_closed : Closed fun p => Blames p ∧ Relates Grammatical p :=
  (blames_composes.and grammatical_account.composes).closed
    (fun _ => ⟨blames_report _, fun _ _ => by simp [Grammatical, report, Diagnostic.isLexical]⟩)
    fun hp => ⟨blames_recover _, grammatical_account.relates_recover
      (by simp [Grammatical, Diagnostic.isLexical]) hp.1 hp.2⟩

/-! ## Unexpected tokens -/

/-- The unexpected tokens that are reported stand in this order among the tokens taken. Behind them
the end may be reported any number of times, but only if all tokens are taken. -/
def InOrder (eof : Token) (ts : List Token) (reports : List Diagnostic) (rest : List Token) :
    Prop :=
  ∃ used blamed k, ts = used ++ rest ∧
    reports.filterMap Diagnostic.unexpected? = blamed ++ List.replicate k eof ∧
    blamed.Sublist used ∧ (k ≠ 0 → rest = [])

theorem inOrder_account : Account InOrder where
  silent := by
    rintro eof ts rest ⟨used, rfl⟩
    exact ⟨used, [], 0, rfl, rfl, List.nil_sublist _, fun h => absurd rfl h⟩
  trans := by
    rintro eof ts r mid r' rest ⟨used, blamed, k, rfl, hr, hsub, hk⟩
      ⟨used', blamed', k', rfl, hr', hsub', hk'⟩
    by_cases h : k = 0
    · subst h
      refine ⟨used ++ used', blamed ++ blamed', k', (List.append_assoc ..).symm, ?_,
        hsub.append hsub', hk'⟩
      simp [hr, hr']
    · -- at the end nothing is taken any more, so the end is all that can be blamed
      obtain ⟨rfl, rfl⟩ := List.append_eq_nil_iff.1 (hk h)
      have hnil : blamed' = [] := List.sublist_nil.1 hsub'
      subst hnil
      exact ⟨used, blamed, k + k', rfl, by simp [hr, hr'], hsub, fun _ => rfl⟩

/-- Going on after a fault passes over the token that is blamed. -/
theorem inOrder_recover {p : Parser α} (hb : Blames p) (hp : Relates InOrder p) :
    Relates InOrder (recover p) := by
  refine inOrder_account.relates_recover (fun {eof mid expected} => ?_) hb hp
  cases mid with
  | nil => exact ⟨[], [], 1, rfl, rfl, List.nil_sublist _, fun _ => rfl⟩
  | cons t mid =>
    obtain ⟨passed, hpassed⟩ := resume_suffix t mid
    exact ⟨t :: passed, [t], 0, by simp [afterFault, hpassed], rfl,
      (List.nil_sublist _).cons_cons t, fun h => absurd rfl h⟩

theorem inOrder_closed : Closed fun p => Blames p ∧ Relates InOrder p :=
  (blames_composes.and inOrder_account.composes).closed
    (fun _ => ⟨blames_report _, fun _ _ => ⟨[], [], 0, rfl, rfl, List.nil_sublist _,
      fun h => absurd rfl h⟩⟩)
    fun hp => ⟨blames_recover _, inOrder_recover hp.1 hp.2⟩

/-! ## Faulty assignments -/

/-- The equals signs that are reported are among those taken, each as often as it stands there. -/
def Charged (_eof : Token) (ts : List Token) (reports : List Diagnostic) (rest : List Token) :
    Prop :=
  ∃ used, ts = used ++ rest ∧
    (reports.filterMap Diagnostic.target?).Subperm (used.filter (·.kind == .equal))

theorem charged_account : Account Charged where
  silent := by
    rintro eof ts rest ⟨used, rfl⟩
    exact ⟨used, rfl, List.nil_subperm⟩
  trans := by
    rintro eof ts r mid r' rest ⟨used, rfl, hr⟩ ⟨used', rfl, hr'⟩
    refine ⟨used ++ used', (List.append_assoc ..).symm, ?_⟩
    simpa using hr.append hr'

theorem charged_assignment {expr : Parser Expr} (he : Relates Charged expr) (n : Nat) :
    Relates Charged (assignment expr n) := by
  refine charged_account.relates_assignment he ?_
  intro eof ts target equals mid r r' rest _ hk hr hr'
  obtain ⟨used, rfl, hr⟩ := hr
  obtain ⟨used', rfl, hr'⟩ := hr'
  refine ⟨used ++ equals :: used', by simp, ?_⟩
  have hequals : ((equals :: used').filter (·.kind == .equal)) =
      equals :: used'.filter (·.kind == .equal) := by
    simp [hk]
  rw [List.filter_append, hequals, List.filterMap_append, List.filterMap_append]
  have hlast : (r'.filterMap Diagnostic.target? ++ [equals]).Perm
      (equals :: r'.filterMap Diagnostic.target?) := List.perm_append_singleton ..
  exact hr.append (hlast.subperm.trans ((List.subperm_cons equals).2 hr'))

theorem charged_recover {p : Parser α} (hb : Blames p) (hp : Relates Charged p) :
    Relates Charged (recover p) := by
  refine charged_account.relates_recover (fun {eof mid expected} => ?_) hb hp
  obtain ⟨passed, hpassed⟩ := afterFault_suffix mid
  exact ⟨passed, hpassed.symm, List.nil_subperm⟩

theorem charged_closed : Closed fun p => Blames p ∧ Relates Charged p where
  toComposes := blames_composes.and charged_account.composes
  assignment he n := ⟨blames_closed.assignment he.1 n, charged_assignment he.2 n⟩
  recover hp := ⟨blames_recover _, charged_recover hp.1 hp.2⟩

/-! ## The number of faults -/

/-- There is a token for every fault that is reported. -/
def Affords (eof : Token) (ts : List Token) (reports : List Diagnostic) (rest : List Token) :
    Prop :=
  eof.kind = .eof → reports.length + rest.length ≤ ts.length

/-- There is a token for every fault that is reported, and one more, unless nothing was taken. -/
def Thrifty (eof : Token) (ts : List Token) (reports : List Diagnostic) (rest : List Token) :
    Prop :=
  eof.kind = .eof → reports = [] ∧ rest = ts ∨ reports.length + rest.length < ts.length

theorem affords_account : Account Affords where
  silent hs _ := by
    have := hs.length_le
    simpa using this
  trans hr hr' he := by
    have := hr he
    have := hr' he
    rw [List.length_append]
    omega

theorem affords_passes : Passes (Relates Affords) where
  toComposes := affords_account.composes
  assignment he n := affords_account.relates_assignment he fun _ _ hr hr' heof => by
    have := hr heof
    have := hr' heof
    simp only [List.length_append, List.length_cons, List.length_nil] at this ⊢
    simp only [List.length_cons] at *
    omega

theorem thrifty_account : Account Thrifty where
  silent := by
    intro eof ts rest hs he
    rcases Nat.lt_or_eq_of_le hs.length_le with hlt | heq
    · exact .inr (by simpa using hlt)
    · exact .inl ⟨rfl, hs.eq_of_length heq⟩
  trans := by
    intro eof ts r mid r' rest hr hr' he
    rcases hr he with ⟨rfl, rfl⟩ | hlt
    · exact hr' he
    · rcases hr' he with ⟨rfl, rfl⟩ | hlt'
      · exact .inr (by simpa using hlt)
      · exact .inr (by rw [List.length_append]; omega)

/-- The target of an assignment takes a token, and the equals sign is one more. -/
theorem thrifty_passes : Passes fun p => Shrinks p ∧ Relates Thrifty p where
  toComposes := shrinks_composes.and thrifty_account.composes
  assignment := by
    intro expr he n
    refine ⟨shrinks_closed.assignment he.1 n, thrifty_account.relates_assignment he.2 ?_⟩
    intro eof ts target equals mid r r' rest hstep _ hr hr' heof
    have hlt := consumes_operation he.1 n eof ts target heof (by rw [hstep])
    rw [hstep] at hlt
    simp only [List.length_cons] at hlt
    refine .inr ?_
    simp only [List.length_append, List.length_cons, List.length_nil]
    have hvalue : r'.length + rest.length ≤ mid.length := by
      rcases hr' heof with ⟨rfl, rfl⟩ | h
      · simp
      · omega
    rcases hr heof with ⟨rfl, rfl⟩ | h
    · simp at hlt
    · simp only [List.length_cons] at h
      omega

/-- There is a token for every fault that is reported, and also for the fault at the end if that
stops the parser, as long as it is given a token at all. -/
structure Spares (p : Parser α) : Prop where
  affords : Relates Affords p
  spare : ∀ {eof ts e reports}, eof.kind = .eof → ts ≠ [] → p eof ts = ⟨.error e, [], reports⟩ →
    reports.length < ts.length

/-- The first token is left for the fault at the end. -/
theorem spares_skip_bind {f : Unit → Parser α} (hf : Relates Affords (f ())) :
    Spares (skip >>= f) := by
  have hlt (eof t ts) (he : eof.kind = .eof) :
      ((skip >>= f) eof (t :: ts)).reports.length + ((skip >>= f) eof (t :: ts)).rest.length <
        (t :: ts).length :=
    Nat.lt_succ_of_le (hf eof ts he)
  constructor
  · intro eof ts he
    cases ts with
    | nil => exact hf eof [] he
    | cons t ts => exact Nat.le_of_lt (hlt eof t ts he)
  · intro eof ts e reports he hne h
    cases ts with
    | nil => exact absurd rfl hne
    | cons t ts => simpa [h] using hlt eof t ts he

theorem spares_current_bind {g : Token → Parser α} (hg : ∀ t, Spares (g t)) :
    Spares (current >>= g) where
  affords := affords_account.composes.bind affords_account.composes.current fun t => (hg t).affords
  spare {_ ts _ _} he hne h := by
    have hc {eof} : current eof ts = ⟨.ok (ts.headD eof), ts, []⟩ := rfl
    rw [bind_ok hc] at h
    exact (hg _).spare he hne h

theorem spares_expressionStatement (n : Nat) : Spares (expressionStatement n) := by
  refine ⟨affords_passes.expressionStatement n, ?_⟩
  intro eof ts e reports he hne h
  have hexpr := (thrifty_passes.expression n).2 eof ts he
  rcases hstep : expression n eof ts with ⟨e' | a, mid, r⟩
  · rw [expressionStatement, bind_error hstep] at h
    cases h
    rw [hstep] at hexpr
    obtain ⟨-, hnil⟩ | hlt := hexpr
    · exact absurd hnil.symm hne
    · exact hlt
  · have hlt := consumes_expression n eof ts a he (by rw [hstep])
    rw [hstep] at hexpr hlt
    dsimp only at hexpr hlt
    have hend := affords_account.composes.bind
      (affords_account.composes.expect .semicolon .semicolonAfterExpression)
      (fun _ => affords_account.composes.pure (Stmt.expr a)) eof mid he
    rw [expressionStatement, bind_ok hstep] at h
    obtain ⟨-, -, rfl⟩ := Step.mk.inj h
    rw [List.length_append]
    obtain ⟨-, rfl⟩ | hthrift := hexpr
    · exact absurd hlt (Nat.lt_irrefl _)
    · omega

/-- With a token given there is one for every fault, also for the one that is recovered from. -/
theorem Spares.recover {p : Parser α} (hp : Spares p) {eof : Token} (he : eof.kind = .eof)
    {ts : List Token} (hne : ts ≠ []) :
    (recover p eof ts).reports.length + (recover p eof ts).rest.length ≤ ts.length := by
  have haffords := hp.affords eof ts he
  rcases hstep : p eof ts with ⟨e | a, mid, reports⟩
  · rw [hstep] at haffords
    rw [recover_error hstep]
    cases mid with
    | nil =>
      have hlt := hp.spare he hne hstep
      simpa [afterFault] using Nat.succ_le_of_lt hlt
    | cons t mid =>
      have hle := (resume_suffix t mid).length_le
      simp only [afterFault, List.length_append, List.length_cons, List.length_nil] at haffords ⊢
      omega
  · rw [recover_ok hstep]
    rwa [hstep] at haffords

/-- Each round of a row pays for its own faults. -/
theorem affords_declarations {item : Parser Stmt} (hi : Spares item) (stop : Option Kind) :
    ∀ n, Relates Affords (declarations stop item n)
  | 0, _, _, _ => by simp [declarations, pure, Parser.pure]
  | n + 1, eof, ts, he => by
    by_cases hend : Ended stop ts
    · rw [declarations_stop hend]
      simp
    · obtain ⟨first, mid, reports, hr⟩ := exists_recover item eof ts
      obtain ⟨ss, rest, reports', hd⟩ := exists_declarations stop item eof n mid
      have hfirst := hi.recover he fun hnil => hend (.inl hnil)
      have hrow := affords_declarations hi stop n eof mid he
      rw [hr] at hfirst
      rw [hd] at hrow
      rw [declarations_next hend hr hd]
      simp only [List.length_append] at hfirst hrow ⊢
      omega

theorem affords_blockRest {item : Parser Stmt} (hi : Spares item) (n : Nat) :
    Relates Affords (blockRest n item) :=
  affords_account.composes.blockRest_of (affords_declarations hi _ n)

theorem spares_statement : ∀ (n : Nat) (place : Place), Spares (statement n place)
  | 0, _ => spares_expressionStatement 0
  | n + 1, place => by
    have ih := spares_statement n
    have h := affords_passes
    refine spares_current_bind fun token => ?_
    split
    · exact spares_skip_bind (h.declareRest n)
    · exact spares_skip_bind (h.functionRest_of (affords_blockRest (ih .outer) n))
    · exact spares_skip_bind (h.branchRest (ih .inner).affords n)
    · exact spares_skip_bind (h.printRest n token)
    · exact spares_skip_bind (h.loopRest (ih .inner).affords n)
    · exact spares_skip_bind (h.countingRest (ih .inner).affords n)
    · exact spares_skip_bind (h.bind (affords_blockRest (ih .outer) n) fun _ => h.pure _)
    · exact spares_expressionStatement (n + 1)

theorem affords_program (n : Nat) : Relates Affords (program n) :=
  affords_declarations (spares_statement n .outer) none n

end Parser

/-! ## Whole token lists -/

/-- What a program reports, with nothing left, is what a parse does. -/
theorem parse_relates {Q : Token → List Token → List Diagnostic → List Token → Prop}
    (h : ∀ n, Parser.Relates Q (Parser.program n)) (ts : List Token) :
    Q (endMark ts) (beforeEnd ts) (parse ts).errors [] := by
  obtain ⟨ss, errors, hprogram⟩ := Parser.exists_program (endMark_kind ts)
    (Nat.le_refl (beforeEnd ts).length)
  have hq := h (beforeEnd ts).length (endMark ts) (beforeEnd ts)
  rw [hprogram] at hq
  rwa [(parse_eq_iff_program (Nat.le_refl _)).2 hprogram]

/-- A parse finds fault with tokens only. -/
theorem isLexical_parse {ts : List Token} : ∀ d ∈ (parse ts).errors, d.isLexical = false :=
  parse_relates (fun n => (Parser.grammatical_closed.program n).2) ts

end Sprog
