import Sprog.Proofs.Rows

/-!
# What stands behind a piece of source

A parser looks at one token behind what it takes. As long as tokens are left, more of them behind
these make no difference (`Framed`). A statement ends with a token it demands, or looks for an
`ellers` there, so also a statement that takes all tokens is the same in front of anything but that
word (`Sealed`). And a parser that fails blames the token in front of it (`Blames`), so a fault that
does not blame the end leaves a token where it stands.

Together these make parsing compositional, faults and recovery included: what fails in a piece that
ends with a semicolon is left behind at that semicolon.

* `framed_closed`, `blames_closed`, `sealed_statement`: the three properties of the parsers.
* `declarations_append`: a row of declarations behind another one.
* `parse_append`: two pieces parsed as one.
-/
namespace Sprog

namespace Parser

variable {α β : Type}

/-! ## More tokens behind those that are left -/

/-- What the parser does with tokens left over it also does with more tokens behind them. -/
structure Framed (p : Parser α) : Prop where
  shrinks : Shrinks p
  append : ∀ {eof ts r mid reports}, p eof ts = ⟨r, mid, reports⟩ → mid ≠ [] →
    ∀ eof' us, p eof' (ts ++ us) = ⟨r, mid ++ us, reports⟩

/-- The last token of a suffix is the last one of the whole. -/
theorem getLast?_of_suffix {ts us : List Token} {kind : Kind}
    (h : ∀ t ∈ us.getLast?, t.kind = kind) (hs : ts <:+ us) : ∀ t ∈ ts.getLast?, t.kind = kind := by
  intro t ht
  obtain ⟨before, rfl⟩ := hs
  refine h t ?_
  rw [List.getLast?_append, Option.mem_def.1 ht]
  rfl

/-- The last token, if there is one, is a semicolon. -/
def EndsStatement (ts : List Token) : Prop := ∀ t ∈ ts.getLast?, t.kind = .semicolon

theorem EndsStatement.of_suffix {ts us : List Token} (h : EndsStatement ts) (hs : us <:+ ts) :
    EndsStatement us :=
  getLast?_of_suffix h hs

/-- Going on after a fault stops within the tokens or at the semicolon that ends them. -/
theorem resume_append {last : Token} {ts : List Token}
    (h : resume last ts ≠ [] ∨ EndsStatement (last :: ts)) (us : List Token) :
    resume last (ts ++ us) = resume last ts ++ us := by
  induction ts generalizing last with
  | nil =>
    obtain h | h := h
    · exact absurd rfl h
    · have hk : last.kind = .semicolon := h last rfl
      cases us with
      | nil => rfl
      | cons u us => simp [resume, hk]
  | cons t ts ih =>
    rw [List.cons_append]
    unfold resume at h ⊢
    split
    · rfl
    · rename_i hgo
      rw [if_neg hgo] at h
      exact ih (h.imp_right fun he => he.of_suffix (List.suffix_cons last _))

theorem afterFault_append {ts : List Token} (hne : ts ≠ [])
    (h : afterFault ts ≠ [] ∨ EndsStatement ts) (us : List Token) :
    afterFault (ts ++ us) = afterFault ts ++ us := by
  cases ts with
  | nil => exact absurd rfl hne
  | cons t ts => exact resume_append h us

/-- A parser that only looks at the first token. -/
theorem Framed.of_cons {p : Parser α} (hs : Shrinks p)
    (h : ∀ eof eof' t ts us, p eof' (t :: (ts ++ us)) =
      ⟨(p eof (t :: ts)).result, (p eof (t :: ts)).rest ++ us, (p eof (t :: ts)).reports⟩) :
    Framed p := by
  refine ⟨hs, fun {eof ts r mid reports} hp hne eof' us => ?_⟩
  cases ts with
  | nil => exact absurd (hs.rest_eq_nil hp) hne
  | cons t ts => rw [List.cons_append, h eof eof' t ts us, hp]

theorem framed_composes : Composes Framed where
  pure a := .of_cons (shrinks_closed.pure a) fun _ _ _ _ _ => rfl
  bind := by
    intro α β p f hp hf
    refine ⟨shrinks_closed.bind hp.shrinks fun a => (hf a).shrinks, ?_⟩
    intro eof ts r rest reports h hne eof' us
    rcases hstep : p eof ts with ⟨e | a, mid, reports'⟩
    · rw [bind_error hstep] at h
      cases h
      exact bind_error (hp.append hstep hne eof' us) f
    · rw [bind_ok hstep] at h
      cases h
      have hmid : mid ≠ [] := by
        rintro rfl
        exact hne ((hf a).shrinks.rest_eq_nil rfl)
      rw [bind_ok (hp.append hstep hmid eof' us), (hf a).append rfl hne eof' us]
  current := .of_cons shrinks_closed.current fun _ _ _ _ _ => rfl
  skip := .of_cons shrinks_closed.skip fun _ _ _ _ _ => rfl
  fail expected := .of_cons (shrinks_closed.fail expected) fun _ _ _ _ _ => rfl
  sees kind := .of_cons (shrinks_closed.sees kind) fun _ _ _ _ _ => rfl
  acceptFrom table := by
    refine .of_cons (shrinks_closed.acceptFrom table) fun eof eof' t ts us => ?_
    cases ht : table t.kind <;> simp [acceptFrom, ht]
  accept kind := by
    refine .of_cons (shrinks_closed.accept kind) fun eof eof' t ts us => ?_
    by_cases ht : t.kind = kind
    · rw [accept_take ht, accept_take ht]
    · rw [accept_pass ht, accept_pass ht, List.cons_append]
  continues stop := .of_cons (shrinks_closed.continues stop) fun _ _ _ _ _ => rfl

theorem framed_report (d : Diagnostic) : Framed (report d) :=
  .of_cons (shrinks_report d) fun _ _ _ _ _ => rfl

theorem framed_recover {p : Parser α} (hp : Framed p) : Framed (recover p) := by
  refine ⟨shrinks_recover hp.shrinks, fun {eof ts} _ _ _ h hne eof' us => ?_⟩
  rcases hstep : p eof ts with ⟨e | a, mid, reports⟩
  · rw [recover_error hstep] at h
    cases h
    have hmid : mid ≠ [] := by
      rintro rfl
      exact hne rfl
    rw [recover_error (hp.append hstep hmid eof' us), afterFault_append hmid (.inl hne)]
  · rw [recover_ok hstep] at h
    cases h
    exact recover_ok (hp.append hstep hne eof' us)

theorem framed_closed : Closed Framed :=
  framed_composes.closed (fun _ => framed_report _) framed_recover

/-! ## The token that is blamed -/

/-- A parser that fails blames the token it stopped at. -/
def Blames (p : Parser α) : Prop :=
  ∀ ⦃eof ts e mid reports⦄, p eof ts = ⟨.error e, mid, reports⟩ →
    ∃ expected, e = .unexpectedToken (mid.headD eof) expected

theorem blames_composes : Composes Blames where
  pure _ _ _ _ _ _ h := by cases h
  bind := by
    intro α β p f hp hf eof ts e rest reports h
    rcases hstep : p eof ts with ⟨e' | a, mid, reports'⟩
    · rw [bind_error hstep] at h
      cases h
      exact hp hstep
    · rw [bind_ok hstep] at h
      rcases hf' : f a eof mid with ⟨r, rest', reports''⟩
      rw [hf'] at h
      cases h
      exact hf a hf'
  current _ _ _ _ _ h := by cases h
  skip _ _ _ _ _ h := by cases h
  fail expected _ _ _ _ _ h := by cases h; exact ⟨expected, rfl⟩
  sees _ _ _ _ _ _ h := by cases h
  acceptFrom table := by
    intro eof ts e mid reports h
    unfold acceptFrom at h
    split at h
    · cases h
    · split at h <;> cases h
  accept kind := by
    intro eof ts e mid reports h
    unfold accept at h
    split at h
    · cases h
    · split at h <;> cases h
  continues _ _ _ _ _ _ h := by cases h

theorem blames_report (d : Diagnostic) : Blames (report d) := by
  intro eof ts e mid reports h
  cases h

/-- What is read with recovery never fails. -/
theorem blames_recover (p : Parser α) : Blames (recover p) := by
  intro eof ts e mid reports h
  obtain ⟨first, mid', reports', hr⟩ := exists_recover p eof ts
  rw [hr] at h
  cases h

theorem blames_closed : Closed Blames :=
  blames_composes.closed (fun _ => blames_report _) fun {_ p} _ => blames_recover p

/-- A fault that does not blame the end leaves a token where it stands. -/
theorem Blames.rest_ne_nil {p : Parser α} (hp : Blames p) {eof : Token} (he : eof.kind = .eof)
    {ts mid : List Token} {e : Diagnostic} {reports : List Diagnostic}
    (h : p eof ts = ⟨.error e, mid, reports⟩) (hblame : ∀ t ∈ e.token?, t.kind ≠ .eof) :
    mid ≠ [] := by
  rintro rfl
  obtain ⟨expected, rfl⟩ := hp h
  exact hblame eof rfl he

/-! ## Statements that take all tokens -/

/-- If the parser takes all tokens, an `ellers` is the only token that could make a difference
behind them. -/
def Closes (p : Parser α) : Prop :=
  ∀ ⦃eof ts a reports⦄, p eof ts = ⟨.ok a, [], reports⟩ → ∀ eof' us,
    headKind us ≠ some .elseKw → p eof' (ts ++ us) = ⟨.ok a, us, reports⟩

/-- Moreover there is at least one token that the parser takes. -/
structure Sealed (p : Parser α) : Prop where
  closes : Closes p
  ne_nil : ∀ ⦃eof ts a reports⦄, p eof ts = ⟨.ok a, [], reports⟩ → ts ≠ []

theorem closes_pure (a : α) : Closes (pure a) := by
  intro eof ts b reports h eof' us _
  cases h
  rfl

/-- The word that may follow a branch: without it the branch ends. -/
theorem closes_optionalElse {f : Option Token → Parser α} (hsome : ∀ t, Closes (f (some t)))
    (hnone : Closes (f none)) : Closes (accept .elseKw >>= f) := by
  intro eof ts a reports h eof' us hus
  have hpass : ∀ (eof : Token) {vs : List Token}, headKind vs ≠ some .elseKw →
      accept .elseKw eof vs = ⟨.ok none, vs, []⟩ := by
    intro eof vs hvs
    cases vs with
    | nil => rfl
    | cons v vs => exact accept_pass (fun hk => hvs (by rw [headKind_cons, hk])) eof vs
  cases ts with
  | nil =>
    rw [bind_ok (hpass eof (by simp))] at h
    rw [List.nil_append, bind_ok (hpass eof' hus)]
    exact hnone h eof' us hus
  | cons t ts =>
    by_cases hk : t.kind = .elseKw
    · rw [bind_ok (accept_take hk eof ts)] at h
      rw [List.cons_append, bind_ok (accept_take hk eof' _)]
      exact hsome t h eof' us hus
    · have hts : ∀ vs, headKind (t :: vs) ≠ some .elseKw := by simp [hk]
      rw [bind_ok (hpass eof (hts ts))] at h
      rw [List.cons_append, bind_ok (hpass eof' (hts _))]
      exact hnone h eof' us hus

theorem sealed_expect (kind : Kind) (expected : Expected) : Sealed (expect kind expected) := by
  have key : ∀ ⦃eof ts t reports⦄, expect kind expected eof ts = ⟨.ok t, [], reports⟩ →
      ts = [t] ∧ t.kind = kind ∧ reports = [] := by
    intro eof ts t reports h
    cases ts with
    | nil => cases h
    | cons t' ts =>
      by_cases hk : t'.kind = kind
      · rw [expect, bind_ok (accept_take hk eof ts)] at h
        cases h
        exact ⟨rfl, hk, rfl⟩
      · rw [expect, bind_ok (accept_pass hk eof ts)] at h
        cases h
  constructor
  · intro eof ts t reports h eof' us _
    obtain ⟨rfl, hk, rfl⟩ := key h
    exact reads_expect.2 ⟨rfl, hk⟩
  · intro eof ts t reports h
    obtain ⟨rfl, -, -⟩ := key h
    exact List.cons_ne_nil _ _

section
variable {p : Parser α} {f : α → Parser β}

/-- A last part that never goes without a token decides alone. -/
theorem Sealed.bind (hp : Framed p) (hf : ∀ a, Sealed (f a)) : Sealed (p >>= f) := by
  constructor
  · intro eof ts b reports h eof' us hus
    obtain ⟨a, mid, first, second, h1, h2, rfl⟩ := exists_of_bind_ok h
    have hmid := (hf a).ne_nil h2
    rw [bind_ok (hp.append h1 hmid eof' us), (hf a).closes h2 eof' us hus]
  · rintro eof ts b reports h rfl
    obtain ⟨a, mid, first, second, h1, h2, rfl⟩ := exists_of_bind_ok h
    exact (hf a).ne_nil h2 (hp.shrinks.rest_eq_nil h1)

/-- A last part that may go without a token, behind one that does not. -/
theorem Sealed.before (hp : Sealed p) (hframed : Framed p) (hf : ∀ a, Closes (f a)) :
    Sealed (p >>= f) := by
  constructor
  · intro eof ts b reports h eof' us hus
    obtain ⟨a, mid, first, second, h1, h2, rfl⟩ := exists_of_bind_ok h
    have hwhole : p eof' (ts ++ us) = ⟨.ok a, mid ++ us, first⟩ := by
      cases mid with
      | nil => exact hp.closes h1 eof' us hus
      | cons t mid => exact hframed.append h1 (List.cons_ne_nil t mid) eof' us
    rw [bind_ok hwhole, hf a h2 eof' us hus]
  · rintro eof ts b reports h rfl
    obtain ⟨a, mid, first, second, h1, -, rfl⟩ := exists_of_bind_ok h
    cases hframed.shrinks.rest_eq_nil h1
    exact hp.ne_nil h1 rfl

theorem Sealed.map (hp : Sealed p) (hframed : Framed p) (g : α → β) :
    Sealed (p >>= fun a => pure (g a)) :=
  hp.before hframed fun a => closes_pure (g a)

end

theorem sealed_expect_pure (kind : Kind) (expected : Expected) (a : α) :
    Sealed (expect kind expected >>= fun _ => pure a) :=
  (sealed_expect kind expected).map (framed_closed.expect kind expected) fun _ => a

theorem sealed_expressionStatement (n : Nat) : Sealed (expressionStatement n) :=
  .bind (framed_closed.expression n) fun _ => sealed_expect_pure ..

theorem sealed_printRest (n : Nat) (keyword : Token) : Sealed (printRest n keyword) :=
  .bind (framed_closed.expression n) fun _ => sealed_expect_pure ..

theorem sealed_declareRest (n : Nat) : Sealed (declareRest n) := by
  refine .bind (framed_closed.expect ..) fun name => .bind (framed_closed.accept _) fun r => ?_
  cases r with
  | none => exact .bind (framed_closed.pure _) fun _ => sealed_expect_pure ..
  | some _ =>
    exact .bind (framed_closed.map _ (framed_closed.expression n)) fun _ => sealed_expect_pure ..

section
variable {part : Parser Stmt} (hp : Sealed part) (hframed : Framed part)

include hp hframed

theorem sealed_branchRest (n : Nat) : Sealed (branchRest n part) := by
  refine .bind (framed_closed.expect ..) fun _ => .bind (framed_closed.expression n) fun test =>
    .bind (framed_closed.expect ..) fun _ => hp.before hframed fun yes => ?_
  refine closes_optionalElse (fun _ => ?_) (closes_pure _)
  exact (hp.map hframed _).closes

theorem sealed_loopRest (n : Nat) : Sealed (loopRest n part) :=
  .bind (framed_closed.expect ..) fun _ => .bind (framed_closed.expression n) fun _ =>
    .bind (framed_closed.expect ..) fun _ => hp.map hframed _

theorem sealed_countingRest (n : Nat) : Sealed (countingRest n part) :=
  .bind (framed_closed.expect ..) fun _ => .bind (framed_closed.countingInitial n) fun _ =>
    .bind (framed_closed.optionalBefore _ n) fun _ => .bind (framed_closed.expect ..) fun _ =>
    .bind (framed_closed.optionalBefore _ n) fun _ => .bind (framed_closed.expect ..) fun _ =>
    hp.map hframed _

omit hp

theorem sealed_blockRest (n : Nat) : Sealed (blockRest n part) :=
  .bind (framed_closed.declarations hframed _ n) fun _ => sealed_expect_pure ..

theorem sealed_functionRest (n : Nat) : Sealed (functionRest n part) :=
  .bind (framed_closed.expect ..) fun _ => .bind (framed_closed.expect ..) fun _ =>
    .bind (framed_closed.parameters n) fun _ => .bind (framed_closed.expect ..) fun _ =>
    .bind (framed_closed.expect ..) fun _ =>
    (sealed_blockRest hframed n).map (framed_closed.blockRest hframed n) _

end

theorem sealed_statement : ∀ (n : Nat) (place : Place), Sealed (statement n place)
  | 0, _ => sealed_expressionStatement 0
  | n + 1, place => by
    have hframed := framed_closed.statement n
    refine .bind framed_closed.current fun token => ?_
    split
    · exact .bind framed_closed.skip fun _ => sealed_declareRest n
    · exact .bind framed_closed.skip fun _ => sealed_functionRest (hframed .outer) n
    · exact .bind framed_closed.skip fun _ =>
        sealed_branchRest (sealed_statement n .inner) (hframed .inner) n
    · exact .bind framed_closed.skip fun _ => sealed_printRest n token
    · exact .bind framed_closed.skip fun _ =>
        sealed_loopRest (sealed_statement n .inner) (hframed .inner) n
    · exact .bind framed_closed.skip fun _ =>
        sealed_countingRest (sealed_statement n .inner) (hframed .inner) n
    · exact .bind framed_closed.skip fun _ => (sealed_blockRest (hframed .outer) n).map
        (framed_closed.blockRest (hframed .outer) n) _
    · exact sealed_expressionStatement (n + 1)

/-! ## Rows of declarations -/

section
variable {item : Parser Stmt} (hframed : Framed item) (hsealed : Sealed item)
  (hblames : Blames item) (hconsumes : Consumes item) {eof : Token} (he : eof.kind = .eof)
  {us : List Token} (hus : headKind us ≠ some .elseKw)

include hframed hsealed hblames he hus

/-- One round in front of more tokens: a fault in it is left behind before they start. -/
theorem recover_append {ts mid : List Token} {first : Option Stmt} {reports : List Diagnostic}
    (h : recover item eof ts = ⟨.ok first, mid, reports⟩)
    (hblame : ∀ d ∈ reports, ∀ t ∈ d.token?, t.kind ≠ .eof)
    (hend : reports ≠ [] → EndsStatement ts) (eof' : Token) :
    recover item eof' (ts ++ us) = ⟨.ok first, mid ++ us, reports⟩ := by
  rcases hstep : item eof ts with ⟨e | s, stop, reports'⟩
  · rw [recover_error hstep] at h
    cases h
    have hstop : stop ≠ [] := hblames.rest_ne_nil he hstep (hblame e (by simp))
    have hsuffix : stop <:+ ts := by
      have hs := hframed.shrinks eof ts
      rwa [hstep] at hs
    have hsemicolon : EndsStatement stop := (hend (by simp)).of_suffix hsuffix
    rw [recover_error (hframed.append hstep hstop eof' us),
      afterFault_append hstop (.inr hsemicolon)]
  · rw [recover_ok hstep] at h
    cases h
    apply recover_ok
    cases mid with
    | nil => exact hsealed.closes hstep eof' us hus
    | cons t mid => exact hframed.append hstep (List.cons_ne_nil t mid) eof' us

include hconsumes

/-- A row of declarations behind another one, by the rounds of the first. -/
theorem declarations_append {eof' : Token} {ss' : List Stmt} {rest : List Token}
    {reports' : List Diagnostic} (hus' : ∀ k, us.length ≤ k →
      declarations none item k eof' us = ⟨.ok ss', rest, reports'⟩) :
    ∀ (m k : Nat) {ts : List Token} {ss : List Stmt} {reports : List Diagnostic},
      declarations none item m eof ts = ⟨.ok ss, [], reports⟩ →
      (∀ d ∈ reports, ∀ t ∈ d.token?, t.kind ≠ .eof) → (reports ≠ [] → EndsStatement ts) →
      (ts ++ us).length ≤ k →
      declarations none item k eof' (ts ++ us) = ⟨.ok (ss ++ ss'), rest, reports ++ reports'⟩
  | 0, k, ts, ss, reports, h, _, _, hk => by
    cases h
    exact hus' k hk
  | m + 1, k, ts, ss, reports, h, hblame, hend, hk => by
    by_cases hended : Ended none ts
    · rw [declarations_stop hended] at h
      cases h
      exact hus' k hk
    · obtain ⟨first, mid, reports₁, hr⟩ := exists_recover item eof ts
      obtain ⟨ss₂, rest₂, reports₂, hd⟩ := exists_declarations none item eof m mid
      rw [declarations_next hended hr hd] at h
      cases h
      have hts : ts ≠ [] := fun hnil => hended (.inl hnil)
      have hlt : mid.length < ts.length := by
        simpa only [hr] using recover_rest_lt hframed.shrinks hconsumes he hts
      have hsuffix : mid <:+ ts := by
        simpa only [hr] using shrinks_closed.recover hframed.shrinks eof ts
      have hround := recover_append hframed hsealed hblames he hus hr
        (fun d hd => hblame d (List.mem_append_left _ hd))
        (fun hne => hend fun hnil => hne (List.append_eq_nil_iff.1 hnil).1) eof'
      have hgoes : ¬ Ended none (ts ++ us) := by
        cases ts with
        | nil => exact absurd rfl hts
        | cons t ts => simp [Ended]
      rw [List.length_append] at hk
      cases k with
      | zero => omega
      | succ k =>
        have hothers := declarations_append hus' m k hd
          (fun d hd => hblame d (List.mem_append_right _ hd))
          (fun hne => (hend fun hnil => hne (List.append_eq_nil_iff.1 hnil).2).of_suffix hsuffix)
          (by rw [List.length_append]; omega)
        rw [declarations_next hgoes hround hothers, List.append_assoc, List.append_assoc]

end

end Parser

/-! ## Whole token lists -/

theorem endMark_append {ts : List Token} (h : ∀ t ∈ ts, t.kind ≠ .eof) {us : List Token}
    (hus : us ≠ []) : endMark (ts ++ us) = endMark us := by
  have hfind : ts.find? (·.kind == .eof) = none := by
    rw [List.find?_eq_none]
    exact fun t ht => by simpa using h t ht
  simp only [endMark, List.find?_append, hfind, Option.none_or, List.getLast?_append,
    List.getLast?_eq_some_getLast hus, Option.some_or]

theorem headKind_beforeEnd {ts : List Token} {k : Kind} (h : headKind ts ≠ some k) :
    headKind (beforeEnd ts) ≠ some k := by
  cases ts with
  | nil => simp [beforeEnd]
  | cons t ts => by_cases ht : t.kind = .eof <;> simp_all [beforeEnd]

/-- What the parser of whole token lists gives, as a row of declarations with any bounds that
hold. -/
theorem declarations_of_parse {ts : List Token} {ss : List Stmt} {errors : List Diagnostic}
    (h : parse ts = ⟨ss, errors⟩) {n k : Nat} (hn : (beforeEnd ts).length ≤ n)
    (hk : (beforeEnd ts).length ≤ k) :
    Parser.declarations none (Parser.statement n .outer) k (endMark ts) (beforeEnd ts) =
      ⟨.ok ss, [], errors⟩ := by
  rw [← (parse_eq_iff_program hn).1 h]
  exact Parser.agree_of_succ (fun m => Parser.agree_declarations
    (Parser.shrinks_closed.statement n .outer) (Parser.consumes_statement n .outer) (.refl _)
    none m (Nat.le_refl m)) hk hn _ _ (endMark_kind ts) (Nat.le_refl _)

/-- A piece that ends with a semicolon wherever it has faults, with more behind it. -/
theorem parse_append_eq {ts us : List Token} {ss ss' : List Stmt}
    {errors errors' : List Diagnostic} (h : parse ts = ⟨ss, errors⟩)
    (h' : parse us = ⟨ss', errors'⟩) (hts : ∀ t ∈ ts, t.kind ≠ .eof)
    (hblame : ∀ d ∈ errors, ∀ t ∈ d.token?, t.kind ≠ .eof)
    (hend : errors ≠ [] → Parser.EndsStatement ts) (hus : headKind us ≠ some .elseKw) :
    parse (ts ++ us) = ⟨ss ++ ss', errors ++ errors'⟩ := by
  by_cases hnil : us = []
  · subst hnil
    have hempty : parse [] = ⟨[], []⟩ := rfl
    cases hempty.symm.trans h'
    simpa using h
  · -- all three are rows with the same item, read with a bound that holds for the whole
    generalize hn : (beforeEnd (ts ++ us)).length = n
    have hlen : ts.length + (beforeEnd us).length = n := by
      rw [← hn, beforeEnd_append hts, List.length_append]
    rw [parse_eq_iff_program (n := n) (by rw [beforeEnd_eq_self hts]; omega),
      beforeEnd_eq_self hts] at h
    rw [parse_eq_iff_program (n := n) (by omega), endMark_append hts hnil, beforeEnd_append hts]
    exact Parser.declarations_append (Parser.framed_closed.statement n .outer)
      (Parser.sealed_statement n .outer) (Parser.blames_closed.statement n .outer)
      (Parser.consumes_statement n .outer) (endMark_kind ts) (headKind_beforeEnd hus)
      (fun k hk => declarations_of_parse h' (by omega) hk) n n h hblame hend
      (by rw [List.length_append]; omega)

/-- Parsing is compositional, faults included: a piece that ends with a semicolon, or that has no
faults, neither changes what follows it nor depends on it, unless it breaks off before its end or an
`ellers` follows. -/
theorem parse_append {ts us : List Token} (hts : ∀ t ∈ ts, t.kind ≠ .eof)
    (hblame : ∀ d ∈ (parse ts).errors, ∀ t ∈ d.token?, t.kind ≠ .eof)
    (hend : (∃ t ∈ ts.getLast?, t.kind = .semicolon) ∨ (parse ts).errors = [])
    (hus : headKind us ≠ some .elseKw) :
    (parse (ts ++ us)).statements = (parse ts).statements ++ (parse us).statements ∧
      (parse (ts ++ us)).errors = (parse ts).errors ++ (parse us).errors := by
  have hsemicolon : (parse ts).errors ≠ [] → Parser.EndsStatement ts := by
    rintro hne t ht
    obtain ⟨t', ht', hk⟩ | hnil := hend
    · cases Option.mem_unique ht ht'
      exact hk
    · exact absurd hnil hne
  have h := parse_append_eq rfl rfl hts hblame hsemicolon hus
  rw [h]
  exact ⟨rfl, rfl⟩

/-- The words of a block with two faults, `skriv ;` and `sæt + ;`, of `skriv a;` and of a third
fault, `b c;`. -/
def faultyPiece : List Token :=
  [⟨.leftBrace, "\x7b", none, 1⟩, ⟨.printKw, "skriv", none, 1⟩, ⟨.semicolon, ";", none, 1⟩,
    ⟨.varKw, "sæt", none, 2⟩, ⟨.plus, "+", none, 2⟩, ⟨.semicolon, ";", none, 2⟩,
    ⟨.rightBrace, "\x7d", none, 3⟩, ⟨.printKw, "skriv", none, 4⟩, ⟨.identifier, "a", none, 4⟩,
    ⟨.semicolon, ";", none, 4⟩, ⟨.identifier, "b", none, 5⟩, ⟨.identifier, "c", none, 5⟩,
    ⟨.semicolon, ";", none, 5⟩]

/-- The words of `skriv d; skriv`, which breaks off. -/
def brokenPiece : List Token :=
  [⟨.printKw, "skriv", none, 6⟩, ⟨.identifier, "d", none, 6⟩, ⟨.semicolon, ";", none, 6⟩,
    ⟨.printKw, "skriv", none, 6⟩]

theorem parse_faultyPiece_append :
    ((parse faultyPiece).statements.length = 2 ∧ (parse faultyPiece).errors.length = 3) ∧
      (parse (faultyPiece ++ brokenPiece)).statements =
        (parse faultyPiece).statements ++ (parse brokenPiece).statements ∧
      (parse (faultyPiece ++ brokenPiece)).errors =
        (parse faultyPiece).errors ++ (parse brokenPiece).errors :=
  ⟨by decide, parse_append (by decide) (by decide) (.inl ⟨_, rfl, rfl⟩) (by decide)⟩

end Sprog
