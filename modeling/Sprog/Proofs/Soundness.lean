import Sprog.Proofs.Closure
import Sprog.Proofs.Tiers

/-!
# What is read is in the grammar

A result is written with tokens that the parser took, in their order, as the phrase of that result.
`Salvages p I` says so, with `I` for the phrase. Faults on the way only leave tokens out: a
declaration that fails leaves nothing, and of an assignment to something that is no name only the
target is left. Where nothing is reported nothing is left out, which is the soundness of the parser.

What is left of the tokens stands in front of those that the parser did not take, so `I` may speak
of these too: a statement that ends in a branch without an alternative is never left in front of an
`ellers`. The loops of the parser carry the phrase read so far: going on from a phrase of a tier
gives a longer phrase of that tier.

* `salvages_expression`: expressions, by way of the parser of each tier.
* `salvages_statement`, `salvages_program`: statements and whole programs.
* `sound_program`: what is read as a whole program without a fault is one.
-/
namespace Sprog.Parser

open Grammar

variable {α β : Type}

/-- What the parser gives on `ts` is written, as `I` says, with tokens that it took. -/
def SalvagesAt (p : Parser α) (eof : Token) (ts : List Token)
    (I : α → List Token → List Token → Prop) : Prop :=
  ∀ ⦃a rest reports⦄, p eof ts = ⟨.ok a, rest, reports⟩ → ∃ used kept, ts = used ++ rest ∧
    kept.Sublist used ∧ (reports = [] → kept = used) ∧ I a kept rest

/-- What the parser gives is always written, as `I` says, with tokens that it took. -/
def Salvages (p : Parser α) (I : α → List Token → List Token → Prop) : Prop :=
  ∀ ⦃eof⦄, eof.kind = .eof → ∀ ts, SalvagesAt p eof ts I

namespace SalvagesAt

variable {eof : Token} {ts : List Token} {I : α → List Token → List Token → Prop}
  {J : β → List Token → List Token → Prop}

theorem imp {I' : α → List Token → List Token → Prop} {p : Parser α} (h : SalvagesAt p eof ts I)
    (himp : ∀ a x rest, I a x rest → I' a x rest) : SalvagesAt p eof ts I' := by
  intro a rest reports hp
  obtain ⟨used, kept, hts, hsub, hall, hI⟩ := h hp
  exact ⟨used, kept, hts, hsub, hall, himp a kept rest hI⟩

theorem pure {a : α} (h : I a [] ts) : SalvagesAt (pure a) eof ts I := by
  intro b rest reports hp
  cases hp
  exact ⟨[], [], rfl, .slnil, fun _ => rfl, h⟩

theorem fail {expected : Expected} : SalvagesAt (fail expected) eof ts I := by
  intro a rest reports hp
  cases hp

theorem bind {p : Parser α} {f : α → Parser β} (hp : SalvagesAt p eof ts I)
    (hf : ∀ a x mid, I a x mid → SalvagesAt (f a) eof mid fun b y rest => J b (x ++ y) rest) :
    SalvagesAt (p >>= f) eof ts J := by
  intro b rest reports h
  obtain ⟨a, mid, first, second, hfirst, hsecond, rfl⟩ := exists_of_bind_ok h
  obtain ⟨used, x, rfl, hx, hall, hI⟩ := hp hfirst
  obtain ⟨used', y, rfl, hy, hall', hJ⟩ := hf a x mid hI hsecond
  refine ⟨used ++ used', x ++ y, (List.append_assoc ..).symm, hx.append hy, ?_, hJ⟩
  intro hnil
  obtain ⟨hfirst, hsecond⟩ := List.append_eq_nil_iff.1 hnil
  rw [hall hfirst, hall' hsecond]

theorem map {f : α → β} {p : Parser α} (hp : SalvagesAt p eof ts fun a x rest => J (f a) x rest) :
    SalvagesAt (f <$> p) eof ts J :=
  hp.bind fun _ _ _ hJ => .pure (by simpa using hJ)

/-! ### Looking at the first token -/

theorem current_bind {f : Token → Parser β} (h : SalvagesAt (f (ts.headD eof)) eof ts J) :
    SalvagesAt (current >>= f) eof ts J :=
  fun _ _ _ hp => h hp

theorem sees_bind {kind : Kind} {f : Bool → Parser β} (h : ∀ b, SalvagesAt (f b) eof ts J) :
    SalvagesAt (sees kind >>= f) eof ts J :=
  fun _ _ _ hp => h _ hp

theorem continues_bind {stop : Option Kind} {f : Bool → Parser β}
    (h : ∀ b, SalvagesAt (f b) eof ts J) : SalvagesAt (continues stop >>= f) eof ts J :=
  fun _ _ _ hp => h _ hp

/-! ### Taking the first token -/

/-- A token in front, which is taken. -/
theorem cons {p : Parser β} {t : Token} {q : Parser β}
    (hq : ∀ ⦃b rest reports⦄, q eof (t :: ts) = ⟨.ok b, rest, reports⟩ →
      p eof ts = ⟨.ok b, rest, reports⟩)
    (h : SalvagesAt p eof ts fun b y rest => J b (t :: y) rest) :
    SalvagesAt q eof (t :: ts) J := by
  intro b rest reports hp
  obtain ⟨used, kept, rfl, hsub, hall, hJ⟩ := h (hq hp)
  exact ⟨t :: used, t :: kept, rfl, hsub.cons_cons t, fun hnil => by rw [hall hnil], hJ⟩

theorem skip_bind {t : Token} {f : Unit → Parser β}
    (h : SalvagesAt (f ()) eof ts fun b y rest => J b (t :: y) rest) :
    SalvagesAt (skip >>= f) eof (t :: ts) J :=
  cons (fun _ _ _ hp => hp) h

theorem accept_bind {kind : Kind} {f : Option Token → Parser β}
    (hsome : ∀ t us, ts = t :: us → t.kind = kind →
      SalvagesAt (f (some t)) eof us fun b y rest => J b (t :: y) rest)
    (hnone : headKind ts ≠ some kind → SalvagesAt (f none) eof ts J) :
    SalvagesAt (accept kind >>= f) eof ts J := by
  cases ts with
  | nil => exact hnone (by simp)
  | cons t us =>
    by_cases hk : t.kind = kind
    · refine cons (fun b rest reports hp => ?_) (hsome t us rfl hk)
      rw [bind_ok (accept_take hk eof us)] at hp
      exact hp
    · intro b rest reports hp
      rw [bind_ok (accept_pass hk eof us)] at hp
      exact hnone (by simpa using hk) hp

theorem acceptFrom_bind {table : Kind → Option α} {f : Option (α × Token) → Parser β}
    (hsome : ∀ t us a, ts = t :: us → table t.kind = some a →
      SalvagesAt (f (some (a, t))) eof us fun b y rest => J b (t :: y) rest)
    (hnone : SalvagesAt (f none) eof ts J) : SalvagesAt (acceptFrom table >>= f) eof ts J := by
  cases ts with
  | nil => exact hnone
  | cons t us =>
    cases hk : table t.kind with
    | some a =>
      refine cons (fun b rest reports hp => ?_) (hsome t us a rfl hk)
      rw [bind_ok (acceptFrom_take hk eof us)] at hp
      exact hp
    | none =>
      intro b rest reports hp
      rw [bind_ok (acceptFrom_pass hk eof us)] at hp
      exact hnone hp

theorem expect_bind {kind : Kind} {expected : Expected} {f : Token → Parser β}
    (h : ∀ t us, ts = t :: us → t.kind = kind →
      SalvagesAt (f t) eof us fun b y rest => J b (t :: y) rest) :
    SalvagesAt (expect kind expected >>= f) eof ts J := by
  have hexpect : SalvagesAt (expect kind expected) eof ts fun t x rest =>
      ts = t :: rest ∧ t.kind = kind ∧ x = [t] :=
    accept_bind (fun t us hts hk => .pure ⟨hts, hk, rfl⟩) fun _ => .fail
  refine hexpect.bind ?_
  rintro t x mid ⟨hts, hk, rfl⟩
  exact h t mid hts hk

/-! ### Going on after a fault -/

/-- What fails leaves nothing. -/
theorem recover {p : Parser α} (hs : Shrinks p) (hp : SalvagesAt p eof ts I)
    {J : Option α → List Token → List Token → Prop}
    (hsome : ∀ a x rest, I a x rest → J (some a) x rest) (hnone : ∀ rest, J none [] rest) :
    SalvagesAt (recover p) eof ts J := by
  intro r rest reports h
  rcases hstep : p eof ts with ⟨e | a, mid, reports'⟩
  · rw [recover_error hstep] at h
    cases h
    have hmid : mid <:+ ts := by
      simpa only [hstep] using hs eof ts
    obtain ⟨used, rfl⟩ := (afterFault_suffix mid).trans hmid
    exact ⟨used, [], rfl, List.nil_sublist used, by simp, hnone _⟩
  · rw [recover_ok hstep] at h
    cases h
    obtain ⟨used, kept, hts, hsub, hall, hI⟩ := hp hstep
    exact ⟨used, kept, hts, hsub, hall, hsome a kept rest hI⟩

/-- What the parser took may be left out whole, if it does report something then. -/
theorem dropped {p : Parser β} (h : ∀ ⦃b rest reports⦄, p eof ts = ⟨.ok b, rest, reports⟩ →
    rest <:+ ts ∧ (reports = [] → rest = ts) ∧ J b [] rest) : SalvagesAt p eof ts J := by
  intro b rest reports hp
  obtain ⟨⟨used, rfl⟩, hall, hJ⟩ := h hp
  exact ⟨used, [], rfl, List.nil_sublist used, fun hnil => by simpa using hall hnil, hJ⟩

end SalvagesAt

/-- Items with commas between them, where `L` is closed under the two ways to write such a list. -/
theorem salvages_commaSeparated {item : Parser α} {I : α → List Token → Prop}
    {L : List α → List Token → Prop} (hitem : Salvages item fun a x _ => I a x)
    (last : ∀ a ts, I a ts → L [a] ts)
    (more : ∀ a ts comma as us, I a ts → comma.kind = .comma → L as us →
      L (a :: as) (ts ++ comma :: us)) :
    ∀ n, Salvages (commaSeparated item n) fun as x _ => L as x
  | 0, _, he, ts => (hitem he ts).bind fun a x _ hI => .pure (by simpa using last a x hI)
  | n + 1, _, he, ts => by
    refine (hitem he ts).bind fun a x mid hI => .accept_bind (fun comma us _ hc => ?_) fun _ => ?_
    · refine (salvages_commaSeparated hitem last more n he us).bind fun as y _ hL => .pure ?_
      simpa using more a x comma as y hI hc hL
    · exact .pure (by simpa using last a x hI)

/-! ## Expressions -/

section
variable {expr : Parser Expr} (hexpr : Salvages expr fun e x _ => Expression e x)

include hexpr

theorem salvages_primary :
    Salvages (primary expr) fun e x _ => OfExpr (.expr .primary e) x := by
  intro eof he ts
  refine .current_bind ?_
  cases ts with
  | nil =>
    simp only [List.headD_nil, he]
    exact .fail
  | cons t us =>
    simp only [List.headD_cons]
    split
    · rename_i hk; exact .skip_bind (.pure (.atom (.no hk)))
    · rename_i hk; exact .skip_bind (.pure (.atom (.yes hk)))
    · rename_i hk; exact .skip_bind (.pure (.atom (.nothing hk)))
    · rename_i hk; exact .skip_bind (.pure (.atom (.ofLiteral (hk ▸ .number))))
    · rename_i hk; exact .skip_bind (.pure (.atom (.ofLiteral (hk ▸ .string))))
    · rename_i hk; exact .skip_bind (.pure (.atom (.name hk)))
    · rename_i hk
      exact .skip_bind ((hexpr he us).bind fun inner x _ hI =>
        .expect_bind fun closing _ _ hc => .pure (.group hk hI hc))
    · exact .fail

theorem salvages_arguments (n : Nat) : Salvages (arguments expr n) fun es x _ =>
    (es = [] ∧ x = []) ∨ OfExpr (.list es) x := by
  intro eof he ts
  refine .sees_bind fun b => ?_
  split
  · exact .pure (.inl ⟨rfl, rfl⟩)
  · exact (salvages_commaSeparated (L := fun es => OfExpr (.list es)) hexpr (fun _ _ => .last)
      (fun _ _ _ _ _ => .more) n he ts).imp fun _ _ _ hL => .inr hL

theorem salvages_calls : ∀ (n : Nat) {callee : Expr} {before : List Token},
    OfExpr (.expr .call callee) before →
    Salvages (calls expr n callee) fun e x _ => OfExpr (.expr .call e) (before ++ x)
  | 0, _, _, hb, _, _, _ => .pure (by simpa using hb)
  | n + 1, callee, before, hb, _, he, ts => by
    refine .accept_bind (fun opening us _ ho => ?_) fun _ => .pure (by simpa using hb)
    refine (salvages_arguments hexpr n he us).bind fun args x _ hargs => .expect_bind
      fun closing vs _ hc => ?_
    have hcall : OfExpr (.expr .call (.call callee closing args))
        (before ++ opening :: (x ++ [closing])) := by
      rcases hargs with ⟨rfl, rfl⟩ | hargs
      · exact .callEmpty hb ho hc
      · exact .call hb ho hargs hc
    exact (salvages_calls n hcall he vs).imp fun _ _ _ hI => by simpa using hI

theorem salvages_call (n : Nat) : Salvages (call expr n) fun e x _ => OfExpr (.expr .call e) x :=
  fun _ he ts => (salvages_primary hexpr he ts).bind fun _ _ mid hI =>
    salvages_calls hexpr n (.tighter rfl hI) he mid

end

theorem salvages_unary {operand : Parser Expr}
    (hop : Salvages operand fun e x _ => OfExpr (.expr .call e) x) :
    ∀ n, Salvages (unary operand n) fun e x _ => OfExpr (.expr .unary e) x
  | 0, _, he, ts => (hop he ts).imp fun _ _ _ hI => .tighter rfl hI
  | n + 1, _, he, ts => by
    refine .acceptFrom_bind (fun t us op _ ho => ?_)
      ((hop he ts).imp fun _ _ _ hI => .tighter rfl hI)
    exact (salvages_unary hop n he us).bind fun e x _ hI => .pure (by
      simpa using OfExpr.sign ((sign_iff ..).1 ho) hI)

section
variable {tier next : Tier} {level : Level} {operand : Parser Expr}
  (hl : tier.level? = some level) (hn : tier.next? = some next)
  (hop : Salvages operand fun e x _ => OfExpr (.expr next e) x)

include hl hn hop

theorem salvages_operations : ∀ (n : Nat) {left : Expr} {before : List Token},
    OfExpr (.expr tier left) before →
    Salvages (operations level operand n left) fun e x _ => OfExpr (.expr tier e) (before ++ x)
  | 0, _, _, hb, _, _, _ => .pure (by simpa using hb)
  | n + 1, left, before, hb, _, he, ts => by
    refine .acceptFrom_bind (fun op us node _ ho => ?_) (.pure (by simpa using hb))
    refine (hop he us).bind fun right x mid hI => ?_
    have hlonger := OfExpr.operation hn ((operator_iff hl ..).1 ho) hb hI
    exact (salvages_operations n hlonger he mid).imp fun _ _ _ hI => by simpa using hI

theorem salvages_joined (n : Nat) :
    Salvages (joined n operand level) fun e x _ => OfExpr (.expr tier e) x :=
  fun _ he ts => (hop he ts).bind fun _ _ mid hI =>
    salvages_operations hl hn hop n (.tighter hn hI) he mid

end

theorem salvages_operation {n : Nat} (h : Salvages (expression n) fun e x _ => Expression e x) :
    Salvages (atTier n .disjunction) fun e x _ => OfExpr (.expr .disjunction e) x :=
  atTier_disjunction (P := fun tier p => Salvages p fun e x _ => OfExpr (.expr tier e) x)
    (salvages_unary (salvages_call h (n + 1)) (n + 1))
    fun hl hn hop => salvages_joined hl hn hop (n + 1)

theorem salvages_expression : ∀ n, Salvages (expression n) fun e x _ => Expression e x
  | 0, _, _, _ => .fail
  | n + 1, eof, he, ts => by
    rw [expression_succ]
    refine (salvages_operation (salvages_expression n) he ts).bind fun target x mid hI => ?_
    have htarget : Expression target (x ++ []) := by simpa using OfExpr.tighter rfl hI
    by_cases hvar : ∃ name, target = .var name
    · obtain ⟨name, rfl⟩ := hvar
      obtain ⟨rfl, hname⟩ := hI.eq_of_var
      refine .accept_bind (fun equals us _ hq => ?_) fun _ => .pure htarget
      exact (salvages_expression n he us).bind fun value y _ hvalue => .pure (by
        simpa using OfExpr.assign hname hq hvalue)
    · -- the equals sign and the value behind it are left out
      refine .dropped fun e rest reports h => ?_
      cases mid with
      | nil => cases h; exact ⟨List.suffix_rfl, fun _ => rfl, htarget⟩
      | cons equals us =>
        by_cases hq : equals.kind = .equal
        · rw [bind_ok (accept_take hq eof us)] at h
          obtain ⟨value, mid', first, second, hvalue, hrest, rfl⟩ := exists_of_bind_ok h
          have hs : mid' <:+ us := by simpa only [hvalue] using shrinks_closed.expression n eof us
          split at hrest
          · exact absurd ⟨_, rfl⟩ hvar
          · cases hrest
            exact ⟨hs.trans (List.suffix_cons equals us), by simp, htarget⟩
        · rw [bind_ok (accept_pass hq eof us)] at h
          cases h
          exact ⟨List.suffix_rfl, fun _ => rfl, htarget⟩

/-! ## Parts of statements -/

theorem salvages_expressionStatement (n : Nat) :
    Salvages (expressionStatement n) fun s x _ => Bare s x :=
  fun _ he ts => (salvages_expression n he ts).bind fun _ _ _ hI =>
    .expect_bind fun _ _ _ hs => .pure (.mk hI hs)

theorem salvages_declareRest (n : Nat) {keyword : Token} (hk : keyword.kind = .varKw) :
    Salvages (declareRest n) fun s x _ => Variable s (keyword :: x) := by
  intro eof he ts
  refine .expect_bind fun name us _ hn => .accept_bind (fun equals vs _ hq => ?_) fun _ => ?_
  · refine .bind (.map (J := fun initial x _ => ∃ e, initial = some e ∧ Expression e x)
      ((salvages_expression n he vs).imp fun e _ _ hI => ⟨e, rfl, hI⟩)) ?_
    rintro _ x _ ⟨e, rfl, hI⟩
    exact .expect_bind fun semicolon _ _ hs => .pure (.initial hk hn hq hI hs)
  · refine .bind (.pure (I := fun initial x _ => initial = none ∧ x = []) ⟨rfl, rfl⟩) ?_
    rintro _ _ _ ⟨rfl, rfl⟩
    exact .expect_bind fun semicolon _ _ hs => .pure (.bare hk hn hs)

theorem salvages_countingInitial (n : Nat) :
    Salvages (countingInitial n) fun initial x _ => Initial initial x := by
  intro eof he ts
  refine .accept_bind (fun semicolon _ _ hs => .pure (.none hs)) fun _ =>
    .accept_bind (fun keyword us _ hk => .map ?_) fun _ => .map ?_
  · exact (salvages_declareRest n hk he us).imp fun _ _ _ hI => .declare hI
  · exact (salvages_expressionStatement n he ts).imp fun _ _ _ hI => .bare hI

theorem salvages_optionalBefore (kind : Kind) (n : Nat) :
    Salvages (optionalBefore kind n) fun e x _ => Optional e x := by
  intro eof he ts
  refine .sees_bind fun b => ?_
  split
  · exact .pure .none
  · exact .map ((salvages_expression n he ts).imp fun _ _ _ hI => .some hI)

theorem salvages_parameters (n : Nat) :
    Salvages (parameters n) fun names x _ => Parameters names x := by
  intro eof he ts
  refine .sees_bind fun b => ?_
  split
  · exact .pure .none
  · have hname : Salvages (expect .identifier .parameterName) fun name x _ =>
        x = [name] ∧ name.kind = .identifier := fun _ _ _ =>
      .accept_bind (fun name _ _ hk => .pure ⟨rfl, hk⟩) fun _ => .fail
    have hlast : ∀ name ts, ts = [name] ∧ name.kind = .identifier → Names [name] ts := by
      rintro name _ ⟨rfl, hk⟩
      exact .last hk
    have hmore : ∀ name ts comma names us, ts = [name] ∧ name.kind = .identifier →
        comma.kind = .comma → Names names us → Names (name :: names) (ts ++ comma :: us) := by
      rintro name _ comma names us ⟨rfl, hk⟩ hc hnames
      exact .more hk hc hnames
    exact (salvages_commaSeparated hname hlast hmore n he ts).imp fun _ _ _ hI => .some hI

/-! ## Statements -/

/-- The tokens of a statement in front of others: if it is unfinished, these start with no
`ellers`. -/
def Stands (s : Stmt) (x rest : List Token) : Prop :=
  ∃ o, OfStmt (.statement o s) x ∧ (o = true → headKind rest ≠ some .elseKw)

theorem Stands.of_finished {s : Stmt} {x : List Token} (h : OfStmt (.statement false s) x)
    (rest : List Token) : Stands s x rest :=
  ⟨false, h, by simp⟩

theorem salvages_printRest (n : Nat) {keyword : Token} (hk : keyword.kind = .printKw) :
    Salvages (printRest n keyword) fun s x rest => Stands s (keyword :: x) rest :=
  fun _ he ts => (salvages_expression n he ts).bind fun _ _ _ hI =>
    .expect_bind fun _ _ _ hs => .pure (.of_finished (.print hk hI hs) _)

section
variable {n : Nat} {part : Parser Stmt} (hpart : Salvages part Stands) {keyword : Token}

include hpart

theorem salvages_branchRest (hk : keyword.kind = .ifKw) :
    Salvages (branchRest n part) fun s x rest => Stands s (keyword :: x) rest := by
  intro eof he ts
  refine .expect_bind fun opening us _ ho => (salvages_expression n he us).bind fun test x mid hI =>
    .expect_bind fun closing vs _ hc => (hpart he vs).bind fun yes y mid' hyes => ?_
  obtain ⟨o, hyes, hend⟩ := hyes
  refine .accept_bind (fun other ws hmid hother => ?_) fun hne => .pure ?_
  · -- an `ellers` follows, so the first part is finished
    have hfinished : o = false := by
      cases o with
      | false => rfl
      | true => exact absurd (by simp [hmid, hother]) (hend rfl)
    subst hfinished
    refine (hpart he ws).bind fun no z rest hno => .pure ?_
    obtain ⟨o', hno, hend'⟩ := hno
    refine ⟨o', ?_, hend'⟩
    simpa using OfStmt.alternative hk ho hI hc hyes hother hno
  · refine ⟨true, ?_, fun _ => hne⟩
    simpa using OfStmt.branch hk ho hI hc hyes

theorem salvages_loopRest (hk : keyword.kind = .whileKw) :
    Salvages (loopRest n part) fun s x rest => Stands s (keyword :: x) rest := by
  intro eof he ts
  refine .expect_bind fun opening us _ ho => (salvages_expression n he us).bind fun test x mid hI =>
    .expect_bind fun closing vs _ hc => (hpart he vs).bind fun body y rest hbody => .pure ?_
  obtain ⟨o, hbody, hend⟩ := hbody
  refine ⟨o, ?_, hend⟩
  simpa using OfStmt.loop hk ho hI hc hbody

theorem salvages_countingRest (hk : keyword.kind = .forKw) :
    Salvages (countingRest n part) fun s x rest => Stands s (keyword :: x) rest := by
  intro eof he ts
  refine .expect_bind fun opening us _ ho =>
    (salvages_countingInitial n he us).bind fun initial x mid hinitial =>
    (salvages_optionalBefore _ n he mid).bind fun test y _ htest =>
    .expect_bind fun semicolon vs _ hs =>
    (salvages_optionalBefore _ n he vs).bind fun increment z _ hincrement =>
    .expect_bind fun closing ws _ hc => (hpart he ws).bind fun body u rest hbody => .pure ?_
  obtain ⟨o, hbody, hend⟩ := hbody
  refine ⟨o, ?_, hend⟩
  simpa using OfStmt.countingLoop hk ho hinitial htest hs hincrement hc hbody

end

/-! ## Declarations -/

section
variable {item : Parser Stmt} (hs : Shrinks item)
  (hitem : Salvages item fun s x _ => OfStmt (.declaration s) x)

include hs hitem

theorem salvages_declarations (stop : Option Kind) :
    ∀ n, Salvages (declarations stop item n) fun ss x _ => OfStmt (.declarations ss) x
  | 0, _, _, _ => .pure .nil
  | n + 1, _, he, ts => by
    refine .continues_bind fun b => ?_
    split
    · refine .bind (.recover hs (hitem he ts) (J := fun first x _ =>
        OfStmt (.declarations first.toList) x) (fun s x _ hI => ?_) fun _ => .nil) ?_
      · simpa using OfStmt.cons hI .nil
      · intro first x mid hfirst
        refine (salvages_declarations stop n he mid).bind fun ss y _ hss => .pure ?_
        simpa using hfirst.append hss
    · exact .pure .nil

theorem salvages_blockRest (n : Nat) : Salvages (blockRest n item) fun body x _ =>
    ∃ us closing, x = us ++ [closing] ∧ closing.kind = .rightBrace ∧
      OfStmt (.declarations body) us :=
  fun _ he ts => (salvages_declarations hs hitem _ n he ts).bind fun _ us _ hI =>
    .expect_bind fun closing _ _ hc => .pure ⟨us, closing, rfl, hc, hI⟩

theorem salvages_functionRest (n : Nat) {keyword : Token} (hk : keyword.kind = .functionKw) :
    Salvages (functionRest n item) fun s x _ => OfStmt (.declaration s) (keyword :: x) := by
  intro eof he ts
  refine .expect_bind fun name _ _ hn => .expect_bind fun opening us _ ho =>
    (salvages_parameters n he us).bind fun names x _ hnames =>
    .expect_bind fun closing _ _ hc => .expect_bind fun left vs _ hleft =>
    (salvages_blockRest hs hitem n he vs).bind fun body _ _ hbody => .pure ?_
  obtain ⟨y, right, rfl, hright, hbody⟩ := hbody
  simpa using OfStmt.function hk hn ho hnames hc hleft hbody hright

end

/-! ## The knot -/

/-- What may stand at a place: statements, and at the outer one declarations too. -/
def Placed : Place → Stmt → List Token → List Token → Prop
  | .outer, s, x, _ => OfStmt (.declaration s) x
  | .inner, s, x, rest => Stands s x rest

theorem Stands.placed {s : Stmt} {x rest : List Token} (h : Stands s x rest) (place : Place) :
    Placed place s x rest := by
  cases place with
  | outer => exact .statement h.choose_spec.1
  | inner => exact h

theorem salvages_statement : ∀ (n : Nat) (place : Place),
    Salvages (statement n place) (Placed place)
  | 0, place, _, he, ts => (salvages_expressionStatement 0 he ts).imp fun _ _ rest hI =>
    (Stands.of_finished (.bare hI) rest).placed place
  | n + 1, place, eof, he, ts => by
    have hinner := salvages_statement n .inner
    have houter := salvages_statement n .outer
    have hs := shrinks_closed.statement n .outer
    have hbare : SalvagesAt (expressionStatement (n + 1)) eof ts (Placed place) :=
      (salvages_expressionStatement (n + 1) he ts).imp fun _ _ rest hI =>
        (Stands.of_finished (.bare hI) rest).placed place
    refine .current_bind ?_
    cases ts with
    | nil =>
      simp only [List.headD_nil, he]
      exact hbare
    | cons t us =>
      simp only [List.headD_cons]
      split
      · rename_i hk
        exact .skip_bind ((salvages_declareRest n hk he us).imp fun _ _ _ hI => .declare hI)
      · rename_i hk
        exact .skip_bind (salvages_functionRest hs houter n hk he us)
      · rename_i hk
        exact .skip_bind ((salvages_branchRest hinner hk he us).imp fun _ _ _ hI => hI.placed _)
      · rename_i hk
        exact .skip_bind ((salvages_printRest n hk he us).imp fun _ _ _ hI => hI.placed _)
      · rename_i hk
        exact .skip_bind ((salvages_loopRest hinner hk he us).imp fun _ _ _ hI => hI.placed _)
      · rename_i hk
        exact .skip_bind ((salvages_countingRest hinner hk he us).imp fun _ _ _ hI =>
          hI.placed _)
      · rename_i hk
        refine .skip_bind ((salvages_blockRest hs houter n he us).bind fun body _ rest hbody =>
          .pure ?_)
        obtain ⟨x, closing, rfl, hc, hbody⟩ := hbody
        simpa using (Stands.of_finished (.block hk hbody hc) rest).placed _
      · exact hbare

/-- What is left of a program is a program. -/
theorem salvages_program (n : Nat) : Salvages (program n) fun ss x _ => Program ss x :=
  salvages_declarations (shrinks_closed.statement n .outer) (salvages_statement n .outer) none n

/-! ## Without a fault -/

/-- What the parser reads without a fault is written as `I` of its result. -/
def Sound (p : Parser α) (I : α → List Token → Prop) : Prop :=
  ∀ eof ts a rest, eof.kind = .eof → Reads p eof ts a rest → ∃ used, ts = used ++ rest ∧ I a used

theorem Salvages.sound {p : Parser α} {I : α → List Token → Prop}
    (h : Salvages p fun a x _ => I a x) : Sound p I := by
  intro eof ts a rest he hreads
  obtain ⟨used, kept, hts, -, hall, hI⟩ := h he ts hreads
  obtain rfl := hall rfl
  exact ⟨_, hts, hI⟩

/-- What is read as a whole program is one. -/
theorem sound_program (n : Nat) : Sound (program n) Program :=
  (salvages_program n).sound

end Sprog.Parser
