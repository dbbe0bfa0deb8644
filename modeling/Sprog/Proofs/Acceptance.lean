import Sprog.Proofs.Completeness
import Sprog.Proofs.Rows

/-!
# The parser accepts exactly the grammar

Statements, declarations and whole programs of the grammar are read, each in front of anything it
cannot go on with. For a statement that is unfinished this rules out an `ellers`; for the others
nothing is ruled out, since they end with a token of their own.

* `OfStmt.read`: every phrase of the statement grammar is read.
* `reads_program_iff`: what is read without a fault, and with which tree, is what the grammar says.
* `parse_iff_program`, `parse_eq_iff`: the same for the parser of whole token lists.
* `parse_salvages`: with faults or not, what is parsed is a program that the tokens hold.
-/
namespace Sprog

open Grammar Sprog.Parser

/-! ## Parts of statements -/

section
variable {n : Nat} {eof : Token} {ts rest : List Token}

theorem Grammar.Bare.reads {s : Stmt} (h : Bare s ts) (he : eof.kind = .eof)
    (hlen : (ts ++ rest).length ≤ n) : Reads (expressionStatement n) eof (ts ++ rest) s rest := by
  cases h with
  | mk hexpr hs =>
    simp only [List.append_assoc, List.cons_append, List.nil_append] at hlen ⊢
    exact reads_bind.2 ⟨_, _, hexpr.reads he hlen (stops_cons hs (by decide) _),
      reads_expect_pure.2 ⟨_, rfl, hs, rfl⟩⟩

theorem Grammar.Variable.reads {s : Stmt} {keyword : Token} (h : Variable s (keyword :: ts))
    (he : eof.kind = .eof) (hlen : (ts ++ rest).length ≤ n) :
    Reads (declareRest n) eof (ts ++ rest) s rest := by
  cases h with
  | bare hk hname hs =>
    refine reads_expect_bind.2 ⟨_, _, rfl, hname, ?_⟩
    refine reads_accept_bind.2 (.inr ⟨by simp [hs], ?_⟩)
    exact reads_bind.2 ⟨none, _, reads_pure.2 ⟨rfl, rfl⟩, reads_expect_pure.2 ⟨_, rfl, hs, rfl⟩⟩
  | initial hk hname heq hexpr hs =>
    simp only [List.append_assoc, List.cons_append, List.nil_append] at hlen ⊢
    refine reads_expect_bind.2 ⟨_, _, rfl, hname, ?_⟩
    refine reads_accept_bind.2 (.inl ⟨_, _, rfl, heq, ?_⟩)
    have hvalue := hexpr.reads he (n := n) (by simp at hlen ⊢; omega)
      (stops_cons hs (by decide) rest)
    exact reads_bind.2 ⟨_, _, reads_map.2 ⟨_, hvalue, rfl⟩,
      reads_expect_pure.2 ⟨_, rfl, hs, rfl⟩⟩

theorem Grammar.Initial.reads {initial : Option Stmt} (h : Initial initial ts)
    (he : eof.kind = .eof) (hlen : (ts ++ rest).length ≤ n) :
    Reads (countingInitial n) eof (ts ++ rest) initial rest := by
  cases h with
  | none hs => exact reads_accept_bind.2 (.inl ⟨_, _, rfl, hs, reads_pure.2 ⟨rfl, rfl⟩⟩)
  | declare hv =>
    obtain ⟨t, us, rfl, ht⟩ := hv.exists_head
    refine reads_accept_bind.2 (.inr ⟨by simp [ht], ?_⟩)
    refine reads_accept_bind.2 (.inl ⟨t, us ++ rest, rfl, ht, ?_⟩)
    exact reads_map.2 ⟨_, hv.reads he (by simp at hlen ⊢; omega), rfl⟩
  | bare hb =>
    refine reads_accept_bind.2 (.inr ⟨headKind_ne hb.exists_head rfl _, ?_⟩)
    refine reads_accept_bind.2 (.inr ⟨headKind_ne hb.exists_head rfl _, ?_⟩)
    exact reads_map.2 ⟨_, hb.reads he hlen, rfl⟩

/-- An optional expression in front of a token that is no part of an expression. -/
theorem Grammar.Optional.reads {e : Option Expr} {t : Token} {kind : Kind} (h : Optional e ts)
    (ht : t.kind = kind) (hstart : startsExpression kind = false)
    (hstop : kind ∉ Tier.assignment.swallows) (he : eof.kind = .eof)
    (hlen : (ts ++ t :: rest).length ≤ n) :
    Reads (optionalBefore kind n) eof (ts ++ t :: rest) e (t :: rest) := by
  refine reads_sees_bind.2 ?_
  cases h with
  | none =>
    simp only [List.nil_append, headKind_cons, ht, decide_true, if_true]
    exact reads_pure.2 ⟨rfl, rfl⟩
  | some hexpr =>
    simp only [headKind_ne hexpr.exists_head hstart _, decide_false, Bool.false_eq_true, if_false]
    exact reads_map.2 ⟨_, hexpr.reads he hlen (stops_cons ht hstop rest), rfl⟩

theorem Grammar.Names.reads {names : List Token} (h : Names names ts) {m : Nat}
    (hlen : (ts ++ rest).length ≤ m) (hrest : headKind rest ≠ some .comma) :
    Reads (commaSeparated (expect .identifier .parameterName) m) eof (ts ++ rest) names rest := by
  induction h generalizing m with
  | last hname =>
    cases m with
    | zero => simp at hlen
    | succ m =>
      refine reads_expect_bind.2 ⟨_, _, rfl, hname, ?_⟩
      exact reads_accept_bind.2 (.inr ⟨hrest, reads_pure.2 ⟨rfl, rfl⟩⟩)
  | more hname hcomma _ ih =>
    cases m with
    | zero => simp at hlen
    | succ m =>
      refine reads_expect_bind.2 ⟨_, _, rfl, hname, ?_⟩
      refine reads_accept_bind.2 (.inl ⟨_, _, rfl, hcomma, ?_⟩)
      exact reads_bind.2 ⟨_, _, ih (by simp at hlen ⊢; omega), reads_pure.2 ⟨rfl, rfl⟩⟩

theorem Grammar.Names.exists_head {names : List Token} (h : Names names ts) :
    ∃ t us, ts = t :: us ∧ startsExpression t.kind = true := by
  cases h with
  | last hname | more hname => exact ⟨_, _, rfl, by rw [hname]; rfl⟩

theorem Grammar.Parameters.reads {names : List Token} {closing : Token} (h : Parameters names ts)
    (hc : closing.kind = .rightParen) (hlen : (ts ++ closing :: rest).length ≤ n) :
    Reads (parameters n) eof (ts ++ closing :: rest) names (closing :: rest) := by
  refine reads_sees_bind.2 ?_
  cases h with
  | none =>
    simp only [List.nil_append, headKind_cons, hc, decide_true, if_true]
    exact reads_pure.2 ⟨rfl, rfl⟩
  | some hnames =>
    have hne : headKind (ts ++ closing :: rest) ≠ Option.some .rightParen :=
      headKind_ne hnames.exists_head rfl _
    simp only [hne, decide_false, Bool.false_eq_true, if_false]
    exact hnames.reads hlen (by simp [hc])

end

/-! ## Statements -/

/-- The phrase is read in front of any rest that it cannot go on with. -/
def Grammar.StmtPhrase.Read : StmtPhrase → List Token → Prop
  | .statement unfinished s, ts => ∀ n place eof rest, eof.kind = .eof →
      (ts ++ rest).length ≤ n → (unfinished = true → headKind rest ≠ some .elseKw) →
      Reads (Parser.statement n place) eof (ts ++ rest) s rest
  | .declaration s, ts => ∀ n eof rest, eof.kind = .eof → (ts ++ rest).length ≤ n →
      headKind rest ≠ some .elseKw → Reads (Parser.statement n .outer) eof (ts ++ rest) s rest
  | .declarations ss, ts => ∀ stop n m eof rest, eof.kind = .eof → (ts ++ rest).length ≤ n →
      (ts ++ rest).length ≤ m → stop = none ∨ stop = some .rightBrace → headKind rest = stop →
      Reads (Parser.declarations stop (Parser.statement n .outer) m) eof (ts ++ rest) ss rest

namespace Grammar.StmtPhrase.Read
variable {s : Stmt} {ts us : List Token}

theorem bare (h : Bare s ts) : (StmtPhrase.statement false s).Read ts := by
  intro n place eof rest he hlen _
  cases n with
  | zero => exact h.reads he hlen
  | succ n =>
    have hread := h.reads he hlen
    obtain ⟨t, us, rfl, ht⟩ := h.exists_head
    refine reads_current_bind.2 ?_
    rw [List.cons_append, List.headD_cons]
    cases hk : t.kind with
    | bang | minus | falseKw | trueKw | nilKw | number | string | identifier | leftParen =>
      exact hread
    | _ => rw [hk] at ht; cases ht

theorem print {keyword semicolon : Token} {e : Expr} (hk : keyword.kind = .printKw)
    (hexpr : Expression e ts) (hs : semicolon.kind = .semicolon) :
    (StmtPhrase.statement false (.print keyword e)).Read (keyword :: (ts ++ [semicolon])) := by
  intro n place eof rest he hlen _
  cases n with
  | zero => simp at hlen
  | succ n =>
    refine reads_current_bind.2 ?_
    simp only [List.cons_append, List.headD_cons, hk, List.append_assoc, List.nil_append]
    have hvalue := hexpr.reads he (n := n) (by simp at hlen ⊢; omega)
      (stops_cons hs (by decide) rest)
    exact reads_skip_bind.2 (reads_bind.2 ⟨e, _, hvalue, reads_expect_pure.2 ⟨_, rfl, hs, rfl⟩⟩)

/-- The declarations of a block and its closing brace. -/
theorem reads_blockRest {closing : Token} {body : List Stmt}
    (h : (StmtPhrase.declarations body).Read ts) (hc : closing.kind = .rightBrace) {n : Nat}
    {eof : Token} {rest : List Token} (he : eof.kind = .eof)
    (hlen : (ts ++ closing :: rest).length ≤ n) :
    Reads (blockRest n (Parser.statement n .outer)) eof (ts ++ closing :: rest) body rest := by
  have hbody := h (some .rightBrace) n n eof (closing :: rest) he hlen hlen (.inr rfl)
    (by rw [headKind_cons, hc])
  exact reads_bind.2 ⟨body, _, hbody, reads_expect_pure.2 ⟨closing, rfl, hc, rfl⟩⟩

theorem block {opening closing : Token} {body : List Stmt} (ho : opening.kind = .leftBrace)
    (h : (StmtPhrase.declarations body).Read ts) (hc : closing.kind = .rightBrace) :
    (StmtPhrase.statement false (.block body)).Read (opening :: (ts ++ [closing])) := by
  intro n place eof rest he hlen _
  cases n with
  | zero => simp at hlen
  | succ n =>
    refine reads_current_bind.2 ?_
    simp only [List.cons_append, List.headD_cons, ho, List.append_assoc, List.nil_append]
    refine reads_skip_bind.2 (reads_map.2 ⟨body, ?_, rfl⟩)
    exact reads_blockRest h hc he (by simpa using hlen)

/-- The test of a branch up to the place where its alternative may follow. -/
theorem branchHead {keyword opening closing : Token} {test : Expr} {o : Bool} {yes : Stmt}
    (hk : keyword.kind = .ifKw) (ho : opening.kind = .leftParen) (htest : Expression test ts)
    (hc : closing.kind = .rightParen) (hyes : (StmtPhrase.statement o yes).Read us) {n : Nat}
    {place : Place} {eof : Token} {rest final : List Token} {out : Stmt} (he : eof.kind = .eof)
    (hlen : (keyword :: opening :: (ts ++ closing :: (us ++ rest))).length ≤ n + 1)
    (hrest : o = true → headKind rest ≠ some .elseKw)
    (h : Reads (do
      match ← accept .elseKw with
      | some _ => return .branch test yes (some (← Parser.statement n .inner))
      | none => return .branch test yes none) eof rest out final) :
    Reads (Parser.statement (n + 1) place) eof
      (keyword :: opening :: (ts ++ closing :: (us ++ rest))) out final := by
  refine reads_current_bind.2 ?_
  simp only [List.headD_cons, hk]
  refine reads_skip_bind.2 (reads_expect_bind.2 ⟨opening, _, rfl, ho, ?_⟩)
  have hread := htest.reads he (n := n) (by simp at hlen ⊢; omega)
    (stops_cons hc (by decide) (us ++ rest))
  refine reads_bind.2 ⟨test, _, hread, reads_expect_bind.2 ⟨closing, _, rfl, hc, ?_⟩⟩
  exact reads_bind.2 ⟨yes, rest, hyes n .inner eof rest he (by simp at hlen ⊢; omega) hrest, h⟩

theorem branch {keyword opening closing : Token} {test : Expr} {o : Bool} {yes : Stmt}
    (hk : keyword.kind = .ifKw) (ho : opening.kind = .leftParen) (htest : Expression test ts)
    (hc : closing.kind = .rightParen) (hyes : (StmtPhrase.statement o yes).Read us) :
    (StmtPhrase.statement true (.branch test yes none)).Read
      (keyword :: opening :: (ts ++ closing :: us)) := by
  intro n place eof rest he hlen hrest
  simp only [List.cons_append, List.append_assoc] at hlen ⊢
  cases n with
  | zero => simp at hlen
  | succ n =>
    refine branchHead hk ho htest hc hyes he hlen (fun _ => hrest rfl) ?_
    exact reads_accept_bind.2 (.inr ⟨hrest rfl, reads_pure.2 ⟨rfl, rfl⟩⟩)

theorem alternative {keyword opening closing other : Token} {test : Expr} {o : Bool}
    {yes no : Stmt} {vs : List Token} (hk : keyword.kind = .ifKw)
    (ho : opening.kind = .leftParen) (htest : Expression test ts)
    (hc : closing.kind = .rightParen) (hyes : (StmtPhrase.statement false yes).Read us)
    (helse : other.kind = .elseKw) (hno : (StmtPhrase.statement o no).Read vs) :
    (StmtPhrase.statement o (.branch test yes (some no))).Read
      (keyword :: opening :: (ts ++ closing :: (us ++ other :: vs))) := by
  intro n place eof rest he hlen hrest
  simp only [List.cons_append, List.append_assoc] at hlen ⊢
  cases n with
  | zero => simp at hlen
  | succ n =>
    refine branchHead hk ho htest hc hyes he hlen nofun ?_
    refine reads_accept_bind.2 (.inl ⟨other, _, rfl, helse, ?_⟩)
    have hread := hno n .inner eof rest he (by simp at hlen ⊢; omega) hrest
    exact reads_bind.2 ⟨no, rest, hread, reads_pure.2 ⟨rfl, rfl⟩⟩

theorem loop {keyword opening closing : Token} {test : Expr} {o : Bool} {body : Stmt}
    (hk : keyword.kind = .whileKw) (ho : opening.kind = .leftParen) (htest : Expression test ts)
    (hc : closing.kind = .rightParen) (hbody : (StmtPhrase.statement o body).Read us) :
    (StmtPhrase.statement o (.loop test body)).Read
      (keyword :: opening :: (ts ++ closing :: us)) := by
  intro n place eof rest he hlen hrest
  simp only [List.cons_append, List.append_assoc] at hlen ⊢
  cases n with
  | zero => simp at hlen
  | succ n =>
    refine reads_current_bind.2 ?_
    simp only [List.headD_cons, hk]
    refine reads_skip_bind.2 (reads_expect_bind.2 ⟨opening, _, rfl, ho, ?_⟩)
    have htest := htest.reads he (n := n) (by simp at hlen ⊢; omega)
      (stops_cons hc (by decide) (us ++ rest))
    have hbody := hbody n .inner eof rest he (by simp at hlen ⊢; omega) hrest
    refine reads_bind.2 ⟨test, _, htest, reads_expect_bind.2 ⟨closing, _, rfl, hc, ?_⟩⟩
    exact reads_bind.2 ⟨body, rest, hbody, reads_pure.2 ⟨rfl, rfl⟩⟩

theorem counting {keyword opening semicolon closing : Token} {initial : Option Stmt}
    {test increment : Option Expr} {o : Bool} {body : Stmt} {vs ws : List Token}
    (hk : keyword.kind = .forKw) (ho : opening.kind = .leftParen) (hinitial : Initial initial ts)
    (htest : Optional test us) (hs : semicolon.kind = .semicolon)
    (hincrement : Optional increment vs) (hc : closing.kind = .rightParen)
    (hbody : (StmtPhrase.statement o body).Read ws) :
    (StmtPhrase.statement o (.counting initial test increment body)).Read
      (keyword :: opening :: (ts ++ (us ++ semicolon :: (vs ++ closing :: ws)))) := by
  intro n place eof rest he hlen hrest
  simp only [List.cons_append, List.append_assoc] at hlen ⊢
  cases n with
  | zero => simp at hlen
  | succ n =>
    have hinitial : Reads (countingInitial n) eof
        (ts ++ (us ++ semicolon :: (vs ++ closing :: (ws ++ rest)))) initial _ :=
      hinitial.reads he (by simp at hlen ⊢; omega)
    have htest : Reads (optionalBefore .semicolon n) eof
        (us ++ semicolon :: (vs ++ closing :: (ws ++ rest))) test _ :=
      htest.reads hs rfl (by decide) he (by simp at hlen ⊢; omega)
    have hincrement : Reads (optionalBefore .rightParen n) eof (vs ++ closing :: (ws ++ rest))
        increment _ :=
      hincrement.reads hc rfl (by decide) he (by simp at hlen ⊢; omega)
    have hbody := hbody n .inner eof rest he (by simp at hlen ⊢; omega) hrest
    refine reads_current_bind.2 ?_
    simp only [List.headD_cons, hk]
    refine reads_skip_bind.2 (reads_expect_bind.2 ⟨opening, _, rfl, ho, ?_⟩)
    refine reads_bind.2 ⟨initial, _, hinitial, reads_bind.2 ⟨test, _, htest, ?_⟩⟩
    refine reads_expect_bind.2 ⟨semicolon, _, rfl, hs, ?_⟩
    refine reads_bind.2 ⟨increment, _, hincrement, ?_⟩
    refine reads_expect_bind.2 ⟨closing, _, rfl, hc, ?_⟩
    exact reads_bind.2 ⟨body, rest, hbody, reads_pure.2 ⟨rfl, rfl⟩⟩

theorem declare (h : Variable s ts) : (StmtPhrase.declaration s).Read ts := by
  intro n eof rest he hlen _
  obtain ⟨t, us, rfl, ht⟩ := h.exists_head
  cases n with
  | zero => simp at hlen
  | succ n =>
    refine reads_current_bind.2 ?_
    simp only [List.cons_append, List.headD_cons, ht]
    exact reads_skip_bind.2 (h.reads he (by simpa using hlen))

theorem function {keyword name opening closing left right : Token} {names : List Token}
    {body : List Stmt} (hk : keyword.kind = .functionKw) (hname : name.kind = .identifier)
    (ho : opening.kind = .leftParen) (hnames : Parameters names ts)
    (hc : closing.kind = .rightParen) (hl : left.kind = .leftBrace)
    (hbody : (StmtPhrase.declarations body).Read us) (hr : right.kind = .rightBrace) :
    (StmtPhrase.declaration (.function name names body)).Read
      (keyword :: name :: opening :: (ts ++ closing :: left :: (us ++ [right]))) := by
  intro n eof rest he hlen _
  simp only [List.cons_append, List.append_assoc, List.nil_append] at hlen ⊢
  cases n with
  | zero => simp at hlen
  | succ n =>
    have hnames : Reads (parameters n) eof (ts ++ closing :: left :: (us ++ right :: rest)) names
        (closing :: left :: (us ++ right :: rest)) :=
      hnames.reads hc (by simp at hlen ⊢; omega)
    have hbody : Reads (blockRest n (Parser.statement n .outer)) eof (us ++ right :: rest) body
        rest :=
      reads_blockRest hbody hr he (by simp at hlen ⊢; omega)
    refine reads_current_bind.2 ?_
    simp only [List.headD_cons, hk]
    refine reads_skip_bind.2 (reads_expect_bind.2 ⟨name, _, rfl, hname, ?_⟩)
    refine reads_expect_bind.2 ⟨opening, _, rfl, ho, reads_bind.2 ⟨names, _, hnames, ?_⟩⟩
    refine reads_expect_bind.2 ⟨closing, _, rfl, hc, reads_expect_bind.2 ⟨left, _, rfl, hl, ?_⟩⟩
    exact reads_bind.2 ⟨body, rest, hbody, reads_pure.2 ⟨rfl, rfl⟩⟩

theorem nil : (StmtPhrase.declarations []).Read [] := by
  intro stop n m eof rest _ _ _ _ hrest
  cases m with
  | zero => exact reads_pure.2 ⟨rfl, rfl⟩
  | succ m =>
    refine reads_continues_bind.2 ?_
    simp only [List.nil_append, hrest, ne_eq, not_true_eq_false, and_false, decide_false,
      Bool.false_eq_true, if_false]
    exact reads_pure.2 ⟨rfl, rfl⟩

theorem cons {ss : List Stmt} (hd : OfStmt (.declaration s) ts)
    (h : (StmtPhrase.declaration s).Read ts) (hds : OfStmt (.declarations ss) us)
    (hs : (StmtPhrase.declarations ss).Read us) :
    (StmtPhrase.declarations (s :: ss)).Read (ts ++ us) := by
  intro stop n m eof rest he hn hm hstop hrest
  rw [List.append_assoc] at hn hm ⊢
  have hhead : ∃ t vs, ts = t :: vs ∧ startsDeclaration t.kind = true := by
    obtain ⟨h, -⟩ | h := hd.exists_head
    · cases h
    · exact h
  -- behind a declaration stands another one, or the end that stops them
  have helse : headKind (us ++ rest) ≠ some .elseKw := by
    obtain ⟨-, rfl⟩ | hnext := hds.exists_head
    · rw [List.nil_append, hrest]
      rcases hstop with rfl | rfl <;> simp
    · exact headKind_ne hnext rfl rest
  have hgoes : ts ++ (us ++ rest) ≠ [] ∧ headKind (ts ++ (us ++ rest)) ≠ stop := by
    constructor
    · obtain ⟨t, vs, rfl, -⟩ := hhead
      simp
    · rcases hstop with rfl | rfl
      · obtain ⟨t, vs, rfl, -⟩ := hhead
        simp
      · exact headKind_ne hhead rfl _
  have hpos : 0 < ts.length := by
    obtain ⟨t, vs, rfl, -⟩ := hhead
    simp
  rw [List.length_append] at hn hm
  cases m with
  | zero => omega
  | succ m =>
    refine reads_continues_bind.2 ?_
    simp only [hgoes, ne_eq, not_false_eq_true, and_self, decide_true, if_true]
    have hfirst := h n eof (us ++ rest) he (by rw [List.length_append]; omega) helse
    have hothers := hs stop n m eof rest he (by omega) (by omega) hstop hrest
    refine reads_bind.2 ⟨some s, _, reads_recover.2 ⟨s, rfl, hfirst⟩, ?_⟩
    exact reads_bind.2 ⟨ss, rest, hothers, reads_pure.2 ⟨rfl, rfl⟩⟩

end Grammar.StmtPhrase.Read

/-- Every phrase of the statement grammar is read. -/
theorem Grammar.OfStmt.read {phrase : StmtPhrase} {ts : List Token} (h : OfStmt phrase ts) :
    phrase.Read ts := by
  induction h with
  | bare hb => exact .bare hb
  | print hk he hs => exact .print hk he hs
  | block ho _ hc ih => exact .block ho ih hc
  | branch hk ho ht hc _ ih => exact .branch hk ho ht hc ih
  | alternative hk ho ht hc _ helse _ ihy ihn => exact .alternative hk ho ht hc ihy helse ihn
  | loop hk ho ht hc _ ih => exact .loop hk ho ht hc ih
  | counting hk ho hi ht hs hn hc _ htest hround hcounting ih =>
    obtain rfl := hcounting.eq_counting htest hround
    exact .counting hk ho hi ht hs hn hc ih
  | declare hv => exact .declare hv
  | function hk hn ho hp hc hl _ hr ih => exact .function hk hn ho hp hc hl ih hr
  | statement _ ih => exact fun n eof rest he hn hr => ih n .outer eof rest he hn fun _ => hr
  | nil => exact .nil
  | cons hd hds ih ihs => exact .cons hd ih hds ihs

/-! ## Programs -/

/-- What is read without a fault, and with which tree, is what the grammar says. -/
theorem reads_program_iff {eof : Token} (he : eof.kind = .eof) {n : Nat} {ts : List Token}
    (hn : ts.length ≤ n) {ss : List Stmt} : Reads (program n) eof ts ss [] ↔ Program ss ts := by
  constructor
  · intro h
    obtain ⟨used, hused, hprogram⟩ := sound_program n eof ts ss [] he h
    rw [List.append_nil] at hused
    rwa [hused]
  · intro h
    have hread := h.read none n n eof [] he (by simpa using hn) (by simpa using hn) (.inl rfl) rfl
    rwa [List.append_nil] at hread

/-- A token list is parsed without a fault if the tokens before its end are a program. -/
theorem parse_iff_program {ts : List Token} {ss : List Stmt} :
    parse ts = ⟨ss, []⟩ ↔ Program ss (beforeEnd ts) :=
  (parse_eq_iff_program (Nat.le_refl _)).trans
    (reads_program_iff (endMark_kind ts) (Nat.le_refl _))

/-- The parser accepts exactly the programs of the grammar and gives their trees. -/
theorem parse_eq_iff {ts : List Token} (h : ∀ t ∈ ts, t.kind ≠ .eof) (ss : List Stmt) :
    parse ts = ⟨ss, []⟩ ↔ Program ss ts := by
  rw [parse_iff_program, beforeEnd_eq_self h]

/-- The words of
`hvis (a) hvis (b) for (sæt c = 2; c; c = c - 1) d = -e + f("g") + h; ellers skriv i;`. -/
def danglingElse : List Token :=
  [⟨.ifKw, "hvis", none, 1⟩, ⟨.leftParen, "(", none, 1⟩, ⟨.identifier, "a", none, 1⟩,
    ⟨.rightParen, ")", none, 1⟩, ⟨.ifKw, "hvis", none, 1⟩, ⟨.leftParen, "(", none, 1⟩,
    ⟨.identifier, "b", none, 1⟩, ⟨.rightParen, ")", none, 1⟩, ⟨.forKw, "for", none, 1⟩,
    ⟨.leftParen, "(", none, 1⟩, ⟨.varKw, "sæt", none, 1⟩, ⟨.identifier, "c", none, 1⟩,
    ⟨.equal, "=", none, 1⟩, ⟨.number, "2", some (.number 2), 1⟩, ⟨.semicolon, ";", none, 1⟩,
    ⟨.identifier, "c", none, 1⟩, ⟨.semicolon, ";", none, 1⟩, ⟨.identifier, "c", none, 1⟩,
    ⟨.equal, "=", none, 1⟩, ⟨.identifier, "c", none, 1⟩, ⟨.minus, "-", none, 1⟩,
    ⟨.number, "1", some (.number 1), 1⟩, ⟨.rightParen, ")", none, 1⟩,
    ⟨.identifier, "d", none, 1⟩, ⟨.equal, "=", none, 1⟩, ⟨.minus, "-", none, 1⟩,
    ⟨.identifier, "e", none, 1⟩, ⟨.plus, "+", none, 1⟩, ⟨.identifier, "f", none, 1⟩,
    ⟨.leftParen, "(", none, 1⟩, ⟨.string, "\"g\"", some (.text "g"), 1⟩,
    ⟨.rightParen, ")", none, 1⟩, ⟨.plus, "+", none, 1⟩, ⟨.identifier, "h", none, 1⟩,
    ⟨.semicolon, ";", none, 1⟩, ⟨.elseKw, "ellers", none, 1⟩, ⟨.printKw, "skriv", none, 1⟩,
    ⟨.identifier, "i", none, 1⟩, ⟨.semicolon, ";", none, 1⟩]

/-- Its tree: the alternative belongs to the inner branch, the initial statement and the increment
have a block each, and the sums go to the left. -/
def danglingElseTree : Stmt :=
  .branch (.var ⟨.identifier, "a", none, 1⟩)
    (.branch (.var ⟨.identifier, "b", none, 1⟩)
      (.block [
        .declare ⟨.identifier, "c", none, 1⟩ (some (.constant (.number 2))),
        .loop (.var ⟨.identifier, "c", none, 1⟩)
          (.block [
            .expr (.assign ⟨.identifier, "d", none, 1⟩
              (.binary .add ⟨.plus, "+", none, 1⟩
                (.binary .add ⟨.plus, "+", none, 1⟩
                  (.unary .negate ⟨.minus, "-", none, 1⟩ (.var ⟨.identifier, "e", none, 1⟩))
                  (.call (.var ⟨.identifier, "f", none, 1⟩) ⟨.rightParen, ")", none, 1⟩
                    [.constant (.text "g")]))
                (.var ⟨.identifier, "h", none, 1⟩))),
            .expr (.assign ⟨.identifier, "c", none, 1⟩
              (.binary .subtract ⟨.minus, "-", none, 1⟩ (.var ⟨.identifier, "c", none, 1⟩)
                (.constant (.number 1))))])])
      (some (.print ⟨.printKw, "skriv", none, 1⟩ (.var ⟨.identifier, "i", none, 1⟩))))
    none

theorem program_danglingElse :
    (∀ t ∈ danglingElse, t.kind ≠ .eof) ∧ parse danglingElse = ⟨[danglingElseTree], []⟩ ∧
      Program [danglingElseTree] danglingElse :=
  have h : ∀ t ∈ danglingElse, t.kind ≠ .eof := by decide
  ⟨h, rfl, (parse_eq_iff h _).1 rfl⟩

/-! ## What faults leave of a program -/

/-- Going on after a fault makes nothing up. Whatever a token list gives, some of the tokens before
its end, in their order, are a program and give the same statements: those that survive, with the
blocks and bodies that lost a declaration, and expressions that lost the value of an assignment. -/
theorem parse_salvages (ts : List Token) :
    ∃ us : List Token, us.Sublist (beforeEnd ts) ∧ parse us = ⟨(parse ts).statements, []⟩ := by
  have he := endMark_kind ts
  obtain ⟨ss, reports, hprogram⟩ := exists_program he (Nat.le_refl (beforeEnd ts).length)
  obtain ⟨used, us, hused, hsub, -, hus⟩ := salvages_program _ he _ hprogram
  rw [List.append_nil] at hused
  rw [← hused] at hsub
  have hmarks : ∀ t ∈ us, t.kind ≠ .eof := fun t ht => by
    simpa using List.all_eq_true.1 List.all_takeWhile t (hsub.subset ht)
  refine ⟨us, hsub, ?_⟩
  rw [(parse_eq_iff_program (Nat.le_refl _)).2 hprogram]
  exact parse_iff_program.2 (by rwa [beforeEnd_eq_self hmarks])

end Sprog
