import Sprog.Proofs.Grammar

/-!
# Trees with other tokens

The grammar sees the kind of a token and, for a constant, its literal. A change of all tokens that
keeps these (`KeepsWords`), such as a change of their lines, therefore turns a program into a
program, whose tree is the old one with its tokens changed.

* `Expr.mapTokens`, `Stmt.mapTokens`: the tree with its tokens changed.
* `OfExpr.map`, `OfStmt.map`: phrases with their tokens changed.
-/
namespace Sprog

/-! ## Changing the tokens of a tree -/

mutual

/-- The expression with its tokens changed. -/
def Expr.mapTokens (f : Token → Token) : Expr → Expr
  | .constant c => .constant c
  | .group e => .group (e.mapTokens f)
  | .unary op token e => .unary op (f token) (e.mapTokens f)
  | .binary op token l r => .binary op (f token) (l.mapTokens f) (r.mapTokens f)
  | .logical op token l r => .logical op (f token) (l.mapTokens f) (r.mapTokens f)
  | .var name => .var (f name)
  | .assign name e => .assign (f name) (e.mapTokens f)
  | .call callee closing args => .call (callee.mapTokens f) (f closing) (Expr.mapAll f args)

/-- Expressions with their tokens changed. -/
def Expr.mapAll (f : Token → Token) : List Expr → List Expr
  | [] => []
  | e :: es => e.mapTokens f :: Expr.mapAll f es

end

mutual

/-- The statement with its tokens changed. -/
def Stmt.mapTokens (f : Token → Token) : Stmt → Stmt
  | .expr e => .expr (e.mapTokens f)
  | .print keyword e => .print (f keyword) (e.mapTokens f)
  | .declare name initial => .declare (f name) (initial.map (Expr.mapTokens f))
  | .block body => .block (Stmt.mapAll f body)
  | .branch test yes none => .branch (test.mapTokens f) (yes.mapTokens f) none
  | .branch test yes (some no) =>
    .branch (test.mapTokens f) (yes.mapTokens f) (some (no.mapTokens f))
  | .loop test body => .loop (test.mapTokens f) (body.mapTokens f)
  | .function name parameters body =>
    .function (f name) (parameters.map f) (Stmt.mapAll f body)

/-- Statements with their tokens changed. -/
def Stmt.mapAll (f : Token → Token) : List Stmt → List Stmt
  | [] => []
  | s :: ss => s.mapTokens f :: Stmt.mapAll f ss

end

theorem Stmt.mapTokens_counting (f : Token → Token) (initial : Option Stmt)
    (test increment : Option Expr) (body : Stmt) :
    (Stmt.counting initial test increment body).mapTokens f =
      .counting (initial.map (Stmt.mapTokens f)) (test.map (Expr.mapTokens f))
        (increment.map (Expr.mapTokens f)) (body.mapTokens f) := by
  cases initial <;> cases test <;> cases increment <;> rfl

namespace Grammar

/-- A change of tokens that the grammar does not see. -/
structure KeepsWords (f : Token → Token) : Prop where
  kind : ∀ t, (f t).kind = t.kind
  literal : ∀ t, (f t).literal = t.literal

/-- The phrase with its tokens changed. -/
def ExprPhrase.mapTokens (f : Token → Token) : ExprPhrase → ExprPhrase
  | .expr tier e => .expr tier (e.mapTokens f)
  | .list es => .list (Expr.mapAll f es)

/-- The phrase with its tokens changed. -/
def StmtPhrase.mapTokens (f : Token → Token) : StmtPhrase → StmtPhrase
  | .statement unfinished s => .statement unfinished (s.mapTokens f)
  | .declaration s => .declaration (s.mapTokens f)
  | .declarations ss => .declarations (Stmt.mapAll f ss)

/-! ## Expressions -/

theorem Operator.mapTokens {tier : Tier} {k : Kind} {node : Token → Expr → Expr → Expr}
    (h : Operator tier k node) (f : Token → Token) (op : Token) (left right : Expr) :
    (node op left right).mapTokens f = node (f op) (left.mapTokens f) (right.mapTokens f) := by
  cases h <;> rfl

variable {f : Token → Token} (hf : KeepsWords f)

include hf

theorem Atom.map {t : Token} {e : Expr} (h : Atom t e) : Atom (f t) (e.mapTokens f) := by
  have hkind := hf.kind t
  cases h with
  | no hk => exact .no (hkind.trans hk)
  | yes hk => exact .yes (hkind.trans hk)
  | nothing hk => exact .nothing (hkind.trans hk)
  | number hk hl => exact .number (hkind ▸ hk) ((hf.literal t).trans hl)
  | text hk hl => exact .text (hkind ▸ hk) ((hf.literal t).trans hl)
  | blank hk hl => exact .blank (hkind ▸ hk) ((hf.literal t).trans hl)
  | name hk => exact .name (hkind.trans hk)

theorem OfExpr.map {phrase : ExprPhrase} {ts : List Token} (h : OfExpr phrase ts) :
    OfExpr (phrase.mapTokens f) (ts.map f) := by
  have hk : ∀ {t k}, t.kind = k → (f t).kind = k := fun {t _} ht => (hf.kind t).trans ht
  induction h with
  | tighter hn _ ih => exact .tighter hn ih
  | assign hname heq _ ih => exact .assign (hk hname) (hk heq) ih
  | @operation tier next node op left right ts us hn ho _ _ ihl ihr =>
    rw [List.map_append, List.map_cons, ExprPhrase.mapTokens, ho.mapTokens]
    refine .operation hn ?_ ihl ihr
    rwa [hf.kind]
  | sign hs _ ih =>
    refine .sign ?_ ih
    rwa [hf.kind]
  | callEmpty _ ho hc ih =>
    rw [List.map_append]
    exact .callEmpty ih (hk ho) (hk hc)
  | call _ ho _ hc ih ihs =>
    rw [List.map_append, List.map_cons, List.map_append]
    exact .call ih (hk ho) ihs (hk hc)
  | atom ha => exact .atom (ha.map hf)
  | group ho _ hc ih =>
    rw [List.map_cons, List.map_append]
    exact .group (hk ho) ih (hk hc)
  | last _ ih => exact .last ih
  | more _ hc _ ih ihs =>
    rw [List.map_append, List.map_cons]
    exact .more ih (hk hc) ihs

/-! ## Statements -/

theorem Names.map {names ts : List Token} (h : Names names ts) :
    Names (names.map f) (ts.map f) := by
  induction h with
  | last hname => exact .last ((hf.kind _).trans hname)
  | more hname hcomma _ ih =>
    exact .more ((hf.kind _).trans hname) ((hf.kind _).trans hcomma) ih

theorem Parameters.map {names ts : List Token} (h : Parameters names ts) :
    Parameters (names.map f) (ts.map f) := by
  cases h with
  | none => exact .none
  | some hnames => exact .some (hnames.map hf)

theorem Optional.map {e : Option Expr} {ts : List Token} (h : Optional e ts) :
    Optional (e.map (Expr.mapTokens f)) (ts.map f) := by
  cases h with
  | none => exact .none
  | some he => exact .some (he.map hf)

theorem Variable.map {s : Stmt} {ts : List Token} (h : Variable s ts) :
    Variable (s.mapTokens f) (ts.map f) := by
  have hk : ∀ {t k}, t.kind = k → (f t).kind = k := fun {t _} ht => (hf.kind t).trans ht
  cases h with
  | bare hkeyword hname hs => exact .bare (hk hkeyword) (hk hname) (hk hs)
  | initial hkeyword hname heq he hs =>
    rw [List.map_cons, List.map_cons, List.map_cons, List.map_append]
    exact .initial (hk hkeyword) (hk hname) (hk heq) (he.map hf) (hk hs)

theorem Bare.map {s : Stmt} {ts : List Token} (h : Bare s ts) :
    Bare (s.mapTokens f) (ts.map f) := by
  cases h with
  | mk he hs =>
    rw [List.map_append]
    exact .mk (he.map hf) ((hf.kind _).trans hs)

theorem Initial.map {initial : Option Stmt} {ts : List Token} (h : Initial initial ts) :
    Initial (initial.map (Stmt.mapTokens f)) (ts.map f) := by
  cases h with
  | none hs => exact .none ((hf.kind _).trans hs)
  | declare hv => exact .declare (hv.map hf)
  | bare hb => exact .bare (hb.map hf)

theorem OfStmt.map {phrase : StmtPhrase} {ts : List Token} (h : OfStmt phrase ts) :
    OfStmt (phrase.mapTokens f) (ts.map f) := by
  have hk : ∀ {t k}, t.kind = k → (f t).kind = k := fun {t _} ht => (hf.kind t).trans ht
  induction h with
  | bare hb => exact .bare (hb.map hf)
  | print hkeyword he hs =>
    rw [List.map_cons, List.map_append]
    exact .print (hk hkeyword) (he.map hf) (hk hs)
  | block ho _ hc ih =>
    rw [List.map_cons, List.map_append]
    exact .block (hk ho) ih (hk hc)
  | branch hkeyword ho ht hc _ ih =>
    rw [List.map_cons, List.map_cons, List.map_append, List.map_cons]
    exact .branch (hk hkeyword) (hk ho) (ht.map hf) (hk hc) ih
  | alternative hkeyword ho ht hc _ helse _ ihyes ihno =>
    rw [List.map_cons, List.map_cons, List.map_append, List.map_cons, List.map_append,
      List.map_cons]
    exact .alternative (hk hkeyword) (hk ho) (ht.map hf) (hk hc) ihyes (hk helse) ihno
  | loop hkeyword ho ht hc _ ih =>
    rw [List.map_cons, List.map_cons, List.map_append, List.map_cons]
    exact .loop (hk hkeyword) (hk ho) (ht.map hf) (hk hc) ih
  | counting hkeyword ho hi ht hs hn hc _ htest hround hcounting ih =>
    rw [hcounting.eq_counting htest hround, List.map_cons, List.map_cons, List.map_append,
      List.map_append, List.map_cons, List.map_append, List.map_cons, StmtPhrase.mapTokens,
      Stmt.mapTokens_counting]
    exact .countingLoop (hk hkeyword) (hk ho) (hi.map hf) (ht.map hf) (hk hs) (hn.map hf) (hk hc)
      ih
  | declare hv => exact .declare (hv.map hf)
  | function hkeyword hname ho hp hc hl _ hr ih =>
    rw [List.map_cons, List.map_cons, List.map_cons, List.map_append, List.map_cons,
      List.map_cons, List.map_append]
    exact .function (hk hkeyword) (hk hname) (hk ho) (hp.map hf) (hk hc) (hk hl) ih (hk hr)
  | statement _ ih => exact .statement ih
  | nil => exact .nil
  | cons _ _ ih ihs =>
    rw [List.map_append]
    exact .cons ih ihs

end Grammar

end Sprog
