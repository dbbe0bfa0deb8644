import Sprog.Proofs.Grammar
import Sprog.Proofs.Rules

/-!
# Which rules a program obeys

Every operator, name, closing parenthesis and print keyword in a tree is one of the tokens that the
tree is written with, and of the kind that belongs there. So a tree obeys all rules that allow these
tokens (`Rules.Allow`). Only declarations that are elements of the program itself, and not part of
one of its statements, stand outside a scope of their own: the branches of a branch and the body of
a loop are never bare declarations, and a counting loop brings its own scope.

* `Stmt.declares?`: the name that a statement itself declares.
* `OfExpr.obeys`, `OfStmt.obeys`: phrases of the grammar.
-/
namespace Sprog

/-- Operators that join or change values. -/
def Kind.isOperator : Kind → Bool
  | .bang | .minus | .plus | .slash | .star | .bangEqual | .equalEqual | .greater | .greaterEqual
  | .less | .lessEqual => true
  | _ => false

/-- The name that the statement itself declares, if it is a declaration. -/
def Stmt.declares? : Stmt → Option Token
  | .declare name _ | .function name _ _ => some name
  | .expr _ | .print .. | .block _ | .branch .. | .loop .. => none

/-- The rules allow loops, and each of the tokens to do what its kind is for. -/
structure Rules.Allow (r : Rules) (ts : List Token) : Prop where
  operator : ∀ t ∈ ts, t.kind.isOperator → r.operator t
  read : ∀ t ∈ ts, t.kind = .identifier → r.read t
  assigned : ∀ t ∈ ts, t.kind = .identifier → r.assigned t
  closing : ∀ t ∈ ts, t.kind = .rightParen → r.closing t
  keyword : ∀ t ∈ ts, t.kind = .printKw → r.keyword t
  loops : r.loops = true

theorem Rules.Allow.mono {r : Rules} {ts us : List Token} (h : r.Allow ts) (hsub : us ⊆ ts) :
    r.Allow us where
  operator t ht := h.operator t (hsub ht)
  read t ht := h.read t (hsub ht)
  assigned t ht := h.assigned t (hsub ht)
  closing t ht := h.closing t (hsub ht)
  keyword t ht := h.keyword t (hsub ht)
  loops := h.loops

namespace Grammar

/-! ## Expressions -/

def ExprPhrase.obeys (r : Rules) : ExprPhrase → Bool
  | .expr _ e => e.obeys r
  | .list es => Expr.obeysAll r es

theorem Operator.obeys {tier : Tier} {op : Token} {node : Token → Expr → Expr → Expr}
    (h : Operator tier op.kind node) {r : Rules} (hop : op.kind.isOperator → r.operator op)
    {left right : Expr} (hleft : left.obeys r) (hright : right.obeys r) :
    (node op left right).obeys r := by
  generalize op.kind = k at h hop
  cases h <;> simp_all [Expr.obeys, Kind.isOperator]

theorem Sign.isOperator {k : Kind} {op : UnaryOp} (h : Sign k op) : k.isOperator := by
  cases h <;> rfl

theorem Atom.obeys {t : Token} {e : Expr} (h : Atom t e) {r : Rules} (hr : r.Allow [t]) :
    e.obeys r := by
  cases h with
  | name hk => exact hr.read t List.mem_cons_self hk
  | no | yes | nothing | number | text | blank => rfl

theorem OfExpr.obeys {phrase : ExprPhrase} {ts : List Token} (h : OfExpr phrase ts) {r : Rules}
    (hr : r.Allow ts) : phrase.obeys r := by
  induction h with
  | tighter _ _ ih => exact ih hr
  | assign hname _ _ ih =>
    have hvalue := ih (hr.mono fun t ht => by simp [ht])
    have hassigned := hr.assigned _ (by simp) hname
    simpa [ExprPhrase.obeys, Expr.obeys, hassigned] using hvalue
  | operation _ hop _ _ ihl ihr =>
    have hleft := ihl (hr.mono fun t ht => by simp [ht])
    have hright := ihr (hr.mono fun t ht => by simp [ht])
    exact hop.obeys (hr.operator _ (by simp)) hleft hright
  | sign hsign _ ih =>
    have hoperand := ih (hr.mono fun t ht => by simp [ht])
    have hoperator := hr.operator _ (by simp) hsign.isOperator
    simpa [ExprPhrase.obeys, Expr.obeys, hoperator] using hoperand
  | callEmpty _ _ hclosing ih =>
    have hcallee := ih (hr.mono fun t ht => by simp [ht])
    have hallowed := hr.closing _ (by simp) hclosing
    simpa [ExprPhrase.obeys, Expr.obeys, Expr.obeysAll, hallowed] using hcallee
  | call _ _ _ hclosing ih ihs =>
    have hcallee := ih (hr.mono fun t ht => by simp [ht])
    have hargs := ihs (hr.mono fun t ht => by simp [ht])
    have hallowed := hr.closing _ (by simp) hclosing
    simp_all [ExprPhrase.obeys, Expr.obeys]
  | atom ha => exact ha.obeys hr
  | group _ _ _ ih => exact ih (hr.mono fun t ht => by simp [ht])
  | last _ ih => simpa [ExprPhrase.obeys, Expr.obeysAll] using ih hr
  | more _ _ _ ih ihs =>
    have hfirst := ih (hr.mono fun t ht => by simp [ht])
    have hrest := ihs (hr.mono fun t ht => by simp [ht])
    simp_all [ExprPhrase.obeys, Expr.obeysAll]

/-! ## Parts of statements -/

theorem Optional.obeys {e : Option Expr} {ts : List Token} (h : Optional e ts) {r : Rules}
    (hr : r.Allow ts) : ∀ e', e = .some e' → e'.obeys r := by
  cases h with
  | none => nofun
  | some he =>
    rintro _ ⟨rfl⟩
    exact he.obeys hr

/-- A variable may be declared where the rules allow its name. -/
theorem Variable.obeys {s : Stmt} {ts : List Token} (h : Variable s ts) {r : Rules}
    (hr : r.Allow ts) {inside : Bool}
    (hname : ∀ name, s.declares? = some name → (inside || r.declared name) = true) :
    s.obeys r inside := by
  cases h with
  | bare => exact hname _ rfl
  | initial _ _ _ he =>
    have hinitial := he.obeys (hr.mono fun t ht => by simp [ht])
    exact Bool.and_eq_true_iff.2 ⟨hname _ rfl, hinitial⟩

theorem Bare.obeys {s : Stmt} {ts : List Token} (h : Bare s ts) {r : Rules} (hr : r.Allow ts)
    (inside : Bool) : s.obeys r inside := by
  cases h with
  | mk he => exact he.obeys (hr.mono fun t ht => by simp [ht])

/-- The first part of a counting loop has a scope of its own. -/
theorem Initial.obeys {initial : Option Stmt} {ts : List Token} (h : Initial initial ts)
    {r : Rules} (hr : r.Allow ts) : ∀ s, initial = some s → s.obeys r true := by
  cases h with
  | none => nofun
  | declare hv =>
    rintro _ ⟨rfl⟩
    exact hv.obeys hr fun _ _ => rfl
  | bare hb =>
    rintro _ ⟨rfl⟩
    exact hb.obeys hr true

/-- The parts of a counting loop decide whether the loop obeys. Its body is inside of a scope if
there is a first part, so it has to obey both inside and outside. -/
theorem obeys_counting {r : Rules} (hloops : r.loops = true) {initial : Option Stmt}
    {test increment : Option Expr} {body : Stmt} (hinitial : ∀ s, initial = some s → s.obeys r true)
    (htest : ∀ e, test = some e → e.obeys r) (hincrement : ∀ e, increment = some e → e.obeys r)
    (hbody : ∀ inside, body.obeys r inside) (inside : Bool) :
    (Stmt.counting initial test increment body).obeys r inside := by
  have htest' : (test.getD (.constant (.bool true))).obeys r := by
    cases test with
    | none => rfl
    | some e => exact htest e rfl
  cases increment with
  | none => cases initial <;> simp [Stmt.counting, Stmt.obeys, Stmt.obeysAll, *]
  | some e =>
    have he := hincrement e rfl
    cases initial <;> simp [Stmt.counting, Stmt.obeys, Stmt.obeysAll, *]

/-! ## Statements -/

/-- What a phrase obeys. A statement obeys the rules wherever it stands. A declaration does if its
name may be declared there. -/
def StmtPhrase.Obeys (r : Rules) : StmtPhrase → Prop
  | .statement _ s => ∀ inside, s.obeys r inside
  | .declaration s => ∀ inside : Bool,
    (∀ name, s.declares? = some name → (inside || r.declared name) = true) → s.obeys r inside
  | .declarations ss => ∀ inside : Bool,
    (∀ s ∈ ss, ∀ name, s.declares? = some name → (inside || r.declared name) = true) →
      Stmt.obeysAll r inside ss

theorem OfStmt.obeys {phrase : StmtPhrase} {ts : List Token} (h : OfStmt phrase ts) {r : Rules}
    (hr : r.Allow ts) : phrase.Obeys r := by
  induction h with
  | bare hb => exact hb.obeys hr
  | print hkeyword he _ =>
    intro inside
    have hvalue := he.obeys (hr.mono fun t ht => by simp [ht])
    exact Bool.and_eq_true_iff.2 ⟨hr.keyword _ (by simp) hkeyword, hvalue⟩
  | block _ _ _ ih =>
    intro inside
    exact ih (hr.mono fun t ht => by simp [ht]) true fun _ _ _ _ => rfl
  | branch _ _ ht _ _ ih =>
    intro inside
    have htest := ht.obeys (hr.mono fun t ht => by simp [ht])
    exact Bool.and_eq_true_iff.2 ⟨htest, ih (hr.mono fun t ht => by simp [ht]) inside⟩
  | alternative _ _ ht _ _ _ _ ihyes ihno =>
    intro inside
    have htest := ht.obeys (hr.mono fun t ht => by simp [ht])
    have hyes := ihyes (hr.mono fun t ht => by simp [ht]) inside
    have hno := ihno (hr.mono fun t ht => by simp [ht]) inside
    exact Bool.and_eq_true_iff.2 ⟨Bool.and_eq_true_iff.2 ⟨htest, hyes⟩, hno⟩
  | loop _ _ ht _ _ ih =>
    intro inside
    have htest := ht.obeys (hr.mono fun t ht => by simp [ht])
    exact Bool.and_eq_true_iff.2 ⟨Bool.and_eq_true_iff.2 ⟨hr.loops, htest⟩,
      ih (hr.mono fun t ht => by simp [ht]) inside⟩
  | counting _ _ hi ht _ hn _ _ htest hround hcounting ih =>
    obtain rfl := hcounting.eq_counting htest hround
    have hinitial := hi.obeys (hr.mono fun t ht => by simp [ht])
    have htest := ht.obeys (hr.mono fun t ht => by simp [ht])
    have hincrement := hn.obeys (hr.mono fun t ht => by simp [ht])
    exact obeys_counting hr.loops hinitial htest hincrement (ih (hr.mono fun t ht => by simp [ht]))
  | declare hv => exact fun _ hname => hv.obeys hr hname
  | function _ _ _ _ _ _ _ _ ih =>
    intro inside hname
    have hbody := ih (hr.mono fun t ht => by simp [ht]) true fun _ _ _ _ => rfl
    exact Bool.and_eq_true_iff.2 ⟨hname _ rfl, hbody⟩
  | statement _ ih => exact fun inside _ => ih hr inside
  | nil => exact fun _ _ => rfl
  | cons _ _ ih ihs =>
    intro inside hnames
    obtain ⟨hfirst, hrest⟩ := List.forall_mem_cons.1 hnames
    have hs := ih (hr.mono fun t ht => by simp [ht]) inside hfirst
    have hss := ihs (hr.mono fun t ht => by simp [ht]) inside hrest
    exact Bool.and_eq_true_iff.2 ⟨hs, hss⟩

end Grammar

end Sprog
