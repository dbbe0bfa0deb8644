import Sprog.Tree

/-!
# The grammar

The grammar of the language, stated without any way to read it. `OfExpr` and `OfStmt` relate a
phrase, which is a nonterminal together with the tree it stands for, to the tokens it is written
with. Every operator, name, closing parenthesis and print keyword in a tree is one of those tokens.

The tiers of the expressions run from the assignment, which is the loosest, to the primary. The
operations of a tier take their left operand from the tier itself and their right one from the next
tier, so they associate to the left; an assignment associates to the right and has a bare name on
its left.

A statement that ends in a branch without an alternative is unfinished: an `ellers` behind it would
belong to it. What stands before an `ellers` is never unfinished, so that word always goes with the
nearest branch that can take it.

* `OfExpr.exists_head`, `OfStmt.exists_head`: no phrase is empty, and which kinds it can start with.
* `OfStmt.append`: declarations behind declarations.
-/
namespace Sprog.Grammar

/-! ## Expressions -/

/-- The tiers of the expression grammar, the loosest first. -/
inductive Tier where
  | assignment | disjunction | conjunction | equality | comparison | sum | product
  | unary | call | primary
  deriving DecidableEq, Repr

/-- The next tighter tier. -/
def Tier.next? : Tier → Option Tier
  | assignment => some disjunction
  | disjunction => some conjunction
  | conjunction => some equality
  | equality => some comparison
  | comparison => some sum
  | sum => some product
  | product => some unary
  | unary => some call
  | call => some primary
  | primary => none

/-- The operators that join two operands at a tier, and the trees they build. -/
inductive Operator : Tier → Kind → (Token → Expr → Expr → Expr) → Prop where
  | or : Operator .disjunction .orKw (.logical .or)
  | and : Operator .conjunction .andKw (.logical .and)
  | equal : Operator .equality .equalEqual (.binary .equal)
  | notEqual : Operator .equality .bangEqual (.binary .notEqual)
  | less : Operator .comparison .less (.binary .less)
  | lessEqual : Operator .comparison .lessEqual (.binary .lessEqual)
  | greater : Operator .comparison .greater (.binary .greater)
  | greaterEqual : Operator .comparison .greaterEqual (.binary .greaterEqual)
  | add : Operator .sum .plus (.binary .add)
  | subtract : Operator .sum .minus (.binary .subtract)
  | multiply : Operator .product .star (.binary .multiply)
  | divide : Operator .product .slash (.binary .divide)

/-- The operators that stand before their operand. -/
inductive Sign : Kind → UnaryOp → Prop where
  | not : Sign .bang .not
  | negate : Sign .minus .negate

/-- The kinds of tokens that stand for the value they carry. -/
inductive LiteralKind : Kind → Prop where
  | number : LiteralKind .number
  | string : LiteralKind .string

/-- The tokens that are an expression by themselves. A number or a text in the source is the
constant it carries; a token of such a kind that carries nothing is the constant `ingenting`. -/
inductive Atom : Token → Expr → Prop where
  | no {t : Token} : t.kind = .falseKw → Atom t (.constant (.bool false))
  | yes {t : Token} : t.kind = .trueKw → Atom t (.constant (.bool true))
  | nothing {t : Token} : t.kind = .nilKw → Atom t (.constant .nil)
  | number {t : Token} {x : Float} : LiteralKind t.kind → t.literal = some (.number x) →
      Atom t (.constant (.number x))
  | text {t : Token} {s : String} : LiteralKind t.kind → t.literal = some (.text s) →
      Atom t (.constant (.text s))
  | blank {t : Token} : LiteralKind t.kind → t.literal = none → Atom t (.constant .nil)
  | name {t : Token} : t.kind = .identifier → Atom t (.var t)

/-- What a row of tokens can be inside an expression. -/
inductive ExprPhrase where
  | expr (tier : Tier) (e : Expr)
  /-- One or more expressions with commas between them. -/
  | list (es : List Expr)

/-- The tokens that a phrase is written with. -/
inductive OfExpr : ExprPhrase → List Token → Prop where
  | tighter {tier next : Tier} {e : Expr} {ts : List Token} :
      tier.next? = some next → OfExpr (.expr next e) ts → OfExpr (.expr tier e) ts
  | assign {name equals : Token} {value : Expr} {ts : List Token} :
      name.kind = .identifier → equals.kind = .equal → OfExpr (.expr .assignment value) ts →
      OfExpr (.expr .assignment (.assign name value)) (name :: equals :: ts)
  | operation {tier next : Tier} {node : Token → Expr → Expr → Expr} {op : Token}
      {left right : Expr} {ts us : List Token} :
      tier.next? = some next → Operator tier op.kind node →
      OfExpr (.expr tier left) ts → OfExpr (.expr next right) us →
      OfExpr (.expr tier (node op left right)) (ts ++ op :: us)
  | sign {op : UnaryOp} {token : Token} {e : Expr} {ts : List Token} :
      Sign token.kind op → OfExpr (.expr .unary e) ts →
      OfExpr (.expr .unary (.unary op token e)) (token :: ts)
  | callEmpty {callee : Expr} {opening closing : Token} {ts : List Token} :
      OfExpr (.expr .call callee) ts → opening.kind = .leftParen → closing.kind = .rightParen →
      OfExpr (.expr .call (.call callee closing [])) (ts ++ [opening, closing])
  | call {callee : Expr} {opening closing : Token} {args : List Expr} {ts us : List Token} :
      OfExpr (.expr .call callee) ts → opening.kind = .leftParen → OfExpr (.list args) us →
      closing.kind = .rightParen →
      OfExpr (.expr .call (.call callee closing args)) (ts ++ opening :: (us ++ [closing]))
  | atom {t : Token} {e : Expr} : Atom t e → OfExpr (.expr .primary e) [t]
  | group {e : Expr} {opening closing : Token} {ts : List Token} :
      opening.kind = .leftParen → OfExpr (.expr .assignment e) ts → closing.kind = .rightParen →
      OfExpr (.expr .primary (.group e)) (opening :: (ts ++ [closing]))
  | last {e : Expr} {ts : List Token} : OfExpr (.expr .assignment e) ts → OfExpr (.list [e]) ts
  | more {e : Expr} {comma : Token} {es : List Expr} {ts us : List Token} :
      OfExpr (.expr .assignment e) ts → comma.kind = .comma → OfExpr (.list es) us →
      OfExpr (.list (e :: es)) (ts ++ comma :: us)

/-- An expression of any sort. -/
abbrev Expression (e : Expr) (ts : List Token) : Prop := OfExpr (.expr .assignment e) ts

/-! ## Parts of statements -/

/-- One or more names with commas between them. -/
inductive Names : List Token → List Token → Prop where
  | last {name : Token} : name.kind = .identifier → Names [name] [name]
  | more {name comma : Token} {names ts : List Token} :
      name.kind = .identifier → comma.kind = .comma → Names names ts →
      Names (name :: names) (name :: comma :: ts)

/-- The parameters of a function, which may be none. -/
inductive Parameters : List Token → List Token → Prop where
  | none : Parameters [] []
  | some {names ts : List Token} : Names names ts → Parameters names ts

/-- An expression that may be missing. -/
inductive Optional : Option Expr → List Token → Prop where
  | none : Optional none []
  | some {e : Expr} {ts : List Token} : Expression e ts → Optional (some e) ts

/-- The declaration of a variable. -/
inductive Variable : Stmt → List Token → Prop where
  | bare {keyword name semicolon : Token} :
      keyword.kind = .varKw → name.kind = .identifier → semicolon.kind = .semicolon →
      Variable (.declare name none) [keyword, name, semicolon]
  | initial {keyword name equals semicolon : Token} {e : Expr} {ts : List Token} :
      keyword.kind = .varKw → name.kind = .identifier → equals.kind = .equal → Expression e ts →
      semicolon.kind = .semicolon →
      Variable (.declare name (some e)) (keyword :: name :: equals :: (ts ++ [semicolon]))

/-- An expression with a semicolon behind it. -/
inductive Bare : Stmt → List Token → Prop where
  | mk {e : Expr} {semicolon : Token} {ts : List Token} :
      Expression e ts → semicolon.kind = .semicolon → Bare (.expr e) (ts ++ [semicolon])

/-- The first part of a counting loop, with its semicolon. -/
inductive Initial : Option Stmt → List Token → Prop where
  | none {semicolon : Token} : semicolon.kind = .semicolon → Initial none [semicolon]
  | declare {s : Stmt} {ts : List Token} : Variable s ts → Initial (some s) ts
  | bare {s : Stmt} {ts : List Token} : Bare s ts → Initial (some s) ts

/-- The test of a counting loop. A missing one is true. -/
inductive Test : Option Expr → Expr → Prop where
  | always : Test none (.constant (.bool true))
  | given {e : Expr} : Test (some e) e

/-- What one round of a counting loop runs: its body, with the increment behind it in a block of
their own if there is one. -/
inductive Round : Option Expr → Stmt → Stmt → Prop where
  | bare {body : Stmt} : Round none body body
  | increment {e : Expr} {body : Stmt} : Round (some e) body (.block [body, .expr e])

/-- The tree of a counting loop: a loop, with the initial statement before it in a block of their
own if there is one. -/
inductive Counting : Option Stmt → Stmt → Stmt → Prop where
  | bare {loop : Stmt} : Counting none loop loop
  | initial {s loop : Stmt} : Counting (some s) loop (.block [s, loop])

/-! ## Statements -/

/-- What a row of tokens can be outside an expression. -/
inductive StmtPhrase where
  | statement (unfinished : Bool) (s : Stmt)
  | declaration (s : Stmt)
  /-- Any number of declarations. -/
  | declarations (ss : List Stmt)

/-- The tokens that a phrase is written with. -/
inductive OfStmt : StmtPhrase → List Token → Prop where
  | bare {s : Stmt} {ts : List Token} : Bare s ts → OfStmt (.statement false s) ts
  | print {keyword semicolon : Token} {e : Expr} {ts : List Token} :
      keyword.kind = .printKw → Expression e ts → semicolon.kind = .semicolon →
      OfStmt (.statement false (.print keyword e)) (keyword :: (ts ++ [semicolon]))
  | block {opening closing : Token} {body : List Stmt} {ts : List Token} :
      opening.kind = .leftBrace → OfStmt (.declarations body) ts → closing.kind = .rightBrace →
      OfStmt (.statement false (.block body)) (opening :: (ts ++ [closing]))
  | branch {keyword opening closing : Token} {test : Expr} {o : Bool} {yes : Stmt}
      {ts us : List Token} :
      keyword.kind = .ifKw → opening.kind = .leftParen → Expression test ts →
      closing.kind = .rightParen → OfStmt (.statement o yes) us →
      OfStmt (.statement true (.branch test yes none)) (keyword :: opening :: (ts ++ closing :: us))
  | alternative {keyword opening closing other : Token} {test : Expr} {o : Bool} {yes no : Stmt}
      {ts us vs : List Token} :
      keyword.kind = .ifKw → opening.kind = .leftParen → Expression test ts →
      closing.kind = .rightParen → OfStmt (.statement false yes) us → other.kind = .elseKw →
      OfStmt (.statement o no) vs →
      OfStmt (.statement o (.branch test yes (some no)))
        (keyword :: opening :: (ts ++ closing :: (us ++ other :: vs)))
  | loop {keyword opening closing : Token} {test : Expr} {o : Bool} {body : Stmt}
      {ts us : List Token} :
      keyword.kind = .whileKw → opening.kind = .leftParen → Expression test ts →
      closing.kind = .rightParen → OfStmt (.statement o body) us →
      OfStmt (.statement o (.loop test body)) (keyword :: opening :: (ts ++ closing :: us))
  | counting {keyword opening semicolon closing : Token} {initial : Option Stmt}
      {condition increment : Option Expr} {o : Bool} {body round s : Stmt} {test : Expr}
      {ts us vs ws : List Token} :
      keyword.kind = .forKw → opening.kind = .leftParen → Initial initial ts →
      Optional condition us → semicolon.kind = .semicolon → Optional increment vs →
      closing.kind = .rightParen → OfStmt (.statement o body) ws →
      Test condition test → Round increment body round → Counting initial (.loop test round) s →
      OfStmt (.statement o s)
        (keyword :: opening :: (ts ++ (us ++ semicolon :: (vs ++ closing :: ws))))
  | declare {s : Stmt} {ts : List Token} : Variable s ts → OfStmt (.declaration s) ts
  | function {keyword name opening closing left right : Token} {names : List Token}
      {body : List Stmt} {ts us : List Token} :
      keyword.kind = .functionKw → name.kind = .identifier → opening.kind = .leftParen →
      Parameters names ts → closing.kind = .rightParen → left.kind = .leftBrace →
      OfStmt (.declarations body) us → right.kind = .rightBrace →
      OfStmt (.declaration (.function name names body))
        (keyword :: name :: opening :: (ts ++ closing :: left :: (us ++ [right])))
  | statement {o : Bool} {s : Stmt} {ts : List Token} :
      OfStmt (.statement o s) ts → OfStmt (.declaration s) ts
  | nil : OfStmt (.declarations []) []
  | cons {s : Stmt} {ss : List Stmt} {ts us : List Token} :
      OfStmt (.declaration s) ts → OfStmt (.declarations ss) us →
      OfStmt (.declarations (s :: ss)) (ts ++ us)

/-- A whole program: declarations up to the end. -/
abbrev Program (ss : List Stmt) (ts : List Token) : Prop := OfStmt (.declarations ss) ts

/-! ## Facts about phrases -/

/-- What belongs to the unary tier is an expression by itself. -/
theorem OfExpr.of_unary {e : Expr} {ts : List Token} (h : OfExpr (.expr .unary e) ts) :
    Expression e ts :=
  have hcomparison : OfExpr (.expr .comparison e) ts := .tighter rfl (.tighter rfl (.tighter rfl h))
  .tighter rfl (.tighter rfl (.tighter rfl (.tighter rfl hcomparison)))

/-- The kinds that an expression can start with. -/
def startsExpression : Kind → Bool
  | .bang | .minus | .falseKw | .trueKw | .nilKw | .number | .string | .identifier
  | .leftParen => true
  | _ => false

theorem Sign.starts {k : Kind} {op : UnaryOp} (h : Sign k op) : startsExpression k = true := by
  cases h <;> rfl

theorem LiteralKind.starts {k : Kind} (h : LiteralKind k) : startsExpression k = true := by
  cases h <;> rfl

theorem Atom.starts {t : Token} {e : Expr} (h : Atom t e) : startsExpression t.kind = true := by
  cases h with
  | no h | yes h | nothing h | name h => rw [h]; rfl
  | number h | text h | blank h => exact h.starts

/-- The constant of a literal is the one that the token carries. -/
theorem Atom.ofLiteral {t : Token} (h : LiteralKind t.kind) :
    Atom t (.constant (.ofLiteral t.literal)) := by
  cases hl : t.literal with
  | none => exact .blank h hl
  | some l =>
    cases l with
    | number x => exact .number h hl
    | text s => exact .text h hl

/-- The parts of a counting loop leave no choice of its tree. -/
theorem Counting.eq_counting {initial : Option Stmt} {condition increment : Option Expr}
    {body round s : Stmt} {test : Expr} (htest : Test condition test)
    (hround : Round increment body round) (h : Counting initial (.loop test round) s) :
    s = .counting initial condition increment body := by
  cases htest <;> cases hround <;> cases h <;> rfl

/-- A counting loop with its tree built from its parts. -/
theorem OfStmt.countingLoop {keyword opening semicolon closing : Token} {initial : Option Stmt}
    {condition increment : Option Expr} {o : Bool} {body : Stmt} {ts us vs ws : List Token}
    (hk : keyword.kind = .forKw) (ho : opening.kind = .leftParen) (hi : Initial initial ts)
    (ht : Optional condition us) (hs : semicolon.kind = .semicolon) (hn : Optional increment vs)
    (hc : closing.kind = .rightParen) (hbody : OfStmt (.statement o body) ws) :
    OfStmt (.statement o (.counting initial condition increment body))
      (keyword :: opening :: (ts ++ (us ++ semicolon :: (vs ++ closing :: ws)))) := by
  obtain ⟨test, htest⟩ : ∃ test, Test condition test := by
    cases condition
    · exact ⟨_, .always⟩
    · exact ⟨_, .given⟩
  obtain ⟨round, hround⟩ : ∃ round, Round increment body round := by
    cases increment
    · exact ⟨_, .bare⟩
    · exact ⟨_, .increment⟩
  obtain ⟨s, hcounting⟩ : ∃ s, Counting initial (.loop test round) s := by
    cases initial
    · exact ⟨_, .bare⟩
    · exact ⟨_, .initial⟩
  rw [← hcounting.eq_counting htest hround]
  exact .counting hk ho hi ht hs hn hc hbody htest hround hcounting

theorem Operator.ne_var {tier : Tier} {k : Kind} {node : Token → Expr → Expr → Expr}
    (h : Operator tier k node) (op name : Token) (left right : Expr) :
    node op left right ≠ .var name := by
  cases h <;> simp

/-- No phrase inside an expression is empty, and it starts as an expression does. -/
theorem OfExpr.exists_head {phrase : ExprPhrase} {ts : List Token} (h : OfExpr phrase ts) :
    ∃ t us, ts = t :: us ∧ startsExpression t.kind = true := by
  induction h with
  | tighter _ _ ih => exact ih
  | assign hn _ _ _ => exact ⟨_, _, rfl, by rw [hn]; rfl⟩
  | operation _ _ _ _ ih _ =>
    obtain ⟨t, us, rfl, ht⟩ := ih
    exact ⟨t, _, rfl, ht⟩
  | sign hs _ _ => exact ⟨_, _, rfl, hs.starts⟩
  | callEmpty _ _ _ ih =>
    obtain ⟨t, us, rfl, ht⟩ := ih
    exact ⟨t, _, rfl, ht⟩
  | call _ _ _ _ ih _ =>
    obtain ⟨t, us, rfl, ht⟩ := ih
    exact ⟨t, _, rfl, ht⟩
  | atom ha => exact ⟨_, _, rfl, ha.starts⟩
  | group ho _ _ _ => exact ⟨_, _, rfl, by rw [ho]; rfl⟩
  | last _ ih => exact ih
  | more _ _ _ ih _ =>
    obtain ⟨t, us, rfl, ht⟩ := ih
    exact ⟨t, _, rfl, ht⟩

/-- A tree that is a bare name is written as that name alone. -/
theorem OfExpr.eq_of_var {tier : Tier} {name : Token} {ts : List Token}
    (h : OfExpr (.expr tier (.var name)) ts) : ts = [name] ∧ name.kind = .identifier := by
  generalize hp : ExprPhrase.expr tier (.var name) = phrase at h
  induction h generalizing tier with
  | tighter _ _ ih => cases hp; exact ih rfl
  | operation _ ho =>
    injection hp with _ hp
    exact (ho.ne_var _ _ _ _ hp.symm).elim
  | atom ha =>
    cases hp
    cases ha with
    | name hn => exact ⟨rfl, hn⟩
  | assign | sign | callEmpty | call | group | last | more => cases hp

/-- The kinds that a declaration or a statement can start with. -/
def startsDeclaration : Kind → Bool
  | .varKw | .functionKw | .ifKw | .printKw | .whileKw | .forKw | .leftBrace => true
  | k => startsExpression k

theorem startsDeclaration_of_startsExpression {k : Kind} (h : startsExpression k = true) :
    startsDeclaration k = true := by
  cases k <;> first | rfl | cases h

theorem Variable.exists_head {s : Stmt} {ts : List Token} (h : Variable s ts) :
    ∃ t us, ts = t :: us ∧ t.kind = .varKw := by
  cases h with
  | bare hk | initial hk => exact ⟨_, _, rfl, hk⟩

theorem Bare.exists_head {s : Stmt} {ts : List Token} (h : Bare s ts) :
    ∃ t us, ts = t :: us ∧ startsExpression t.kind = true := by
  cases h with
  | mk he =>
    obtain ⟨t, us, rfl, ht⟩ := he.exists_head
    exact ⟨t, _, rfl, ht⟩

/-- Only a row of declarations can be empty; every other phrase starts as a declaration does. -/
theorem OfStmt.exists_head {phrase : StmtPhrase} {ts : List Token} (h : OfStmt phrase ts) :
    (phrase = .declarations [] ∧ ts = []) ∨
      ∃ t us, ts = t :: us ∧ startsDeclaration t.kind = true := by
  induction h with
  | bare hb =>
    obtain ⟨t, us, rfl, ht⟩ := hb.exists_head
    exact .inr ⟨t, us, rfl, startsDeclaration_of_startsExpression ht⟩
  | declare hv =>
    obtain ⟨t, us, rfl, ht⟩ := hv.exists_head
    exact .inr ⟨t, us, rfl, by rw [ht]; rfl⟩
  | print hk | block hk | branch hk | alternative hk | loop hk | counting hk | function hk =>
    exact .inr ⟨_, _, rfl, by rw [hk]; rfl⟩
  | statement _ ih =>
    obtain ⟨h, -⟩ | ⟨t, us, rfl, ht⟩ := ih
    · cases h
    · exact .inr ⟨t, us, rfl, ht⟩
  | nil => exact .inl ⟨rfl, rfl⟩
  | cons _ _ ih _ =>
    obtain ⟨h, -⟩ | ⟨t, us, rfl, ht⟩ := ih
    · cases h
    · exact .inr ⟨t, _, rfl, ht⟩

/-- Programs can be written one behind the other. -/
theorem OfStmt.append {ss ss' : List Stmt} {ts us : List Token} (h : OfStmt (.declarations ss) ts)
    (h' : OfStmt (.declarations ss') us) : OfStmt (.declarations (ss ++ ss')) (ts ++ us) := by
  generalize hp : StmtPhrase.declarations ss = phrase at h
  induction h generalizing ss with
  | nil => cases hp; exact h'
  | cons hd _ _ ih =>
    cases hp
    rw [List.cons_append, List.append_assoc]
    exact .cons hd (ih rfl)
  | bare | print | block | branch | alternative | loop | counting | declare | function
  | statement => cases hp

end Sprog.Grammar
