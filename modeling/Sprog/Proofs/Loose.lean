import Sprog.Proofs.Grammar

/-!
# The grammar without its rule about assignments

The grammar asks for a bare name before the equals sign of an assignment. The parser does not stop
at anything else there, so what it takes without stopping is a wider language, in which an
assignment is a disjunction with an equals sign and another assignment behind it, or without. That
language is stated here by what a row of tokens can be, without trees, and with every operand
followed by what may stand behind it.

As in the grammar itself, a statement that ends in a branch without an alternative is unfinished,
and only what is finished stands before an `ellers`. For the language this makes no difference: an
`ellers` and a statement behind any statement of a branch are again part of a branch.

* `Loose`: the rules.
* `Loose.branchElse`: an alternative may follow any statement of a branch.
* `Loose.exists_head`: no phrase is empty but those that may be missing.
-/
namespace Sprog.Grammar

/-- What a row of tokens can be. -/
inductive Shape where
  /-- An expression of a tier. -/
  | expr (tier : Tier)
  /-- What may stand behind the first operand of a tier. -/
  | more (tier : Tier)
  /-- One or more expressions with commas between them. -/
  | list
  /-- Such a list, or nothing. -/
  | arguments
  /-- An expression, or nothing. -/
  | optional
  /-- The declaration of a variable. -/
  | binding
  /-- An expression with a semicolon behind it. -/
  | bare
  /-- The first part of a counting loop, with its semicolon. -/
  | initial
  | statement (unfinished : Bool)
  | declaration
  /-- Any number of declarations. -/
  | declarations

/-- The rows of tokens of each shape. -/
inductive Loose : Shape → List Token → Prop where
  | first {tier next : Tier} {ts us : List Token} :
      tier.next? = some next → Loose (.expr next) ts → Loose (.more tier) us →
      Loose (.expr tier) (ts ++ us)
  | sign {op : UnaryOp} {token : Token} {ts : List Token} :
      Sign token.kind op → Loose (.expr .unary) ts → Loose (.expr .unary) (token :: ts)
  | atom {t : Token} {e : Expr} : Atom t e → Loose (.expr .primary) [t]
  | group {opening closing : Token} {ts : List Token} :
      opening.kind = .leftParen → Loose (.expr .assignment) ts → closing.kind = .rightParen →
      Loose (.expr .primary) (opening :: (ts ++ [closing]))
  | done {tier : Tier} : Loose (.more tier) []
  | assign {equals : Token} {ts : List Token} :
      equals.kind = .equal → Loose (.expr .assignment) ts → Loose (.more .assignment) (equals :: ts)
  | operation {tier next : Tier} {node : Token → Expr → Expr → Expr} {op : Token}
      {ts us : List Token} :
      tier.next? = some next → Operator tier op.kind node → Loose (.expr next) ts →
      Loose (.more tier) us → Loose (.more tier) (op :: (ts ++ us))
  | call {opening closing : Token} {ts us : List Token} :
      opening.kind = .leftParen → Loose .arguments ts → closing.kind = .rightParen →
      Loose (.more .call) us → Loose (.more .call) (opening :: (ts ++ closing :: us))
  | last {ts : List Token} : Loose (.expr .assignment) ts → Loose .list ts
  | comma {comma : Token} {ts us : List Token} :
      Loose (.expr .assignment) ts → comma.kind = .comma → Loose .list us →
      Loose .list (ts ++ comma :: us)
  | noArguments : Loose .arguments []
  | arguments {ts : List Token} : Loose .list ts → Loose .arguments ts
  | missing : Loose .optional []
  | given {ts : List Token} : Loose (.expr .assignment) ts → Loose .optional ts
  | declare {keyword name semicolon : Token} :
      keyword.kind = .varKw → name.kind = .identifier → semicolon.kind = .semicolon →
      Loose .binding [keyword, name, semicolon]
  | declareInitial {keyword name equals semicolon : Token} {ts : List Token} :
      keyword.kind = .varKw → name.kind = .identifier → equals.kind = .equal →
      Loose (.expr .assignment) ts → semicolon.kind = .semicolon →
      Loose .binding (keyword :: name :: equals :: (ts ++ [semicolon]))
  | bare {semicolon : Token} {ts : List Token} :
      Loose (.expr .assignment) ts → semicolon.kind = .semicolon → Loose .bare (ts ++ [semicolon])
  | noInitial {semicolon : Token} : semicolon.kind = .semicolon → Loose .initial [semicolon]
  | bindingInitial {ts : List Token} : Loose .binding ts → Loose .initial ts
  | bareInitial {ts : List Token} : Loose .bare ts → Loose .initial ts
  | expression {ts : List Token} : Loose .bare ts → Loose (.statement false) ts
  | print {keyword semicolon : Token} {ts : List Token} :
      keyword.kind = .printKw → Loose (.expr .assignment) ts → semicolon.kind = .semicolon →
      Loose (.statement false) (keyword :: (ts ++ [semicolon]))
  | block {opening closing : Token} {ts : List Token} :
      opening.kind = .leftBrace → Loose .declarations ts → closing.kind = .rightBrace →
      Loose (.statement false) (opening :: (ts ++ [closing]))
  | branch {keyword opening closing : Token} {o : Bool} {ts us : List Token} :
      keyword.kind = .ifKw → opening.kind = .leftParen → Loose (.expr .assignment) ts →
      closing.kind = .rightParen → Loose (.statement o) us →
      Loose (.statement true) (keyword :: opening :: (ts ++ closing :: us))
  | alternative {keyword opening closing other : Token} {o : Bool} {ts us vs : List Token} :
      keyword.kind = .ifKw → opening.kind = .leftParen → Loose (.expr .assignment) ts →
      closing.kind = .rightParen → Loose (.statement false) us → other.kind = .elseKw →
      Loose (.statement o) vs →
      Loose (.statement o) (keyword :: opening :: (ts ++ closing :: (us ++ other :: vs)))
  | loop {keyword opening closing : Token} {o : Bool} {ts us : List Token} :
      keyword.kind = .whileKw → opening.kind = .leftParen → Loose (.expr .assignment) ts →
      closing.kind = .rightParen → Loose (.statement o) us →
      Loose (.statement o) (keyword :: opening :: (ts ++ closing :: us))
  | counting {keyword opening semicolon closing : Token} {o : Bool} {ts us vs ws : List Token} :
      keyword.kind = .forKw → opening.kind = .leftParen → Loose .initial ts → Loose .optional us →
      semicolon.kind = .semicolon → Loose .optional vs → closing.kind = .rightParen →
      Loose (.statement o) ws →
      Loose (.statement o)
        (keyword :: opening :: (ts ++ (us ++ semicolon :: (vs ++ closing :: ws))))
  | bindingDeclaration {ts : List Token} : Loose .binding ts → Loose .declaration ts
  | function {keyword name opening closing left right : Token} {names ts us : List Token} :
      keyword.kind = .functionKw → name.kind = .identifier → opening.kind = .leftParen →
      Parameters names ts → closing.kind = .rightParen → left.kind = .leftBrace →
      Loose .declarations us → right.kind = .rightBrace →
      Loose .declaration (keyword :: name :: opening :: (ts ++ closing :: left :: (us ++ [right])))
  | statement {o : Bool} {ts : List Token} : Loose (.statement o) ts → Loose .declaration ts
  | nil : Loose .declarations []
  | cons {ts us : List Token} :
      Loose .declaration ts → Loose .declarations us → Loose .declarations (ts ++ us)

/-! ## Alternatives -/

/-- An `ellers` behind an unfinished statement belongs to the last branch in it that has no
alternative. -/
theorem Loose.withElse {us vs : List Token} (h : Loose (.statement true) us) {other : Token}
    (hother : other.kind = .elseKw) {o : Bool} (hno : Loose (.statement o) vs) :
    ∃ o', Loose (.statement o') (us ++ other :: vs) := by
  generalize hs : Shape.statement true = shape at h
  induction h with
  | @branch _ _ _ o _ _ hk ho ht hc hyes _ ih =>
    cases o with
    | false => exact ⟨_, by simpa using alternative hk ho ht hc hyes hother hno⟩
    | true =>
      obtain ⟨o', hlonger⟩ := ih rfl
      exact ⟨true, by simpa using branch hk ho ht hc hlonger⟩
  | alternative hk ho ht hc hyes hother' _ _ _ ih =>
    cases hs
    obtain ⟨o', hlonger⟩ := ih rfl
    exact ⟨o', by simpa using alternative hk ho ht hc hyes hother' hlonger⟩
  | loop hk ho ht hc _ _ ih =>
    cases hs
    obtain ⟨o', hlonger⟩ := ih rfl
    exact ⟨o', by simpa using loop hk ho ht hc hlonger⟩
  | counting hk ho hi ht hsemi hn hc _ _ _ _ ih =>
    cases hs
    obtain ⟨o', hlonger⟩ := ih rfl
    exact ⟨o', by simpa using counting hk ho hi ht hsemi hn hc hlonger⟩
  | _ => cases hs

/-- Whatever the first part of a branch is, an alternative may stand behind it. -/
theorem Loose.branchElse {keyword opening closing other : Token} {o o' : Bool}
    {ts us vs : List Token} (hk : keyword.kind = .ifKw) (ho : opening.kind = .leftParen)
    (htest : Loose (.expr .assignment) ts) (hc : closing.kind = .rightParen)
    (hyes : Loose (.statement o) us) (hother : other.kind = .elseKw)
    (hno : Loose (.statement o') vs) :
    ∃ o'', Loose (.statement o'')
      (keyword :: opening :: (ts ++ closing :: (us ++ other :: vs))) := by
  cases o with
  | false => exact ⟨o', .alternative hk ho htest hc hyes hother hno⟩
  | true =>
    obtain ⟨o'', hlonger⟩ := hyes.withElse hother hno
    exact ⟨true, .branch hk ho htest hc hlonger⟩

/-! ## First tokens -/

/-- The kinds that an expression of a tier can start with: signs are looser than calls. -/
def Tier.starts : Tier → Kind → Bool
  | .call, k | .primary, k => startsExpression k && k != .bang && k != .minus
  | _, k => startsExpression k

theorem Tier.starts_next {tier next : Tier} (h : tier.next? = some next) {k : Kind}
    (hk : next.starts k = true) : tier.starts k = true := by
  cases tier <;> cases h <;> simp_all [Tier.starts]

theorem Atom.starts_primary {t : Token} {e : Expr} (h : Atom t e) :
    Tier.primary.starts t.kind = true := by
  cases h with
  | no hk | yes hk | nothing hk | name hk => rw [hk]; rfl
  | number hk | text hk | blank hk =>
    generalize t.kind = k at hk
    cases hk <;> rfl

/-- The kinds that a row of tokens of the shape can start with. -/
def Shape.starts : Shape → Kind → Bool
  | expr tier, k => tier.starts k
  | list, k | bare, k => startsExpression k
  | binding, k => k == .varKw
  | initial, k => k == .semicolon || k == .varKw || startsExpression k
  | statement _, k | declaration, k => startsDeclaration k
  | more _, _ | arguments, _ | optional, _ | declarations, _ => true

/-- The shapes of which a row of tokens may be empty. -/
def Shape.nullable : Shape → Bool
  | more _ | arguments | optional | declarations => true
  | expr _ | list | binding | bare | initial | statement _ | declaration => false

/-- What may not be missing has a first token, and that starts the shape. -/
theorem Loose.exists_head {shape : Shape} {ts : List Token} (h : Loose shape ts)
    (hshape : shape.nullable = false) : ∃ t us, ts = t :: us ∧ shape.starts t.kind = true := by
  induction h with
  | first hn _ _ ih _ =>
    obtain ⟨t, us, rfl, ht⟩ := ih rfl
    exact ⟨t, _, rfl, Tier.starts_next hn ht⟩
  | sign hs => exact ⟨_, _, rfl, hs.starts⟩
  | atom ha => exact ⟨_, _, rfl, ha.starts_primary⟩
  | group ho => exact ⟨_, _, rfl, by simp [Shape.starts, Tier.starts, startsExpression, ho]⟩
  | last _ ih => exact ih rfl
  | comma _ _ _ ih _ =>
    obtain ⟨t, us, rfl, ht⟩ := ih rfl
    exact ⟨t, _, rfl, ht⟩
  | bare _ _ ih =>
    obtain ⟨t, us, rfl, ht⟩ := ih rfl
    exact ⟨t, _, rfl, ht⟩
  | declare hk | declareInitial hk => exact ⟨_, _, rfl, by simp [Shape.starts, hk]⟩
  | noInitial hk => exact ⟨_, _, rfl, by simp [Shape.starts, hk]⟩
  | bindingInitial _ ih =>
    obtain ⟨t, us, rfl, ht⟩ := ih rfl
    exact ⟨t, us, rfl, by simp_all [Shape.starts]⟩
  | bareInitial _ ih =>
    obtain ⟨t, us, rfl, ht⟩ := ih rfl
    exact ⟨t, us, rfl, by simp_all [Shape.starts]⟩
  | expression _ ih =>
    obtain ⟨t, us, rfl, ht⟩ := ih rfl
    exact ⟨t, us, rfl, startsDeclaration_of_startsExpression ht⟩
  | print hk | block hk | branch hk | alternative hk | loop hk | counting hk | function hk =>
    exact ⟨_, _, rfl, by simp [Shape.starts, startsDeclaration, hk]⟩
  | bindingDeclaration _ ih =>
    obtain ⟨t, us, rfl, ht⟩ := ih rfl
    exact ⟨t, us, rfl, by simp_all [Shape.starts, startsDeclaration]⟩
  | statement _ ih => exact ih rfl
  | done | assign | operation | call | noArguments | arguments | missing | given | nil | cons =>
    cases hshape

/-- At every tier there is an expression: a constant. -/
theorem Loose.exists_expr (tier : Tier) : ∃ ts, Loose (.expr tier) ts := by
  have step : ∀ {tier next : Tier}, tier.next? = some next →
      (∃ ts, Loose (.expr next) ts) → ∃ ts, Loose (.expr tier) ts := by
    rintro tier next hn ⟨ts, hts⟩
    exact ⟨_, .first hn hts .done⟩
  have hprimary : ∃ ts, Loose (.expr .primary) ts :=
    ⟨[⟨.nilKw, "", none, 0⟩], .atom (.nothing rfl)⟩
  have hunary : ∃ ts, Loose (.expr .unary) ts := step rfl (step rfl hprimary)
  have hcomparison : ∃ ts, Loose (.expr .comparison) ts :=
    step rfl (step rfl (step rfl hunary))
  cases tier with
  | primary => exact hprimary
  | call => exact step rfl hprimary
  | unary => exact hunary
  | product => exact step rfl hunary
  | sum => exact step rfl (step rfl hunary)
  | comparison => exact hcomparison
  | equality => exact step rfl hcomparison
  | conjunction => exact step rfl (step rfl hcomparison)
  | disjunction => exact step rfl (step rfl (step rfl hcomparison))
  | assignment => exact step rfl (step rfl (step rfl (step rfl hcomparison)))

end Sprog.Grammar
