import Sprog.Proofs.Grammar
import Sprog.Proofs.Reading

/-!
# The parser of each tier

`Parser.atTier n tier` is the part of the expression parser that reads the phrases of a tier when at
most `n + 1` tokens are left. The parser of a tier with operators reads an operand of the next tier
and then goes on with its own operators (`atTier_eq_joined`), and the operators it knows are those
of the grammar (`operator_iff`). So what is true of signs and handed on from operands to operations
is true up to the disjunctions (`atTier_disjunction`).
-/
namespace Sprog

open Grammar

/-- The operators that the parser knows at a tier, if it has any. -/
def Grammar.Tier.level? : Tier → Option Level
  | disjunction => some .disjunction
  | conjunction => some .conjunction
  | equality => some .equality
  | comparison => some .comparison
  | sum => some .sum
  | product => some .product
  | assignment | unary | call | primary => none

/-- The parser knows the operators of the grammar. -/
theorem Grammar.operator_iff {tier : Tier} {level : Level} (h : tier.level? = some level)
    (k : Kind) (node : Token → Expr → Expr → Expr) :
    level k = some node ↔ Operator tier k node := by
  constructor
  · intro hk
    cases tier <;> cases h <;> cases k <;> cases hk <;> constructor
  · intro hk
    cases hk <;> cases h <;> rfl

/-- Only the tiers with a level have operators. -/
theorem Grammar.Operator.exists_level {tier : Tier} {k : Kind} {node : Token → Expr → Expr → Expr}
    (h : Operator tier k node) : ∃ level, tier.level? = some level ∧ level k = some node := by
  cases h <;> exact ⟨_, rfl, rfl⟩

theorem Grammar.sign_iff (k : Kind) (op : UnaryOp) : UnaryOp.ofKind? k = some op ↔ Sign k op := by
  constructor
  · intro h
    cases k <;> cases h <;> constructor
  · intro h
    cases h <;> rfl

namespace Parser

/-- Operands joined by the operators of the `k` tightest levels. -/
def tower (n k : Nat) : Parser Expr :=
  (Level.all.take k).foldl (joined (n + 1)) (unary (call (expression n) (n + 1)) (n + 1))

/-- The parser for the phrases of a tier, when at most `n + 1` tokens are left. -/
def atTier (n : Nat) : Tier → Parser Expr
  | .assignment => expression (n + 1)
  | .disjunction => tower n 6
  | .conjunction => tower n 5
  | .equality => tower n 4
  | .comparison => tower n 3
  | .sum => tower n 2
  | .product => tower n 1
  | .unary => unary (call (expression n) (n + 1)) (n + 1)
  | .call => call (expression n) (n + 1)
  | .primary => primary (expression n)

theorem atTier_eq_joined (n : Nat) {tier next : Tier} {level : Level}
    (h : tier.level? = some level) (hn : tier.next? = some next) :
    atTier n tier = joined (n + 1) (atTier n next) level := by
  cases tier <;> cases h <;> cases hn <;> rfl

/-- From the signs upwards, tier by tier. -/
theorem atTier_disjunction {P : Tier → Parser Expr → Prop} {n : Nat}
    (hunary : P .unary (atTier n .unary))
    (hjoined : ∀ {tier next level}, tier.level? = some level → tier.next? = some next →
      P next (atTier n next) → P tier (joined (n + 1) (atTier n next) level)) :
    P .disjunction (atTier n .disjunction) := by
  have step : ∀ (tier : Tier) {next level}, tier.level? = some level → tier.next? = some next →
      P next (atTier n next) → P tier (atTier n tier) := by
    intro tier next level hl hn hop
    rw [atTier_eq_joined n hl hn]
    exact hjoined hl hn hop
  have hproduct := step .product rfl rfl hunary
  have hsum := step .sum rfl rfl hproduct
  have hcomparison := step .comparison rfl rfl hsum
  have hequality := step .equality rfl rfl hcomparison
  have hconjunction := step .conjunction rfl rfl hequality
  exact step .disjunction rfl rfl hconjunction

theorem expression_succ (n : Nat) : expression (n + 1) = assignment (expression n) (n + 1) := rfl

end Parser

end Sprog
