import Sprog.Proofs.Bound
import Sprog.Proofs.Soundness

/-!
# Every expression of the grammar is read

Every phrase of the expression grammar is read as its tree by the parser for it, whatever follows
that the phrase cannot go on with, as long as the bound on the tokens left holds.
`ExprPhrase.Read` states this so that the derivation can be followed rule by rule: an operation is
built from its left operand outwards while the parser goes through it from the left, so the
statement for a tier speaks of a phrase and of what the loop of the tier makes of the rest.

* `OfExpr.read`: every phrase of the expression grammar is read.
* `OfExpr.reads`: an expression is read in front of everything that it cannot go on with.
-/
namespace Sprog

open Grammar Sprog.Parser

/-- The kinds that a phrase of the tier swallows before the loop of the tier sees them. Only an
assignment has no loop: here the equals sign counts too. -/
def Grammar.Tier.swallows : Tier → List Kind
  | assignment => [.leftParen, .star, .slash, .plus, .minus, .less, .lessEqual, .greater,
      .greaterEqual, .equalEqual, .bangEqual, .andKw, .orKw, .equal]
  | disjunction => [.leftParen, .star, .slash, .plus, .minus, .less, .lessEqual, .greater,
      .greaterEqual, .equalEqual, .bangEqual, .andKw]
  | conjunction => [.leftParen, .star, .slash, .plus, .minus, .less, .lessEqual, .greater,
      .greaterEqual, .equalEqual, .bangEqual]
  | equality => [.leftParen, .star, .slash, .plus, .minus, .less, .lessEqual, .greater,
      .greaterEqual]
  | comparison => [.leftParen, .star, .slash, .plus, .minus]
  | sum => [.leftParen, .star, .slash]
  | product | unary => [.leftParen]
  | call | primary => []

/-- No phrase of the tier goes on with these tokens, apart from the loop of the tier. -/
def Grammar.Tier.Stops (tier : Tier) (rest : List Token) : Prop :=
  ∀ k, headKind rest = some k → k ∉ tier.swallows

/-- The loop of a tier behind a phrase of it, with the bound `m` on the tokens left. -/
def Parser.goOn (n : Nat) (tier : Tier) (m : Nat) (e : Expr) : Parser Expr :=
  match tier with
  | .disjunction => operations .disjunction (atTier n .conjunction) m e
  | .conjunction => operations .conjunction (atTier n .equality) m e
  | .equality => operations .equality (atTier n .comparison) m e
  | .comparison => operations .comparison (atTier n .sum) m e
  | .sum => operations .sum (atTier n .product) m e
  | .product => operations .product (atTier n .unary) m e
  | .call => calls (expression n) m e
  | .assignment | .unary | .primary => pure e

theorem Parser.goOn_eq_operations (n m : Nat) (e : Expr) {tier next : Tier} {level : Level}
    (hl : tier.level? = some level) (hn : tier.next? = some next) :
    goOn n tier m e = operations level (atTier n next) m e := by
  cases tier <;> cases hl <;> cases hn <;> rfl

/-- The phrase is read in front of any rest: what its parser makes of the whole is what the loop
of the tier makes of the rest. -/
def Grammar.ExprPhrase.Read : ExprPhrase → List Token → Prop
  | .expr tier e, ts => ∀ n eof rest out final, eof.kind = .eof → (ts ++ rest).length ≤ n + 1 →
      tier.Stops rest → (∀ m, rest.length ≤ m → Reads (goOn n tier m e) eof rest out final) →
      Reads (atTier n tier) eof (ts ++ rest) out final
  | .list es, ts => ∀ n m eof rest, eof.kind = .eof → (ts ++ rest).length ≤ n →
      (ts ++ rest).length ≤ m → Tier.assignment.Stops rest → headKind rest ≠ some .comma →
      Reads (commaSeparated (expression n) m) eof (ts ++ rest) es rest

/-! ## Where a phrase ends -/

section
variable {tier inner : Tier} {rest : List Token}

theorem Grammar.Tier.Stops.next (h : tier.Stops rest) (hn : tier.next? = some inner) :
    inner.Stops rest := by
  have hsub : ∀ k ∈ inner.swallows, k ∈ tier.swallows := by
    cases tier <;> cases hn <;> decide
  exact fun k hk hm => h k hk (hsub k hm)

/-- The end of a phrase also ends the loops of the tighter tiers. -/
theorem Grammar.Tier.Stops.level_eq_none (h : tier.Stops rest) (hn : tier.next? = some inner)
    {level : Level} (hl : inner.level? = some level) {k : Kind} (hk : headKind rest = some k) :
    level k = none := by
  have hm := h k hk
  cases hlk : level k with
  | none => rfl
  | some node =>
    refine absurd ?_ hm
    cases (operator_iff hl k node).1 hlk <;> cases tier <;> cases hn <;> decide

theorem Grammar.Tier.Stops.not_leftParen (h : tier.Stops rest) (hn : tier.next? = some .call) :
    headKind rest ≠ some .leftParen := by
  intro hk
  refine h _ hk ?_
  cases tier <;> cases hn
  decide

theorem Grammar.Operator.stops {op : Token} {node : Token → Expr → Expr → Expr}
    (h : Operator tier op.kind node) : tier.Stops (op :: rest) := by
  intro k hk
  cases hk
  generalize op.kind = k at h
  cases h <;> decide

/-- A token that nothing in an expression goes on with ends every expression. -/
theorem Grammar.stops_cons {t : Token} {k : Kind} (hk : t.kind = k)
    (h : k ∉ Tier.assignment.swallows) (ts : List Token) : Tier.assignment.Stops (t :: ts) := by
  intro k' hk'
  cases hk'
  rw [hk]
  exact h

end

/-- What a phrase can start with tells which kinds do not stand in front of it. -/
theorem Grammar.headKind_ne {starts : Kind → Bool} {ts : List Token}
    (h : ∃ t us, ts = t :: us ∧ starts t.kind = true) {k : Kind} (hk : starts k = false)
    (rest : List Token) : headKind (ts ++ rest) ≠ some k := by
  obtain ⟨t, us, rfl, ht⟩ := h
  intro hhead
  rw [List.cons_append, headKind_cons, Option.some.injEq] at hhead
  rw [hhead, hk] at ht
  cases ht

namespace Parser

theorem reads_operations_stop {level : Level} {operand : Parser Expr} {eof : Token}
    {rest : List Token} (h : ∀ k, headKind rest = some k → level k = none) (e : Expr) :
    ∀ m, Reads (operations level operand m e) eof rest e rest
  | 0 => reads_pure.2 ⟨rfl, rfl⟩
  | _ + 1 => reads_acceptFrom_bind.2 (.inr ⟨h, reads_pure.2 ⟨rfl, rfl⟩⟩)

theorem reads_calls_stop {expr : Parser Expr} {eof : Token} {rest : List Token}
    (h : headKind rest ≠ some .leftParen) (e : Expr) :
    ∀ m, Reads (calls expr m e) eof rest e rest
  | 0 => reads_pure.2 ⟨rfl, rfl⟩
  | _ + 1 => reads_accept_bind.2 (.inr ⟨h, reads_pure.2 ⟨rfl, rfl⟩⟩)

/-- Where a phrase of a tier ends, the loop of the next tier ends at once. -/
theorem reads_goOn_stop (n m : Nat) {tier next : Tier} (hn : tier.next? = some next) {eof : Token}
    {rest : List Token} (h : tier.Stops rest) (e : Expr) :
    Reads (goOn n next m e) eof rest e rest := by
  cases hl : next.level? with
  | some level =>
    obtain ⟨third, hn'⟩ : ∃ third, next.next? = some third := by
      cases next <;> cases hl <;> exact ⟨_, rfl⟩
    rw [goOn_eq_operations n m e hl hn']
    exact reads_operations_stop (fun _ hk => h.level_eq_none hn hl hk) e m
  | none =>
    cases next with
    | call => exact reads_calls_stop (h.not_leftParen hn) e m
    | assignment | unary | primary => exact reads_pure.2 ⟨rfl, rfl⟩
    | disjunction | conjunction | equality | comparison | sum | product => cases hl

end Parser

/-! ## Expressions -/

section
variable {e : Expr} {ts : List Token}

theorem Grammar.Atom.not_sign {t : Token} (h : Atom t e) : UnaryOp.ofKind? t.kind = none := by
  cases h with
  | no hk | yes hk | nothing hk | name hk => rw [hk]; rfl
  | number hk | text hk | blank hk =>
    generalize t.kind = k at hk
    cases hk <;> rfl

/-- The kinds that a call can start with. -/
theorem Grammar.OfExpr.not_sign {tier : Tier} (h : OfExpr (.expr tier e) ts)
    (ht : tier = .call ∨ tier = .primary) :
    ∀ k, headKind ts = some k → UnaryOp.ofKind? k = none := by
  generalize hp : ExprPhrase.expr tier e = phrase at h
  induction h generalizing tier e with
  | tighter hn _ ih =>
    cases hp
    refine ih ?_ rfl
    rcases ht with rfl | rfl <;> cases hn
    exact .inr rfl
  | callEmpty hc _ _ ih =>
    cases hp
    rw [headKind_append (by obtain ⟨t, us, rfl, -⟩ := hc.exists_head; simp)]
    exact ih (.inl rfl) rfl
  | call hc _ _ _ ih _ =>
    cases hp
    rw [headKind_append (by obtain ⟨t, us, rfl, -⟩ := hc.exists_head; simp)]
    exact ih (.inl rfl) rfl
  | atom ha =>
    intro k hk
    cases hk
    exact ha.not_sign
  | group ho _ _ _ =>
    intro k hk
    cases hk
    rw [ho]
    rfl
  | operation _ ho _ _ _ _ =>
    cases hp
    rcases ht with rfl | rfl <;> cases ho
  | assign | sign => cases hp; rcases ht with h | h <;> cases h
  | last | more => cases hp

theorem Grammar.OfExpr.ne_nil {phrase : ExprPhrase} (h : OfExpr phrase ts) : ts ≠ [] := by
  obtain ⟨t, us, rfl, -⟩ := h.exists_head
  simp

namespace Grammar.ExprPhrase.Read

theorem tighter {tier inner : Tier} (hn : tier.next? = some inner) (hd : OfExpr (.expr inner e) ts)
    (h : (ExprPhrase.expr inner e).Read ts) : (ExprPhrase.expr tier e).Read ts := by
  intro n eof rest out final he hlen hstop hgo
  have hinner : Reads (atTier n inner) eof (ts ++ rest) e rest :=
    h n eof rest e rest he hlen (hstop.next hn) fun m _ => reads_goOn_stop n m hn hstop e
  have hrest : rest.length ≤ n + 1 := by
    rw [List.length_append] at hlen
    omega
  cases hl : tier.level? with
  | some level =>
    rw [atTier_eq_joined n hl hn]
    refine reads_bind.2 ⟨e, rest, hinner, ?_⟩
    have hloop := hgo (n + 1) hrest
    rwa [goOn_eq_operations n (n + 1) e hl hn] at hloop
  | none =>
    cases tier with
    | assignment =>
      cases hn
      obtain ⟨rfl, rfl⟩ := reads_pure.1 (hgo _ hrest)
      have hne : headKind rest ≠ some .equal := fun hk => hstop _ hk (by decide)
      exact reads_bind.2 ⟨e, rest, hinner,
        reads_accept_bind.2 (.inr ⟨hne, reads_pure.2 ⟨rfl, rfl⟩⟩)⟩
    | unary =>
      cases hn
      obtain ⟨rfl, rfl⟩ := reads_pure.1 (hgo _ hrest)
      refine reads_acceptFrom_bind.2 (.inr ⟨?_, hinner⟩)
      rw [headKind_append hd.ne_nil]
      exact hd.not_sign (.inl rfl)
    | call =>
      cases hn
      exact reads_bind.2 ⟨e, rest, hinner, hgo (n + 1) hrest⟩
    | primary => cases hn
    | disjunction | conjunction | equality | comparison | sum | product => cases hl

theorem atom {t : Token} (ha : Atom t e) : (ExprPhrase.expr .primary e).Read [t] := by
  intro n eof rest out final he _ _ hgo
  obtain ⟨rfl, rfl⟩ := reads_pure.1 (hgo rest.length (Nat.le_refl _))
  have hskip : ∀ x : Expr, Reads (skip >>= fun _ => pure x) eof (t :: rest) x rest :=
    fun x => reads_skip_bind.2 (reads_pure.2 ⟨rfl, rfl⟩)
  refine reads_current_bind.2 ?_
  simp only [List.cons_append, List.nil_append, List.headD_cons]
  cases ha with
  | no hk | yes hk | nothing hk | name hk =>
    simp only [hk]
    exact hskip _
  | number hk hl | text hk hl | blank hk hl =>
    generalize t.kind = k at hk
    cases hk <;> simp only [hl] <;> exact hskip _

/-- A name alone is read as a name at every tier. -/
theorem name {t : Token} (ht : t.kind = .identifier) :
    (ExprPhrase.expr .disjunction (.var t)).Read [t] := by
  have step : ∀ {tier inner : Tier}, tier.next? = some inner →
      OfExpr (.expr inner (.var t)) [t] ∧ (ExprPhrase.expr inner (.var t)).Read [t] →
      OfExpr (.expr tier (.var t)) [t] ∧ (ExprPhrase.expr tier (.var t)).Read [t] :=
    fun hn h => ⟨.tighter hn h.1, tighter hn h.1 h.2⟩
  have hprimary : OfExpr (.expr .primary (.var t)) [t] ∧
      (ExprPhrase.expr .primary (.var t)).Read [t] := ⟨.atom (.name ht), atom (.name ht)⟩
  have hunary : OfExpr (.expr .unary (.var t)) [t] ∧
      (ExprPhrase.expr .unary (.var t)).Read [t] := step rfl (step rfl hprimary)
  have hequality : OfExpr (.expr .equality (.var t)) [t] ∧
      (ExprPhrase.expr .equality (.var t)).Read [t] :=
    step rfl (step rfl (step rfl (step rfl hunary)))
  exact (step rfl (step rfl hequality)).2

/-- The way from the tier of assignments to any bound that holds. -/
theorem reads_expression (hd : Expression e ts) (h : (ExprPhrase.expr .assignment e).Read ts)
    {n : Nat} {eof : Token} {rest : List Token} (he : eof.kind = .eof)
    (hlen : (ts ++ rest).length ≤ n) (hstop : Tier.assignment.Stops rest) :
    Reads (expression n) eof (ts ++ rest) e rest := by
  cases n with
  | zero =>
    have hnil : ts ++ rest = [] := List.length_eq_zero_iff.1 (Nat.le_zero.1 hlen)
    exact absurd (List.append_eq_nil_iff.1 hnil).1 hd.ne_nil
  | succ n => exact h n eof rest e rest he hlen hstop fun _ _ => reads_pure.2 ⟨rfl, rfl⟩

theorem assign {name equals : Token} {value : Expr} (hname : name.kind = .identifier)
    (heq : equals.kind = .equal) (hd : Expression value ts)
    (h : (ExprPhrase.expr .assignment value).Read ts) :
    (ExprPhrase.expr .assignment (.assign name value)).Read (name :: equals :: ts) := by
  intro n eof rest out final he hlen hstop hgo
  obtain ⟨rfl, rfl⟩ := reads_pure.1 (hgo rest.length (Nat.le_refl _))
  have hend : Tier.disjunction.Stops (equals :: (ts ++ rest)) := by
    intro k hk
    cases hk
    rw [heq]
    decide
  have htarget : Reads (atTier n .disjunction) eof (name :: equals :: (ts ++ rest)) (.var name)
      (equals :: (ts ++ rest)) := by
    refine Read.name hname n eof _ _ _ he (by simpa using hlen) hend fun m _ => ?_
    refine reads_operations_stop (fun k hk => ?_) _ m
    cases hk
    rw [heq]
    rfl
  have hvalue : Reads (expression n) eof (ts ++ rest) value rest :=
    reads_expression hd h he (by simp at hlen ⊢; omega) hstop
  refine reads_bind.2 ⟨_, _, htarget, reads_accept_bind.2 (.inl ⟨equals, _, rfl, heq, ?_⟩)⟩
  exact reads_bind.2 ⟨value, rest, hvalue, reads_pure.2 ⟨rfl, rfl⟩⟩

theorem operation {tier inner : Tier} {node : Token → Expr → Expr → Expr} {op : Token}
    {left right : Expr} {us : List Token} (hn : tier.next? = some inner)
    (ho : Operator tier op.kind node) (hl : (ExprPhrase.expr tier left).Read ts)
    (hr : (ExprPhrase.expr inner right).Read us) :
    (ExprPhrase.expr tier (node op left right)).Read (ts ++ op :: us) := by
  intro n eof rest out final he hlen hstop hgo
  obtain ⟨level, hlevel, hnode⟩ := ho.exists_level
  rw [List.append_assoc, List.cons_append]
  refine hl n eof _ out final he (by simpa using hlen) ho.stops fun m hm => ?_
  -- the loop behind the left operand takes the operator and the right operand
  cases m with
  | zero => simp at hm
  | succ m =>
    rw [goOn_eq_operations n (m + 1) left hlevel hn]
    refine reads_acceptFrom_bind.2 (.inl ⟨op, _, node, rfl, hnode, ?_⟩)
    have hright : Reads (atTier n inner) eof (us ++ rest) right rest := by
      refine hr n eof rest right rest he ?_ (hstop.next hn) fun j _ =>
        reads_goOn_stop n j hn hstop right
      simp at hlen ⊢
      omega
    refine reads_bind.2 ⟨right, rest, hright, ?_⟩
    have hloop := hgo m (by simp at hm; omega)
    rwa [goOn_eq_operations n m _ hlevel hn] at hloop

theorem sign {op : UnaryOp} {token : Token} (hs : Sign token.kind op)
    (h : (ExprPhrase.expr .unary e).Read ts) :
    (ExprPhrase.expr .unary (.unary op token e)).Read (token :: ts) := by
  intro n eof rest out final he hlen hstop hgo
  obtain ⟨rfl, rfl⟩ := reads_pure.1 (hgo rest.length (Nat.le_refl _))
  have hlen' : (ts ++ rest).length ≤ n := by simpa using hlen
  have hbound := agree_unary (shrinks_closed.call (shrinks_closed.expression n) (n + 1)) n
    (.refl _) eof (ts ++ rest) he hlen'
  have hinner : Reads (atTier n .unary) eof (ts ++ rest) e rest :=
    h n eof rest e rest he (by omega) hstop fun _ _ => reads_pure.2 ⟨rfl, rfl⟩
  refine reads_acceptFrom_bind.2 (.inl ⟨token, _, op, rfl, (sign_iff ..).2 hs, ?_⟩)
  exact reads_bind.2 ⟨e, rest, hbound.trans hinner, reads_pure.2 ⟨rfl, rfl⟩⟩

theorem group {opening closing : Token} (ho : opening.kind = .leftParen) (hd : Expression e ts)
    (h : (ExprPhrase.expr .assignment e).Read ts) (hc : closing.kind = .rightParen) :
    (ExprPhrase.expr .primary (.group e)).Read (opening :: (ts ++ [closing])) := by
  intro n eof rest out final he hlen _ hgo
  obtain ⟨rfl, rfl⟩ := reads_pure.1 (hgo rest.length (Nat.le_refl _))
  have hinner : Reads (expression n) eof (ts ++ closing :: rest) e (closing :: rest) :=
    reads_expression hd h he (by simp at hlen ⊢; omega) (stops_cons hc (by decide) rest)
  refine reads_current_bind.2 ?_
  simp only [List.cons_append, List.append_assoc, List.nil_append, List.headD_cons, ho]
  refine reads_skip_bind.2 (reads_bind.2 ⟨e, _, hinner, ?_⟩)
  exact reads_expect_pure.2 ⟨closing, rfl, hc, rfl⟩

/-- The parentheses of a call and what stands between them, behind a callee that is read. -/
theorem ofArguments {callee : Expr} {opening closing : Token} {args : List Expr} {us : List Token}
    (h : (ExprPhrase.expr .call callee).Read ts) (ho : opening.kind = .leftParen)
    (hc : closing.kind = .rightParen)
    (hargs : ∀ n m eof rest, eof.kind = .eof → (us ++ closing :: rest).length ≤ n →
      (us ++ closing :: rest).length ≤ m → Reads (arguments (expression n) m) eof
        (us ++ closing :: rest) args (closing :: rest)) :
    (ExprPhrase.expr .call (.call callee closing args)).Read
      (ts ++ opening :: (us ++ [closing])) := by
  intro n eof rest out final he hlen hstop hgo
  simp only [List.append_assoc, List.cons_append, List.nil_append] at hlen ⊢
  have hend : Tier.call.Stops (opening :: (us ++ closing :: rest)) := fun _ _ => List.not_mem_nil
  refine h n eof _ out final he hlen hend fun m hm => ?_
  cases m with
  | zero => simp at hm
  | succ m =>
    have hinner : (us ++ closing :: rest).length ≤ m := by simpa using hm
    have houter : (us ++ closing :: rest).length ≤ n := by
      simp at hlen ⊢
      omega
    refine reads_accept_bind.2 (.inl ⟨opening, _, rfl, ho, ?_⟩)
    refine reads_bind.2 ⟨args, _, hargs n m eof rest he houter hinner, ?_⟩
    refine reads_expect_bind.2 ⟨closing, rest, rfl, hc, hgo m ?_⟩
    simp at hinner
    omega

theorem callEmpty {callee : Expr} {opening closing : Token}
    (h : (ExprPhrase.expr .call callee).Read ts) (ho : opening.kind = .leftParen)
    (hc : closing.kind = .rightParen) :
    (ExprPhrase.expr .call (.call callee closing [])).Read (ts ++ [opening, closing]) := by
  have hargs : ∀ n m eof rest, eof.kind = .eof → ([] ++ closing :: rest).length ≤ n →
      ([] ++ closing :: rest).length ≤ m →
      Reads (arguments (expression n) m) eof ([] ++ closing :: rest) [] (closing :: rest) := by
    intro n m eof rest _ _ _
    refine reads_sees_bind.2 ?_
    simp only [List.nil_append, headKind_cons, hc, decide_true, if_true]
    exact reads_pure.2 ⟨rfl, rfl⟩
  exact ofArguments h ho hc hargs

theorem call {callee : Expr} {opening closing : Token} {args : List Expr} {us : List Token}
    (h : (ExprPhrase.expr .call callee).Read ts) (ho : opening.kind = .leftParen)
    (hd : OfExpr (.list args) us) (hargs : (ExprPhrase.list args).Read us)
    (hc : closing.kind = .rightParen) :
    (ExprPhrase.expr .call (.call callee closing args)).Read
      (ts ++ opening :: (us ++ [closing])) := by
  refine ofArguments h ho hc fun n m eof rest he hn hm => reads_sees_bind.2 ?_
  have hhead : headKind (us ++ closing :: rest) ≠ some .rightParen :=
    headKind_ne hd.exists_head rfl _
  have hcomma : headKind (closing :: rest) ≠ some .comma := by simp [hc]
  simp only [hhead, decide_false, Bool.false_eq_true, if_false]
  exact hargs n m eof _ he hn hm (stops_cons hc (by decide) rest) hcomma

theorem last (hd : Expression e ts) (h : (ExprPhrase.expr .assignment e).Read ts) :
    (ExprPhrase.list [e]).Read ts := by
  intro n m eof rest he hn _ hstop hcomma
  have hfirst : Reads (expression n) eof (ts ++ rest) e rest := reads_expression hd h he hn hstop
  cases m with
  | zero => exact reads_bind.2 ⟨e, rest, hfirst, reads_pure.2 ⟨rfl, rfl⟩⟩
  | succ m =>
    exact reads_bind.2 ⟨e, rest, hfirst,
      reads_accept_bind.2 (.inr ⟨hcomma, reads_pure.2 ⟨rfl, rfl⟩⟩)⟩

theorem more {comma : Token} {es : List Expr} {us : List Token} (hd : Expression e ts)
    (h : (ExprPhrase.expr .assignment e).Read ts) (hc : comma.kind = .comma)
    (hes : (ExprPhrase.list es).Read us) :
    (ExprPhrase.list (e :: es)).Read (ts ++ comma :: us) := by
  intro n m eof rest he hn hm hstop hcomma
  simp only [List.append_assoc, List.cons_append] at hn hm ⊢
  have hfirst : Reads (expression n) eof (ts ++ comma :: (us ++ rest)) e (comma :: (us ++ rest)) :=
    reads_expression hd h he hn (stops_cons hc (by decide) _)
  simp only [List.length_append, List.length_cons] at hn hm
  cases m with
  | zero => omega
  | succ m =>
    have hrest : Reads (commaSeparated (expression n) m) eof (us ++ rest) es rest :=
      hes n m eof rest he (by simp; omega) (by simp; omega) hstop hcomma
    refine reads_bind.2 ⟨e, _, hfirst, reads_accept_bind.2 (.inl ⟨comma, _, rfl, hc, ?_⟩)⟩
    exact reads_bind.2 ⟨es, rest, hrest, reads_pure.2 ⟨rfl, rfl⟩⟩

end Grammar.ExprPhrase.Read

/-- Every phrase of the expression grammar is read. -/
theorem Grammar.OfExpr.read {phrase : ExprPhrase} (h : OfExpr phrase ts) : phrase.Read ts := by
  induction h with
  | tighter hn hd ih => exact .tighter hn hd ih
  | assign hname heq hd ih => exact .assign hname heq hd ih
  | operation hn ho _ _ ihl ihr => exact .operation hn ho ihl ihr
  | sign hs _ ih => exact .sign hs ih
  | callEmpty _ ho hc ih => exact .callEmpty ih ho hc
  | call _ ho hd hc ih ihs => exact .call ih ho hd ihs hc
  | atom ha => exact .atom ha
  | group ho hd hc ih => exact .group ho hd ih hc
  | last hd ih => exact .last hd ih
  | more hd hc _ ih ihs => exact .more hd ih hc ihs

/-- An expression is read in front of everything that it cannot go on with. -/
theorem Grammar.OfExpr.reads (h : Expression e ts) {n : Nat} {eof : Token} {rest : List Token}
    (he : eof.kind = .eof) (hlen : (ts ++ rest).length ≤ n) (hstop : Tier.assignment.Stops rest) :
    Reads (expression n) eof (ts ++ rest) e rest :=
  ExprPhrase.Read.reads_expression h h.read he hlen hstop

end

end Sprog
