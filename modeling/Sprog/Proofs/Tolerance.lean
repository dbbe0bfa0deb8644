import Sprog.Proofs.Acceptance
import Sprog.Proofs.Prefixes

/-!
# What the parser takes without an unexpected token

A phrase of the grammar without its rule about assignments is taken to its end, in front of any rest
that it cannot go on with, and no token in it is unexpected. Nothing is said about the tree: behind
a target that is no name the value of the assignment is dropped, and that is reported.

* `Takes`: the parser gets through the tokens, though it may find fault with assignments.
* `Shape.Taken`: the same for the phrases of a shape, each with the parser for it.
* `Loose.taken`: every phrase is taken.
-/
namespace Sprog

open Grammar

namespace Parser

variable {α β : Type}

/-- The parser has a result on `ts` and leaves `rest`, and no token is unexpected. -/
def Takes (p : Parser α) (eof : Token) (ts rest : List Token) : Prop :=
  ∃ a reports, p eof ts = ⟨.ok a, rest, reports⟩ ∧ ∀ d ∈ reports, d.unexpected? = none

theorem Takes.unexpected? {p : Parser α} {eof : Token} {ts rest : List Token}
    (h : Takes p eof ts rest) : (p eof ts).unexpected? = none := by
  obtain ⟨a, reports, hp, hmild⟩ := h
  rw [hp]
  exact List.findSome?_eq_none_iff.2 hmild

namespace Takes

variable {p : Parser α} {f : α → Parser β} {eof t : Token} {ts mid rest : List Token}

theorem pure (a : α) : Takes (pure a) eof ts ts :=
  ⟨a, [], rfl, List.forall_mem_nil _⟩

theorem bind (hp : Takes p eof ts mid) (hf : ∀ a, Takes (f a) eof mid rest) :
    Takes (p >>= f) eof ts rest := by
  obtain ⟨a, first, hfirst, hmild⟩ := hp
  obtain ⟨b, second, hsecond, hmild'⟩ := hf a
  refine ⟨b, first ++ second, ?_, ?_⟩
  · rw [bind_ok hfirst, hsecond]
  · exact List.forall_mem_append.2 ⟨hmild, hmild'⟩

theorem map {g : α → β} (hp : Takes p eof ts rest) : Takes (g <$> p) eof ts rest :=
  hp.bind fun a => .pure (g a)

theorem report {d : Diagnostic} (hd : d.unexpected? = none) : Takes (report d) eof ts ts :=
  ⟨(), [d], rfl, by simpa using hd⟩

theorem recover (hp : Takes p eof ts rest) : Takes (recover p) eof ts rest := by
  obtain ⟨a, reports, hp, hmild⟩ := hp
  exact ⟨some a, reports, recover_ok hp, hmild⟩

theorem current_bind {f : Token → Parser β} (h : Takes (f (ts.headD eof)) eof ts rest) :
    Takes (current >>= f) eof ts rest := h

theorem skip_bind {f : Unit → Parser β} (h : Takes (f ()) eof ts rest) :
    Takes (skip >>= f) eof (t :: ts) rest := h

/-- Behind a parser whose result is known and that reports nothing. -/
theorem bind_of {a : α} (hp : p eof ts = ⟨.ok a, mid, []⟩) (hf : Takes (f a) eof mid rest) :
    Takes (p >>= f) eof ts rest := by
  obtain ⟨b, reports, hf, hmild⟩ := hf
  exact ⟨b, reports, by rw [bind_ok hp, hf]; rfl, hmild⟩

theorem accept_some {kind : Kind} {f : Option Token → Parser β} (hk : t.kind = kind)
    (h : Takes (f (some t)) eof ts rest) : Takes (accept kind >>= f) eof (t :: ts) rest :=
  bind_of (accept_take hk eof ts) h

theorem accept_none {kind : Kind} {f : Option Token → Parser β} (hk : headKind ts ≠ some kind)
    (h : Takes (f none) eof ts rest) : Takes (accept kind >>= f) eof ts rest := by
  cases ts with
  | nil => exact h
  | cons t ts => exact bind_of (accept_pass (by simpa using hk) eof ts) h

theorem expect_bind {kind : Kind} {expected : Expected} {f : Token → Parser β} (hk : t.kind = kind)
    (h : Takes (f t) eof ts rest) : Takes (expect kind expected >>= f) eof (t :: ts) rest :=
  bind_of (expect_take hk expected eof ts) h

theorem acceptFrom_some {table : Kind → Option α} {f : Option (α × Token) → Parser β} {a : α}
    (hk : table t.kind = some a) (h : Takes (f (some (a, t))) eof ts rest) :
    Takes (acceptFrom table >>= f) eof (t :: ts) rest :=
  bind_of (acceptFrom_take hk eof ts) h

theorem acceptFrom_none {table : Kind → Option α} {f : Option (α × Token) → Parser β}
    (hk : ∀ k, headKind ts = some k → table k = none) (h : Takes (f none) eof ts rest) :
    Takes (acceptFrom table >>= f) eof ts rest := by
  cases ts with
  | nil => exact h
  | cons t ts => exact bind_of (acceptFrom_pass (hk _ rfl) eof ts) h

theorem sees_bind {kind : Kind} {f : Bool → Parser β}
    (h : Takes (f (decide (headKind ts = some kind))) eof ts rest) :
    Takes (sees kind >>= f) eof ts rest := by
  refine bind_of ?_ h
  cases ts with
  | nil => rfl
  | cons t ts =>
    have hkind : (t.kind == kind) = decide (t.kind = kind) := rfl
    simp [sees, hkind]

theorem continues_bind {stop : Option Kind} {f : Bool → Parser β}
    (h : Takes (f (!decide (Ended stop ts))) eof ts rest) :
    Takes (continues stop >>= f) eof ts rest :=
  bind_of (continues_eq stop eof ts) h

theorem of_reads {a : α} (h : Reads p eof ts a rest) : Takes p eof ts rest :=
  ⟨a, [], h, List.forall_mem_nil _⟩

theorem of_eq {q : Parser α} (hq : q eof ts = p eof ts) (h : Takes p eof ts rest) :
    Takes q eof ts rest := by
  unfold Takes
  rwa [hq]

end Takes

/-- What follows the first operand of a tier, with the bound `m` on the tokens left: the loop of the
tier, or the value of an assignment. -/
def follow (n : Nat) (tier : Tier) (m : Nat) (e : Expr) : Parser Expr :=
  match tier with
  | .assignment => do
    match ← accept .equal with
    | none => return e
    | some equals =>
      let value ← expression n
      match e with
      | .var name => return .assign name value
      | _ =>
        report (.invalidAssignmentTarget equals)
        return e
  | tier => goOn n tier m e

/-- Every tier but that of the signs starts with its first operand. -/
theorem atTier_eq_follow (n : Nat) {tier next : Tier} (hn : tier.next? = some next)
    (hsign : tier ≠ .unary) : atTier n tier = atTier n next >>= follow n tier (n + 1) := by
  cases tier <;> cases hn <;> first | rfl | exact absurd rfl hsign

theorem follow_eq_operations (n m : Nat) (e : Expr) {tier next : Tier} {level : Level}
    (hl : tier.level? = some level) (hn : tier.next? = some next) :
    follow n tier m e = operations level (atTier n next) m e := by
  cases tier <;> cases hl <;> cases hn <;> rfl

end Parser

open Sprog.Parser

/-! ## Where a phrase ends -/

namespace Grammar

/-- The kinds that the first operand of a tier goes on with at that tier. -/
def Tier.tails : Tier → List Kind
  | assignment => [.equal]
  | disjunction => [.orKw]
  | conjunction => [.andKw]
  | equality => [.equalEqual, .bangEqual]
  | comparison => [.less, .lessEqual, .greater, .greaterEqual]
  | sum => [.plus, .minus]
  | product => [.star, .slash]
  | call => [.leftParen]
  | unary | primary => []

/-- No phrase of the tier goes on with these tokens. -/
def Tier.Ends (tier : Tier) (rest : List Token) : Prop :=
  ∀ k, headKind rest = some k → k ∉ tier.tails ++ tier.swallows

section
variable {tier inner : Tier} {rest : List Token}

theorem Tier.Ends.next (h : tier.Ends rest) (hn : tier.next? = some inner) : inner.Ends rest := by
  have hsub : ∀ k ∈ inner.tails ++ inner.swallows, k ∈ tier.tails ++ tier.swallows := by
    cases tier <;> cases hn <;> decide
  exact fun k hk hm => h k hk (hsub k hm)

theorem Operator.mem_tails {k : Kind} {node : Token → Expr → Expr → Expr}
    (h : Operator tier k node) : k ∈ tier.tails := by
  cases h <;> decide

theorem Tier.Ends.level_eq_none (h : tier.Ends rest) {level : Level}
    (hl : tier.level? = some level) {k : Kind} (hk : headKind rest = some k) : level k = none := by
  cases hlk : level k with
  | none => rfl
  | some node =>
    have hmem := ((operator_iff hl k node).1 hlk).mem_tails
    exact absurd (List.mem_append_left _ hmem) (h k hk)

/-- A token that no expression goes on with ends every expression. -/
theorem ends_cons {t : Token} {k : Kind} (hk : t.kind = k)
    (h : k ∉ Tier.assignment.swallows) (ts : List Token) : Tier.assignment.Ends (t :: ts) := by
  have hsub : ∀ k ∈ Tier.assignment.tails ++ Tier.assignment.swallows,
      k ∈ Tier.assignment.swallows := by decide
  intro k' hk' hm
  cases hk'
  exact h (hk ▸ hsub _ hm)

theorem Loose.head_more {us : List Token} (h : Loose (.more tier) us) :
    us = [] ∨ ∃ t vs, us = t :: vs ∧ t.kind ∈ tier.tails := by
  cases h with
  | done => exact .inl rfl
  | assign hq => exact .inr ⟨_, _, rfl, by simp [Tier.tails, hq]⟩
  | operation _ ho => exact .inr ⟨_, _, rfl, ho.mem_tails⟩
  | call ho => exact .inr ⟨_, _, rfl, by simp [Tier.tails, ho]⟩

/-- The first operand of a tier ends where the tier goes on, and where it ends. -/
theorem Loose.ends_more {us : List Token} (h : Loose (.more tier) us) (hn : tier.next? = some inner)
    (hrest : tier.Ends rest) : inner.Ends (us ++ rest) := by
  obtain rfl | ⟨t, vs, rfl, ht⟩ := h.head_more
  · exact hrest.next hn
  · have hapart : ∀ k ∈ tier.tails, k ∉ inner.tails ++ inner.swallows := by
      cases tier <;> cases hn <;> decide
    intro k hk
    cases hk
    exact hapart _ ht

end

/-! ## Phrases -/

/-- The tokens are taken by the parser of their shape in front of any rest that the shape cannot go
on with. -/
def Shape.Taken : Shape → List Token → Prop
  | .expr tier, ts => ∀ n eof rest, eof.kind = .eof → (ts ++ rest).length ≤ n + 1 →
      tier.Ends rest → Takes (atTier n tier) eof (ts ++ rest) rest
  | .more tier, ts => ∀ n m e eof rest, eof.kind = .eof → (ts ++ rest).length ≤ n + 1 →
      (ts ++ rest).length ≤ m → tier.Ends rest → Takes (follow n tier m e) eof (ts ++ rest) rest
  | .list, ts => ∀ n m eof rest, eof.kind = .eof → (ts ++ rest).length ≤ n →
      (ts ++ rest).length ≤ m → Tier.assignment.Ends rest → headKind rest ≠ some .comma →
      Takes (commaSeparated (Parser.expression n) m) eof (ts ++ rest) rest
  | .arguments, ts => ∀ n m eof closing rest, eof.kind = .eof → closing.kind = .rightParen →
      (ts ++ closing :: rest).length ≤ n → (ts ++ closing :: rest).length ≤ m →
      Takes (Parser.arguments (Parser.expression n) m) eof (ts ++ closing :: rest) (closing :: rest)
  | .optional, ts => ∀ n eof t rest, eof.kind = .eof →
      t.kind = .semicolon ∨ t.kind = .rightParen → (ts ++ t :: rest).length ≤ n →
      Takes (optionalBefore t.kind n) eof (ts ++ t :: rest) (t :: rest)
  | .binding, ts => ∀ n eof rest, eof.kind = .eof → (ts.tail ++ rest).length ≤ n →
      Takes (declareRest n) eof (ts.tail ++ rest) rest
  | .bare, ts => ∀ n eof rest, eof.kind = .eof → (ts ++ rest).length ≤ n →
      Takes (expressionStatement n) eof (ts ++ rest) rest
  | .initial, ts => ∀ n eof rest, eof.kind = .eof → (ts ++ rest).length ≤ n →
      Takes (countingInitial n) eof (ts ++ rest) rest
  | .statement unfinished, ts => ∀ n place eof rest, eof.kind = .eof →
      (ts ++ rest).length ≤ n → (unfinished = true → headKind rest ≠ some .elseKw) →
      Takes (Parser.statement n place) eof (ts ++ rest) rest
  | .declaration, ts => ∀ n eof rest, eof.kind = .eof → (ts ++ rest).length ≤ n →
      headKind rest ≠ some .elseKw → Takes (Parser.statement n .outer) eof (ts ++ rest) rest
  | .declarations, ts => ∀ stop n m eof rest, eof.kind = .eof → (ts ++ rest).length ≤ n →
      (ts ++ rest).length ≤ m → stop = none ∨ stop = some .rightBrace → headKind rest = stop →
      Takes (Parser.declarations stop (Parser.statement n .outer) m) eof (ts ++ rest) rest

namespace Shape.Taken

variable {ts us : List Token}

/-! ### Expressions -/

theorem first {tier next : Tier} (hn : tier.next? = some next) (hd : Loose (.expr next) ts)
    (h : (Shape.expr next).Taken ts) (hd' : Loose (.more tier) us)
    (h' : (Shape.more tier).Taken us) : (Shape.expr tier).Taken (ts ++ us) := by
  intro n eof rest he hlen hend
  rw [List.append_assoc] at hlen ⊢
  have hoperand := h n eof (us ++ rest) he hlen (hd'.ends_more hn hend)
  have hlater : (us ++ rest).length ≤ n + 1 := by
    rw [List.length_append] at hlen
    omega
  by_cases hsign : tier = .unary
  · -- a call has nothing behind it at the tier of the signs, and starts with none
    subst hsign
    cases hn
    obtain rfl : us = [] := by
      obtain hnil | ⟨t, vs, -, ht⟩ := hd'.head_more
      · exact hnil
      · cases ht
    refine .acceptFrom_none ?_ hoperand
    obtain ⟨t, vs, rfl, ht⟩ := hd.exists_head rfl
    intro k hk
    cases hk
    generalize t.kind = k at ht
    cases k <;> first | rfl | cases ht
  · rw [atTier_eq_follow n hn hsign]
    exact hoperand.bind fun e => h' n (n + 1) e eof rest he hlater hlater hend

/-- An expression is taken by the parser with any bound that holds. -/
theorem takes_expression (hd : Loose (.expr .assignment) ts)
    (h : (Shape.expr .assignment).Taken ts) {n : Nat} {eof : Token} {rest : List Token}
    (he : eof.kind = .eof) (hlen : (ts ++ rest).length ≤ n) (hend : Tier.assignment.Ends rest) :
    Takes (Parser.expression n) eof (ts ++ rest) rest := by
  cases n with
  | zero =>
    obtain ⟨t, vs, rfl, -⟩ := hd.exists_head rfl
    simp at hlen
  | succ n => exact h n eof rest he hlen hend

theorem sign {op : UnaryOp} {token : Token} (hs : Sign token.kind op)
    (h : (Shape.expr .unary).Taken ts) : (Shape.expr .unary).Taken (token :: ts) := by
  intro n eof rest he hlen hend
  -- the parser goes on with the smaller bound, which holds for what is left
  have hlen' : (ts ++ rest).length ≤ n := by simpa using hlen
  have hbound := agree_unary (shrinks_closed.call (shrinks_closed.expression n) (n + 1)) n
    (.refl _) eof (ts ++ rest) he hlen'
  refine .acceptFrom_some ((sign_iff ..).2 hs) (.bind ?_ fun e => .pure _)
  exact .of_eq hbound (h n eof rest he (by omega) hend)

theorem atom {t : Token} {e : Expr} (ha : Atom t e) : (Shape.expr .primary).Taken [t] := by
  intro n eof rest he _ _
  have hskip : ∀ x : Expr, Takes (skip >>= fun _ => Pure.pure x) eof (t :: rest) rest :=
    fun x => .skip_bind (.pure x)
  refine .current_bind ?_
  simp only [List.cons_append, List.nil_append, List.headD_cons]
  cases ha with
  | no hk | yes hk | nothing hk | name hk =>
    simp only [hk]
    exact hskip _
  | number hk | text hk | blank hk =>
    generalize t.kind = k at hk
    cases hk <;> exact hskip _

theorem group {opening closing : Token} (ho : opening.kind = .leftParen)
    (hd : Loose (.expr .assignment) ts) (h : (Shape.expr .assignment).Taken ts)
    (hc : closing.kind = .rightParen) :
    (Shape.expr .primary).Taken (opening :: (ts ++ [closing])) := by
  intro n eof rest he hlen _
  have hinner : Takes (Parser.expression n) eof (ts ++ closing :: rest) (closing :: rest) :=
    takes_expression hd h he (by simp at hlen ⊢; omega) (ends_cons hc (by decide) rest)
  refine .current_bind ?_
  simp only [List.cons_append, List.append_assoc, List.nil_append, List.headD_cons, ho]
  exact .skip_bind (hinner.bind fun _ => .expect_bind hc (.pure _))

theorem done {tier : Tier} : (Shape.more tier).Taken [] := by
  intro n m e eof rest _ _ _ hend
  cases hl : tier.level? with
  | some level =>
    obtain ⟨next, hn⟩ : ∃ next, tier.next? = some next := by
      cases tier <;> cases hl <;> exact ⟨_, rfl⟩
    rw [follow_eq_operations n m e hl hn]
    exact .of_reads (reads_operations_stop (fun _ hk => hend.level_eq_none hl hk) e m)
  | none =>
    cases tier with
    | assignment => exact .accept_none (fun hk => hend _ hk (by decide)) (.pure e)
    | call => exact .of_reads (reads_calls_stop (fun hk => hend _ hk (by decide)) e m)
    | unary | primary => exact .pure e
    | disjunction | conjunction | equality | comparison | sum | product => cases hl

theorem assign {equals : Token} (hq : equals.kind = .equal) (hd : Loose (.expr .assignment) ts)
    (h : (Shape.expr .assignment).Taken ts) : (Shape.more .assignment).Taken (equals :: ts) := by
  intro n m e eof rest he hlen _ hend
  have hvalue : Takes (Parser.expression n) eof (ts ++ rest) rest :=
    takes_expression hd h he (by simpa using hlen) hend
  refine .accept_some hq (hvalue.bind fun value => ?_)
  split
  · exact .pure _
  · exact (Takes.report rfl).bind fun _ => .pure _

theorem operation {tier next : Tier} {node : Token → Expr → Expr → Expr} {op : Token}
    (hn : tier.next? = some next) (ho : Operator tier op.kind node)
    (h : (Shape.expr next).Taken ts) (hd' : Loose (.more tier) us)
    (h' : (Shape.more tier).Taken us) : (Shape.more tier).Taken (op :: (ts ++ us)) := by
  intro n m e eof rest he hlen hm hend
  obtain ⟨level, hlevel, hnode⟩ := ho.exists_level
  simp only [List.cons_append, List.append_assoc, List.length_cons, List.length_append]
    at hlen hm ⊢
  cases m with
  | zero => omega
  | succ m =>
    rw [follow_eq_operations n (m + 1) e hlevel hn]
    have hright : Takes (atTier n next) eof (ts ++ (us ++ rest)) (us ++ rest) :=
      h n eof (us ++ rest) he (by simp; omega) (hd'.ends_more hn hend)
    refine .acceptFrom_some hnode (hright.bind fun right => ?_)
    rw [← follow_eq_operations n m _ hlevel hn]
    exact h' n m _ eof rest he (by simp; omega) (by simp; omega) hend

theorem call {opening closing : Token} (ho : opening.kind = .leftParen)
    (h : Shape.arguments.Taken ts) (hc : closing.kind = .rightParen)
    (h' : (Shape.more .call).Taken us) :
    (Shape.more .call).Taken (opening :: (ts ++ closing :: us)) := by
  intro n m e eof rest he hlen hm hend
  simp only [List.cons_append, List.append_assoc, List.length_cons, List.length_append]
    at hlen hm ⊢
  cases m with
  | zero => omega
  | succ m =>
    have hargs : Takes (Parser.arguments (Parser.expression n) m) eof
        (ts ++ closing :: (us ++ rest)) (closing :: (us ++ rest)) :=
      h n m eof closing (us ++ rest) he hc (by simp; omega) (by simp; omega)
    refine .accept_some ho (hargs.bind fun args => .expect_bind hc ?_)
    exact h' n m _ eof rest he (by simp; omega) (by simp; omega) hend

theorem last (hd : Loose (.expr .assignment) ts) (h : (Shape.expr .assignment).Taken ts) :
    Shape.list.Taken ts := by
  intro n m eof rest he hn _ hend hcomma
  have hfirst : Takes (Parser.expression n) eof (ts ++ rest) rest :=
    takes_expression hd h he hn hend
  cases m with
  | zero => exact hfirst.bind fun _ => .pure _
  | succ m => exact hfirst.bind fun _ => .accept_none hcomma (.pure _)

theorem comma {comma : Token} (hd : Loose (.expr .assignment) ts)
    (h : (Shape.expr .assignment).Taken ts) (hc : comma.kind = .comma)
    (h' : Shape.list.Taken us) : Shape.list.Taken (ts ++ comma :: us) := by
  intro n m eof rest he hn hm hend hcomma
  simp only [List.append_assoc, List.cons_append] at hn hm ⊢
  have hfirst : Takes (Parser.expression n) eof (ts ++ comma :: (us ++ rest))
      (comma :: (us ++ rest)) := takes_expression hd h he hn (ends_cons hc (by decide) _)
  simp only [List.length_append, List.length_cons] at hn hm
  cases m with
  | zero => omega
  | succ m =>
    have hothers := h' n m eof rest he (by simp; omega) (by simp; omega) hend hcomma
    exact hfirst.bind fun _ => .accept_some hc (hothers.bind fun _ => .pure _)

theorem noArguments : Shape.arguments.Taken [] := by
  intro n m eof closing rest _ hc _ _
  refine .sees_bind ?_
  simp only [List.nil_append, headKind_cons, hc, decide_true, if_true]
  exact .pure _

theorem arguments (hd : Loose .list ts) (h : Shape.list.Taken ts) : Shape.arguments.Taken ts := by
  intro n m eof closing rest he hc hn hm
  refine .sees_bind ?_
  simp only [headKind_ne (hd.exists_head rfl) (k := .rightParen) rfl _, decide_false,
    Bool.false_eq_true, if_false]
  exact h n m eof _ he hn hm (ends_cons hc (by decide) rest) (by simp [hc])

/-! ### Parts of statements -/

theorem missing : Shape.optional.Taken [] := by
  intro n eof t rest _ _ _
  refine .sees_bind ?_
  simp only [List.nil_append, headKind_cons, decide_true, if_true]
  exact .pure _

theorem given (hd : Loose (.expr .assignment) ts) (h : (Shape.expr .assignment).Taken ts) :
    Shape.optional.Taken ts := by
  intro n eof t rest he ht hlen
  have hstart : startsExpression t.kind = false := by rcases ht with ht | ht <;> rw [ht] <;> rfl
  have hend : t.kind ∉ Tier.assignment.swallows := by
    rcases ht with ht | ht <;> rw [ht] <;> decide
  refine .sees_bind ?_
  simp only [headKind_ne (hd.exists_head rfl) (k := t.kind) hstart _, decide_false,
    Bool.false_eq_true, if_false]
  exact (takes_expression hd h he hlen (ends_cons rfl hend rest)).map

theorem declare {keyword name semicolon : Token} (hname : name.kind = .identifier)
    (hs : semicolon.kind = .semicolon) : Shape.binding.Taken [keyword, name, semicolon] := by
  intro n eof rest _ _
  refine .expect_bind hname (.accept_none (by simp [hs]) ?_)
  exact (Takes.pure none).bind fun _ => .expect_bind hs (.pure _)

theorem declareInitial {keyword name equals semicolon : Token} (hname : name.kind = .identifier)
    (hq : equals.kind = .equal) (hd : Loose (.expr .assignment) ts)
    (h : (Shape.expr .assignment).Taken ts) (hs : semicolon.kind = .semicolon) :
    Shape.binding.Taken (keyword :: name :: equals :: (ts ++ [semicolon])) := by
  intro n eof rest he hlen
  simp only [List.tail_cons, List.cons_append, List.append_assoc, List.nil_append] at hlen ⊢
  have hvalue : Takes (Parser.expression n) eof (ts ++ semicolon :: rest) (semicolon :: rest) :=
    takes_expression hd h he (by simp at hlen ⊢; omega) (ends_cons hs (by decide) rest)
  exact .expect_bind hname (.accept_some hq (hvalue.map.bind fun _ => .expect_bind hs (.pure _)))

theorem bare {semicolon : Token} (hd : Loose (.expr .assignment) ts)
    (h : (Shape.expr .assignment).Taken ts) (hs : semicolon.kind = .semicolon) :
    Shape.bare.Taken (ts ++ [semicolon]) := by
  intro n eof rest he hlen
  simp only [List.append_assoc, List.cons_append, List.nil_append] at hlen ⊢
  exact (takes_expression hd h he hlen (ends_cons hs (by decide) rest)).bind fun _ =>
    .expect_bind hs (.pure _)

theorem noInitial {semicolon : Token} (hs : semicolon.kind = .semicolon) :
    Shape.initial.Taken [semicolon] :=
  fun _ _ _ _ _ => .accept_some hs (.pure _)

theorem bindingInitial (hd : Loose .binding ts) (h : Shape.binding.Taken ts) :
    Shape.initial.Taken ts := by
  intro n eof rest he hlen
  obtain ⟨t, us, rfl, ht⟩ := hd.exists_head rfl
  have hk : t.kind = .varKw := by simpa [Shape.starts] using ht
  refine .accept_none (by simp [hk]) (.accept_some hk ?_)
  exact (h n eof rest he (by simp at hlen ⊢; omega)).map

theorem bareInitial (hd : Loose .bare ts) (h : Shape.bare.Taken ts) : Shape.initial.Taken ts := by
  intro n eof rest he hlen
  have hhead := hd.exists_head rfl
  exact .accept_none (headKind_ne hhead rfl _) (.accept_none (headKind_ne hhead rfl _)
    (h n eof rest he hlen).map)

/-! ### Statements -/

theorem expression (hd : Loose .bare ts) (h : Shape.bare.Taken ts) :
    (Shape.statement false).Taken ts := by
  intro n place eof rest he hlen _
  cases n with
  | zero => exact h 0 eof rest he hlen
  | succ n =>
    have htaken := h (n + 1) eof rest he hlen
    obtain ⟨t, us, rfl, ht⟩ := hd.exists_head rfl
    refine .current_bind ?_
    rw [List.cons_append, List.headD_cons]
    cases hk : t.kind with
    | bang | minus | falseKw | trueKw | nilKw | number | string | identifier | leftParen =>
      exact htaken
    | _ => rw [hk] at ht; cases ht

theorem print {keyword semicolon : Token} (hk : keyword.kind = .printKw)
    (hd : Loose (.expr .assignment) ts) (h : (Shape.expr .assignment).Taken ts)
    (hs : semicolon.kind = .semicolon) :
    (Shape.statement false).Taken (keyword :: (ts ++ [semicolon])) := by
  intro n place eof rest he hlen _
  cases n with
  | zero => simp at hlen
  | succ n =>
    have hvalue : Takes (Parser.expression n) eof (ts ++ semicolon :: rest) (semicolon :: rest) :=
      takes_expression hd h he (by simp at hlen ⊢; omega) (ends_cons hs (by decide) rest)
    refine .current_bind ?_
    simp only [List.cons_append, List.headD_cons, hk, List.append_assoc, List.nil_append]
    exact .skip_bind (hvalue.bind fun _ => .expect_bind hs (.pure _))

/-- The declarations of a block and its closing brace. -/
theorem takes_blockRest {closing : Token} (h : Shape.declarations.Taken ts)
    (hc : closing.kind = .rightBrace) {n : Nat} {eof : Token} {rest : List Token}
    (he : eof.kind = .eof) (hlen : (ts ++ closing :: rest).length ≤ n) :
    Takes (blockRest n (Parser.statement n .outer)) eof (ts ++ closing :: rest) rest := by
  have hbody := h (some .rightBrace) n n eof (closing :: rest) he hlen hlen (.inr rfl)
    (by rw [headKind_cons, hc])
  exact hbody.bind fun _ => .expect_bind hc (.pure _)

theorem block {opening closing : Token} (ho : opening.kind = .leftBrace)
    (h : Shape.declarations.Taken ts) (hc : closing.kind = .rightBrace) :
    (Shape.statement false).Taken (opening :: (ts ++ [closing])) := by
  intro n place eof rest he hlen _
  cases n with
  | zero => simp at hlen
  | succ n =>
    refine .current_bind ?_
    simp only [List.cons_append, List.headD_cons, ho, List.append_assoc, List.nil_append]
    exact .skip_bind ((takes_blockRest h hc he (by simpa using hlen)).bind fun _ => .pure _)

/-- A branch up to the place where its alternative may follow. -/
theorem branchHead {keyword opening closing : Token} {o : Bool} (hk : keyword.kind = .ifKw)
    (ho : opening.kind = .leftParen) (hd : Loose (.expr .assignment) ts)
    (h : (Shape.expr .assignment).Taken ts) (hc : closing.kind = .rightParen)
    (hyes : (Shape.statement o).Taken us) {n : Nat} {place : Place} {eof : Token}
    {rest final : List Token} (he : eof.kind = .eof)
    (hlen : (keyword :: opening :: (ts ++ closing :: (us ++ rest))).length ≤ n + 1)
    (hrest : o = true → headKind rest ≠ some .elseKw)
    (hmore : ∀ test yes, Takes (do
      match ← accept .elseKw with
      | some _ => return Stmt.branch test yes (some (← Parser.statement n .inner))
      | none => return Stmt.branch test yes none) eof rest final) :
    Takes (Parser.statement (n + 1) place) eof
      (keyword :: opening :: (ts ++ closing :: (us ++ rest))) final := by
  have htest : Takes (Parser.expression n) eof (ts ++ closing :: (us ++ rest))
      (closing :: (us ++ rest)) :=
    takes_expression hd h he (by simp at hlen ⊢; omega) (ends_cons hc (by decide) _)
  have hyes := hyes n .inner eof rest he (by simp at hlen ⊢; omega) hrest
  refine .current_bind ?_
  simp only [List.headD_cons, hk]
  exact .skip_bind (.expect_bind ho (htest.bind fun test => .expect_bind hc
    (hyes.bind fun yes => hmore test yes)))

theorem branch {keyword opening closing : Token} {o : Bool} (hk : keyword.kind = .ifKw)
    (ho : opening.kind = .leftParen) (hd : Loose (.expr .assignment) ts)
    (h : (Shape.expr .assignment).Taken ts) (hc : closing.kind = .rightParen)
    (hyes : (Shape.statement o).Taken us) :
    (Shape.statement true).Taken (keyword :: opening :: (ts ++ closing :: us)) := by
  intro n place eof rest he hlen hrest
  simp only [List.cons_append, List.append_assoc] at hlen ⊢
  cases n with
  | zero => simp at hlen
  | succ n =>
    refine branchHead hk ho hd h hc hyes he hlen (fun _ => hrest rfl) fun test yes => ?_
    exact .accept_none (hrest rfl) (.pure _)

theorem alternative {keyword opening closing other : Token} {o : Bool} {vs : List Token}
    (hk : keyword.kind = .ifKw) (ho : opening.kind = .leftParen)
    (hd : Loose (.expr .assignment) ts) (h : (Shape.expr .assignment).Taken ts)
    (hc : closing.kind = .rightParen) (hyes : (Shape.statement false).Taken us)
    (hother : other.kind = .elseKw) (hno : (Shape.statement o).Taken vs) :
    (Shape.statement o).Taken
      (keyword :: opening :: (ts ++ closing :: (us ++ other :: vs))) := by
  intro n place eof rest he hlen hrest
  simp only [List.cons_append, List.append_assoc] at hlen ⊢
  cases n with
  | zero => simp at hlen
  | succ n =>
    have hno := hno n .inner eof rest he (by simp at hlen ⊢; omega) hrest
    refine branchHead hk ho hd h hc hyes he hlen nofun fun test yes => ?_
    exact .accept_some hother (hno.bind fun _ => .pure _)

theorem loop {keyword opening closing : Token} {o : Bool} (hk : keyword.kind = .whileKw)
    (ho : opening.kind = .leftParen) (hd : Loose (.expr .assignment) ts)
    (h : (Shape.expr .assignment).Taken ts) (hc : closing.kind = .rightParen)
    (hbody : (Shape.statement o).Taken us) :
    (Shape.statement o).Taken (keyword :: opening :: (ts ++ closing :: us)) := by
  intro n place eof rest he hlen hrest
  simp only [List.cons_append, List.append_assoc] at hlen ⊢
  cases n with
  | zero => simp at hlen
  | succ n =>
    have htest : Takes (Parser.expression n) eof (ts ++ closing :: (us ++ rest))
        (closing :: (us ++ rest)) :=
      takes_expression hd h he (by simp at hlen ⊢; omega) (ends_cons hc (by decide) _)
    have hbody := hbody n .inner eof rest he (by simp at hlen ⊢; omega) hrest
    refine .current_bind ?_
    simp only [List.headD_cons, hk]
    exact .skip_bind (.expect_bind ho (htest.bind fun _ => .expect_bind hc
      (hbody.bind fun _ => .pure _)))

theorem counting {keyword opening semicolon closing : Token} {o : Bool} {vs ws : List Token}
    (hk : keyword.kind = .forKw) (ho : opening.kind = .leftParen)
    (hinitial : Shape.initial.Taken ts) (htest : Shape.optional.Taken us)
    (hs : semicolon.kind = .semicolon) (hincrement : Shape.optional.Taken vs)
    (hc : closing.kind = .rightParen) (hbody : (Shape.statement o).Taken ws) :
    (Shape.statement o).Taken
      (keyword :: opening :: (ts ++ (us ++ semicolon :: (vs ++ closing :: ws)))) := by
  intro n place eof rest he hlen hrest
  simp only [List.cons_append, List.append_assoc] at hlen ⊢
  cases n with
  | zero => simp at hlen
  | succ n =>
    have hinitial := hinitial n eof (us ++ semicolon :: (vs ++ closing :: (ws ++ rest))) he
      (by simp at hlen ⊢; omega)
    have htest := htest n eof semicolon (vs ++ closing :: (ws ++ rest)) he (.inl hs)
      (by simp at hlen ⊢; omega)
    have hincrement := hincrement n eof closing (ws ++ rest) he (.inr hc)
      (by simp at hlen ⊢; omega)
    have hbody := hbody n .inner eof rest he (by simp at hlen ⊢; omega) hrest
    rw [hs] at htest
    rw [hc] at hincrement
    refine .current_bind ?_
    simp only [List.headD_cons, hk]
    exact .skip_bind (.expect_bind ho (hinitial.bind fun _ => htest.bind fun _ =>
      .expect_bind hs (hincrement.bind fun _ => .expect_bind hc (hbody.bind fun _ => .pure _))))

/-! ### Declarations -/

theorem bindingDeclaration (hd : Loose .binding ts) (h : Shape.binding.Taken ts) :
    Shape.declaration.Taken ts := by
  intro n eof rest he hlen _
  obtain ⟨t, us, rfl, ht⟩ := hd.exists_head rfl
  have hk : t.kind = .varKw := by simpa [Shape.starts] using ht
  cases n with
  | zero => simp at hlen
  | succ n =>
    refine .current_bind ?_
    simp only [List.cons_append, List.headD_cons, hk]
    exact .skip_bind (h n eof rest he (by simpa using hlen))

theorem function {keyword name opening closing left right : Token} {names : List Token}
    (hk : keyword.kind = .functionKw) (hname : name.kind = .identifier)
    (ho : opening.kind = .leftParen) (hnames : Parameters names ts)
    (hc : closing.kind = .rightParen) (hl : left.kind = .leftBrace)
    (hbody : Shape.declarations.Taken us) (hr : right.kind = .rightBrace) :
    Shape.declaration.Taken
      (keyword :: name :: opening :: (ts ++ closing :: left :: (us ++ [right]))) := by
  intro n eof rest he hlen _
  simp only [List.cons_append, List.append_assoc, List.nil_append] at hlen ⊢
  cases n with
  | zero => simp at hlen
  | succ n =>
    have hnames : Takes (parameters n) eof (ts ++ closing :: left :: (us ++ right :: rest))
        (closing :: left :: (us ++ right :: rest)) :=
      .of_reads (hnames.reads hc (by simp at hlen ⊢; omega))
    have hbody : Takes (blockRest n (Parser.statement n .outer)) eof (us ++ right :: rest) rest :=
      takes_blockRest hbody hr he (by simp at hlen ⊢; omega)
    refine .current_bind ?_
    simp only [List.headD_cons, hk]
    exact .skip_bind (.expect_bind hname (.expect_bind ho (hnames.bind fun _ =>
      .expect_bind hc (.expect_bind hl (hbody.bind fun _ => .pure _)))))

theorem nil : Shape.declarations.Taken [] := by
  intro stop n m eof rest _ _ _ _ hrest
  exact .of_reads (declarations_stop (.inr hrest) m)

theorem cons (hd : Loose .declaration ts) (h : Shape.declaration.Taken ts)
    (hds : Loose .declarations us) (hs : Shape.declarations.Taken us) :
    Shape.declarations.Taken (ts ++ us) := by
  intro stop n m eof rest he hn hm hstop hrest
  rw [List.append_assoc] at hn hm ⊢
  have hhead := hd.exists_head rfl
  -- behind a declaration stands another one, or the end that stops them
  have helse : headKind (us ++ rest) ≠ some .elseKw := by
    cases hds with
    | nil =>
      rw [List.nil_append, hrest]
      rcases hstop with rfl | rfl <;> simp
    | cons hnext =>
      rw [List.append_assoc]
      exact headKind_ne (hnext.exists_head rfl) rfl _
  have hgoes : ¬ Ended stop (ts ++ (us ++ rest)) := by
    obtain ⟨t, vs, rfl, ht⟩ := hhead
    rintro (hnil | hstopped)
    · cases hnil
    · rcases hstop with rfl | rfl
      · cases hstopped
      · exact headKind_ne ⟨t, vs, rfl, ht⟩ rfl _ hstopped
  have hpos : 0 < ts.length := by
    obtain ⟨t, vs, rfl, -⟩ := hhead
    simp
  rw [List.length_append] at hn hm
  cases m with
  | zero => omega
  | succ m =>
    have hfirst := h n eof (us ++ rest) he (by rw [List.length_append]; omega) helse
    have hothers := hs stop n m eof rest he (by omega) (by omega) hstop hrest
    refine .continues_bind ?_
    simp only [hgoes, decide_false, Bool.not_false, if_true]
    exact hfirst.recover.bind fun _ => hothers.bind fun _ => .pure _

end Shape.Taken

/-- Every phrase is taken. -/
theorem Loose.taken {shape : Shape} {ts : List Token} (h : Loose shape ts) : shape.Taken ts := by
  induction h with
  | first hn hd hd' ih ih' => exact .first hn hd ih hd' ih'
  | sign hs _ ih => exact .sign hs ih
  | atom ha => exact .atom ha
  | group ho hd hc ih => exact .group ho hd ih hc
  | done => exact .done
  | assign hq hd ih => exact .assign hq hd ih
  | operation hn ho _ hd' ih ih' => exact .operation hn ho ih hd' ih'
  | call ho _ hc _ ih ih' => exact .call ho ih hc ih'
  | last hd ih => exact .last hd ih
  | comma hd hc _ ih ih' => exact .comma hd ih hc ih'
  | noArguments => exact .noArguments
  | arguments hd ih => exact .arguments hd ih
  | missing => exact .missing
  | given hd ih => exact .given hd ih
  | declare _ hn hs => exact .declare hn hs
  | declareInitial _ hn hq hd hs ih => exact .declareInitial hn hq hd ih hs
  | bare hd hs ih => exact .bare hd ih hs
  | noInitial hs => exact .noInitial hs
  | bindingInitial hd ih => exact .bindingInitial hd ih
  | bareInitial hd ih => exact .bareInitial hd ih
  | expression hd ih => exact .expression hd ih
  | print hk hd hs ih => exact .print hk hd ih hs
  | block ho _ hc ih => exact .block ho ih hc
  | branch hk ho hd hc _ ih ih' => exact .branch hk ho hd ih hc ih'
  | alternative hk ho hd hc _ hother _ ih ihy ihn =>
    exact .alternative hk ho hd ih hc ihy hother ihn
  | loop hk ho hd hc _ ih ih' => exact .loop hk ho hd ih hc ih'
  | counting hk ho _ _ hs _ hc _ ihi iht ihn ihb =>
    exact .counting hk ho ihi iht hs ihn hc ihb
  | bindingDeclaration hd ih => exact .bindingDeclaration hd ih
  | function hk hn ho hp hc hl _ hr ih => exact .function hk hn ho hp hc hl ih hr
  | statement _ ih => exact fun n eof rest he hlen hr => ih n .outer eof rest he hlen fun _ => hr
  | nil => exact .nil
  | cons hd hds ih ihs => exact .cons hd ih hds ihs

end Grammar

end Sprog
