import Sprog.Proofs.Closure

/-!
# The bound makes no difference

Every parser of the language takes a bound on the tokens left, which only serves to end its
recursion. As long as the bound holds, one more makes no difference: a parser lowers the bound only
behind a token, and with no token left it does the same at every bound.

* `consumes_statement`, `recover_rest_lt`: a declaration takes at least one token, also one that
  fails and is left behind.
* `agree_statement_succ`, `agree_program`: statements and whole programs with bounds that hold.
-/
namespace Sprog.Parser

variable {α β : Type}

/-- The parsers do the same on at most `k` tokens. -/
def Agree (k : Nat) (p q : Parser α) : Prop :=
  ∀ eof ts, eof.kind = .eof → ts.length ≤ k → p eof ts = q eof ts

/-- Two sequences do the same if their first parsers do and then their second ones on the rest. -/
theorem bind_congr {p q : Parser α} {f g : α → Parser β} {eof : Token} {ts : List Token}
    (h : p eof ts = q eof ts)
    (hf : ∀ a mid reports, p eof ts = ⟨.ok a, mid, reports⟩ → f a eof mid = g a eof mid) :
    (p >>= f) eof ts = (q >>= g) eof ts := by
  rcases hp : p eof ts with ⟨e | a, mid, reports⟩
  · rw [bind_error hp, bind_error (h ▸ hp)]
  · rw [bind_ok hp, bind_ok (h ▸ hp), hf a mid reports hp]

namespace Agree

variable {k : Nat}

theorem refl (p : Parser α) : Agree k p p := fun _ _ _ _ => rfl

theorem mono {j : Nat} {p q : Parser α} (h : Agree k p q) (hj : j ≤ k) : Agree j p q :=
  fun eof ts he hl => h eof ts he (by omega)

theorem trans {p q r : Parser α} (h : Agree k p q) (h' : Agree k q r) : Agree k p r :=
  fun eof ts he hl => (h eof ts he hl).trans (h' eof ts he hl)

theorem bind {p q : Parser α} {f g : α → Parser β} (h : Agree k p q) (hs : Shrinks p)
    (hf : ∀ a, Agree k (f a) (g a)) : Agree k (p >>= f) (q >>= g) := by
  intro eof ts he hl
  refine bind_congr (h eof ts he hl) fun a mid reports hp => hf a eof mid he ?_
  have hrest := (hs eof ts).length_le
  rw [hp] at hrest
  exact Nat.le_trans hrest hl

theorem map (f : α → β) {p q : Parser α} (h : Agree k p q) (hs : Shrinks p) :
    Agree k (f <$> p) (f <$> q) :=
  h.bind hs fun _ => refl _

/-- Behind a token there is one less. -/
theorem skip {f g : Unit → Parser β} (h : Agree k (f ()) (g ())) :
    Agree (k + 1) (Parser.skip >>= f) (Parser.skip >>= g) := by
  intro eof ts he hl
  exact h eof ts.tail he (by rw [List.length_tail]; omega)

theorem accept {kind : Kind} {f g : Option Token → Parser β} (hn : Agree k (f none) (g none))
    (hs : ∀ t, Agree (k - 1) (f (some t)) (g (some t))) :
    Agree k (Parser.accept kind >>= f) (Parser.accept kind >>= g) := by
  intro eof ts he hl
  cases ts with
  | nil => exact hn eof [] he hl
  | cons t ts =>
    by_cases hk : t.kind = kind
    · have ha := accept_take hk eof ts
      rw [bind_ok ha, bind_ok ha, hs t eof ts he (by rw [List.length_cons] at hl; omega)]
    · have ha := accept_pass hk eof ts
      rw [bind_ok ha, bind_ok ha, hn eof (t :: ts) he hl]

theorem acceptFrom {table : Kind → Option α} {f g : Option (α × Token) → Parser β}
    (hn : Agree k (f none) (g none)) (hs : ∀ x, Agree (k - 1) (f (some x)) (g (some x))) :
    Agree k (Parser.acceptFrom table >>= f) (Parser.acceptFrom table >>= g) := by
  intro eof ts he hl
  cases ts with
  | nil => exact hn eof [] he hl
  | cons t ts =>
    cases hk : table t.kind with
    | some a =>
      have ha : Parser.acceptFrom table eof (t :: ts) = ⟨.ok (some (a, t)), ts, []⟩ := by
        simp [Parser.acceptFrom, hk]
      rw [bind_ok ha, bind_ok ha, hs (a, t) eof ts he (by rw [List.length_cons] at hl; omega)]
    | none =>
      have ha : Parser.acceptFrom table eof (t :: ts) = ⟨.ok none, t :: ts, []⟩ := by
        simp [Parser.acceptFrom, hk]
      rw [bind_ok ha, bind_ok ha, hn eof (t :: ts) he hl]

/-- With no token left only the answer to the empty list counts. -/
theorem zero {p q : Parser α} (h : ∀ eof, eof.kind = .eof → p eof [] = q eof []) :
    Agree 0 p q := by
  intro eof ts he hl
  have hts : ts = [] := List.length_eq_zero_iff.1 (by omega)
  rw [hts]
  exact h eof he

end Agree

theorem shrinks_expect (kind : Kind) (expected : Expected) : Shrinks (expect kind expected) :=
  shrinks_closed.expect kind expected

/-! ## Expressions -/

theorem agree_commaSeparated {item item' : Parser α} (hs : Shrinks item) :
    ∀ n, Agree n item item' → Agree n (commaSeparated item n) (commaSeparated item' (n + 1))
  | 0, h => h.bind hs fun _ => .zero fun _ _ => rfl
  | n + 1, h => by
    refine h.bind hs fun first => .accept (.refl _) fun _ => ?_
    exact (agree_commaSeparated hs n (h.mono (by omega))).bind
      (shrinks_closed.commaSeparated hs n) fun _ => .refl _

section
variable {expr expr' : Parser Expr} (hs : Shrinks expr)

include hs

theorem agree_primary {k : Nat} (h : Agree k expr expr') :
    Agree (k + 1) (primary expr) (primary expr') := by
  refine (Agree.refl current).bind shrinks_closed.current fun token => ?_
  split
  · exact .refl _
  · exact .refl _
  · exact .refl _
  · exact .refl _
  · exact .refl _
  · exact .refl _
  · exact .skip (h.bind hs fun _ => .refl _)
  · exact .refl _

theorem agree_arguments {n : Nat} (h : Agree n expr expr') :
    Agree n (arguments expr n) (arguments expr' (n + 1)) := by
  refine (Agree.refl _).bind (shrinks_closed.sees _) fun b => ?_
  split
  · exact .refl _
  · exact agree_commaSeparated hs n h

theorem agree_calls {k : Nat} (h : Agree k expr expr') :
    ∀ n, n ≤ k + 1 → ∀ callee, Agree n (calls expr n callee) (calls expr' (n + 1) callee)
  | 0, _, _ => .zero fun _ _ => rfl
  | n + 1, hn, callee => by
    refine .accept (.refl _) fun _ => ?_
    exact (agree_arguments hs (h.mono (by omega))).bind (shrinks_closed.arguments hs n) fun args =>
      (Agree.refl _).bind (shrinks_expect _ _) fun closing => agree_calls h n (by omega) _

theorem agree_call {n : Nat} (h : Agree n expr expr') :
    Agree (n + 1) (call expr (n + 1)) (call expr' (n + 2)) :=
  (agree_primary hs h).bind (shrinks_closed.primary hs) fun _ =>
    agree_calls hs h (n + 1) (Nat.le_refl _) _

end

theorem agree_unary {operand operand' : Parser Expr} (hs : Shrinks operand) :
    ∀ n, Agree n operand operand' → Agree n (unary operand n) (unary operand' (n + 1))
  | 0, h => .zero fun eof he => h eof [] he (Nat.le_refl 0)
  | n + 1, h => by
    refine .acceptFrom h fun _ => ?_
    exact (agree_unary hs n (h.mono (by omega))).bind (shrinks_closed.unary hs n) fun _ => .refl _

theorem agree_operations {operand operand' : Parser Expr} (hs : Shrinks operand) (level : Level)
    {k : Nat} (h : Agree k operand operand') : ∀ n, n ≤ k + 1 → ∀ left,
      Agree n (operations level operand n left) (operations level operand' (n + 1) left)
  | 0, _, _ => .zero fun _ _ => rfl
  | n + 1, hn, left => by
    refine .acceptFrom (.refl _) fun _ => ?_
    exact (h.mono (by omega)).bind hs fun _ => agree_operations hs level h n (by omega) _

theorem agree_joined {n : Nat} {operand operand' : Parser Expr} (hs : Shrinks operand)
    (h : Agree n operand operand') (level : Level) :
    Agree n (joined n operand level) (joined (n + 1) operand' level) :=
  h.bind hs fun _ => agree_operations hs level h n (by omega) _

theorem agree_operation {n : Nat} {expr expr' : Parser Expr} (hs : Shrinks expr)
    (h : Agree n expr expr') :
    Agree (n + 1) (operation expr (n + 1)) (operation expr' (n + 2)) := by
  have step : ∀ (levels : List Level) (p q : Parser Expr), Shrinks p → Agree (n + 1) p q →
      Agree (n + 1) (levels.foldl (joined (n + 1)) p) (levels.foldl (joined (n + 2)) q) := by
    intro levels
    induction levels with
    | nil => exact fun _ _ _ hpq => hpq
    | cons level levels ih =>
      exact fun p q hp hpq => ih _ _ (shrinks_closed.joined hp (n + 1) level)
        (agree_joined hp hpq level)
  have hcall := shrinks_closed.call hs (n + 1)
  exact step _ _ _ (shrinks_closed.unary hcall (n + 1))
    (agree_unary hcall (n + 1) (agree_call hs h))

theorem agree_assignment {n : Nat} {expr expr' : Parser Expr} (hs : Shrinks expr)
    (h : Agree n expr expr') :
    Agree (n + 1) (assignment expr (n + 1)) (assignment expr' (n + 2)) := by
  refine (agree_operation hs h).bind (shrinks_closed.operation hs (n + 1)) fun target => ?_
  exact .accept (.refl _) fun _ => h.bind hs fun _ => .refl _

theorem primary_nil {eof : Token} (he : eof.kind = .eof) (expr : Parser Expr) :
    primary expr eof [] = fail .expression eof [] := by
  have hc : current eof [] = ⟨.ok eof, [], []⟩ := rfl
  unfold primary
  rw [bind_ok hc]
  simp only [he, List.nil_append]

/-- With no token left an expression is missing. -/
theorem expression_nil {eof : Token} (he : eof.kind = .eof) :
    ∀ n, expression n eof [] = fail .expression eof []
  | 0 => rfl
  | n + 1 => by
    have hcall : unary (call (expression n) (n + 1)) (n + 1) eof [] = fail .expression eof [] :=
      bind_error (primary_nil he _) _
    -- the first operand fails at every level
    have step : ∀ (levels : List Level) (p : Parser Expr), p eof [] = fail .expression eof [] →
        levels.foldl (joined (n + 1)) p eof [] = fail .expression eof [] := by
      intro levels
      induction levels with
      | nil => exact fun _ hp => hp
      | cons level levels ih => exact fun p hp => ih _ (bind_error hp _)
    exact bind_error (step Level.all _ hcall) _

theorem agree_expression : ∀ n, Agree n (expression n) (expression (n + 1))
  | 0 => .zero fun _ he => (expression_nil he 1).symm
  | n + 1 => agree_assignment (shrinks_closed.expression n) (agree_expression n)

/-! ## Statements -/

theorem agree_expressionStatement (n : Nat) :
    Agree n (expressionStatement n) (expressionStatement (n + 1)) :=
  (agree_expression n).bind (shrinks_closed.expression n) fun _ => .refl _

theorem agree_printRest (n : Nat) (keyword : Token) :
    Agree n (printRest n keyword) (printRest (n + 1) keyword) :=
  (agree_expression n).bind (shrinks_closed.expression n) fun _ => .refl _

theorem agree_declareRest (n : Nat) : Agree n (declareRest n) (declareRest (n + 1)) := by
  refine (Agree.refl _).bind (shrinks_expect _ _) fun name => .accept (.refl _) fun _ => ?_
  exact (((agree_expression n).mono (by omega)).map _ (shrinks_closed.expression n)).bind
    (shrinks_closed.map _ (shrinks_closed.expression n)) fun _ => .refl _

theorem agree_countingInitial (n : Nat) :
    Agree n (countingInitial n) (countingInitial (n + 1)) := by
  refine .accept (.accept ?_ fun _ => ?_) fun _ => .refl _
  · exact (agree_expressionStatement n).map _ (shrinks_closed.expressionStatement n)
  · exact ((agree_declareRest n).mono (by omega)).map _ (shrinks_closed.declareRest n)

theorem agree_optionalBefore (kind : Kind) (n : Nat) :
    Agree n (optionalBefore kind n) (optionalBefore kind (n + 1)) := by
  refine (Agree.refl _).bind (shrinks_closed.sees _) fun b => ?_
  split
  · exact .refl _
  · exact (agree_expression n).map _ (shrinks_closed.expression n)

theorem agree_parameters (n : Nat) : Agree n (parameters n) (parameters (n + 1)) := by
  refine (Agree.refl _).bind (shrinks_closed.sees _) fun b => ?_
  split
  · exact .refl _
  · exact agree_commaSeparated (shrinks_expect _ _) n (.refl _)

section
variable {n : Nat} {part part' : Parser Stmt} (hs : Shrinks part) (h : Agree n part part')

include hs h

theorem agree_branchRest : Agree n (branchRest n part) (branchRest (n + 1) part') := by
  refine (Agree.refl _).bind (shrinks_expect _ _) fun _ =>
    (agree_expression n).bind (shrinks_closed.expression n) fun test =>
    (Agree.refl _).bind (shrinks_expect _ _) fun _ => h.bind hs fun yes => ?_
  exact .accept (.refl _) fun _ => (h.mono (by omega)).bind hs fun _ => .refl _

theorem agree_loopRest : Agree n (loopRest n part) (loopRest (n + 1) part') :=
  (Agree.refl _).bind (shrinks_expect _ _) fun _ =>
    (agree_expression n).bind (shrinks_closed.expression n) fun _ =>
    (Agree.refl _).bind (shrinks_expect _ _) fun _ => h.bind hs fun _ => .refl _

theorem agree_countingRest : Agree n (countingRest n part) (countingRest (n + 1) part') :=
  (Agree.refl _).bind (shrinks_expect _ _) fun _ =>
    (agree_countingInitial n).bind (shrinks_closed.countingInitial n) fun _ =>
    (agree_optionalBefore _ n).bind (shrinks_closed.optionalBefore _ n) fun _ =>
    (Agree.refl _).bind (shrinks_expect _ _) fun _ =>
    (agree_optionalBefore _ n).bind (shrinks_closed.optionalBefore _ n) fun _ =>
    (Agree.refl _).bind (shrinks_expect _ _) fun _ => h.bind hs fun _ => .refl _

end

/-! ## Every declaration takes a token -/

/-- The parser takes at least one token whenever it has a result. -/
def Consumes (p : Parser α) : Prop :=
  ∀ eof ts a, eof.kind = .eof → (p eof ts).result = .ok a → (p eof ts).rest.length < ts.length

theorem consumes_bind_left {p : Parser α} {f : α → Parser β} (hp : Consumes p)
    (hf : ∀ a, Shrinks (f a)) : Consumes (p >>= f) := by
  intro eof ts b he hb
  rcases h : p eof ts with ⟨e | a, mid, reports⟩
  · rw [bind_error h] at hb
    cases hb
  · have hlt := hp eof ts a he (by rw [h])
    have hle := (hf a eof mid).length_le
    rw [h] at hlt
    rw [bind_ok h]
    exact Nat.lt_of_le_of_lt hle hlt

theorem consumes_bind_right {p : Parser α} {f : α → Parser β} (hp : Shrinks p)
    (hf : ∀ a, Consumes (f a)) : Consumes (p >>= f) := by
  intro eof ts b he hb
  rcases h : p eof ts with ⟨e | a, mid, reports⟩
  · rw [bind_error h] at hb
    cases hb
  · have hle := (hp eof ts).length_le
    rw [bind_ok h] at hb ⊢
    rw [h] at hle
    exact Nat.lt_of_lt_of_le (hf a eof mid b he hb) hle

theorem consumes_fail (expected : Expected) : Consumes (fail expected : Parser α) := by
  intro eof ts a _ h
  cases h

/-- A parser that passes over the token it looked at, unless that is the mark at the end. -/
theorem consumes_current_bind {g : Token → Parser α} (hend : ∀ t, t.kind = .eof → Consumes (g t))
    (hg : ∀ t, (∃ f, g t = skip >>= f ∧ ∀ u, Shrinks (f u)) ∨ Consumes (g t)) :
    Consumes (current >>= g) := by
  intro eof ts a he h
  cases ts with
  | nil => exact hend eof he eof [] a he h
  | cons t ts =>
    have hc : current eof (t :: ts) = ⟨.ok t, t :: ts, []⟩ := rfl
    rw [bind_ok hc] at h ⊢
    rcases hg t with ⟨f, hf, hs⟩ | hcons
    · rw [hf]
      exact Nat.lt_succ_of_le (hs () eof ts).length_le
    · exact hcons eof (t :: ts) a he h

theorem consumes_primary {expr : Parser Expr} (hs : Shrinks expr) : Consumes (primary expr) := by
  apply consumes_current_bind
  · intro t ht
    simp only [ht]
    exact consumes_fail _
  · intro t
    split
    · exact .inl ⟨_, rfl, fun _ => shrinks_closed.pure _⟩
    · exact .inl ⟨_, rfl, fun _ => shrinks_closed.pure _⟩
    · exact .inl ⟨_, rfl, fun _ => shrinks_closed.pure _⟩
    · exact .inl ⟨_, rfl, fun _ => shrinks_closed.pure _⟩
    · exact .inl ⟨_, rfl, fun _ => shrinks_closed.pure _⟩
    · exact .inl ⟨_, rfl, fun _ => shrinks_closed.pure _⟩
    · exact .inl ⟨_, rfl, fun _ => shrinks_closed.bind hs fun _ =>
        shrinks_closed.bind (shrinks_expect _ _) fun _ => shrinks_closed.pure _⟩
    · exact .inr (consumes_fail _)

theorem consumes_unary {operand : Parser Expr} (hs : Shrinks operand) (hc : Consumes operand) :
    ∀ n, Consumes (unary operand n)
  | 0 => hc
  | n + 1 => by
    refine consumes_bind_right (shrinks_closed.acceptFrom _) fun r => ?_
    cases r with
    | none => exact hc
    | some _ => exact consumes_bind_left (consumes_unary hs hc n) fun _ => shrinks_closed.pure _

theorem consumes_operation {expr : Parser Expr} (hs : Shrinks expr) (n : Nat) :
    Consumes (operation expr n) := by
  have step : ∀ (levels : List Level) (p : Parser Expr), Shrinks p → Consumes p →
      Consumes (levels.foldl (joined n) p) := by
    intro levels
    induction levels with
    | nil => exact fun _ _ hp => hp
    | cons level levels ih =>
      exact fun p hps hp => ih _ (shrinks_closed.joined hps n level)
        (consumes_bind_left hp fun _ => shrinks_closed.operations hps level n _)
  have hcall : Consumes (call expr n) :=
    consumes_bind_left (consumes_primary hs) fun _ => shrinks_closed.calls hs n _
  have hcalls := shrinks_closed.call hs n
  exact step _ _ (shrinks_closed.unary hcalls n) (consumes_unary hcalls hcall n)

theorem consumes_expression : ∀ n, Consumes (expression n)
  | 0, _, _, _, _, h => by cases h
  | n + 1, eof, ts, e, he, h => by
    have hs := shrinks_closed.expression n
    refine consumes_bind_left (consumes_operation hs (n + 1)) (fun target => ?_) eof ts e he h
    refine shrinks_closed.bind (shrinks_closed.accept _) fun r => ?_
    cases r with
    | none => exact shrinks_closed.pure _
    | some _ =>
      refine shrinks_closed.bind hs fun value => ?_
      split
      · exact shrinks_closed.pure _
      · exact shrinks_closed.bind (shrinks_report _) fun _ => shrinks_closed.pure _

theorem consumes_expressionStatement (n : Nat) : Consumes (expressionStatement n) :=
  consumes_bind_left (consumes_expression n) fun _ =>
    shrinks_closed.bind (shrinks_expect _ _) fun _ => shrinks_closed.pure _

theorem consumes_statement : ∀ (n : Nat) (place : Place), Consumes (statement n place)
  | 0, _ => consumes_expressionStatement 0
  | n + 1, place => by
    have hs := shrinks_closed.statement n
    apply consumes_current_bind
    · intro t ht
      simp only [ht]
      exact consumes_expressionStatement (n + 1)
    · intro t
      split
      · exact .inl ⟨_, rfl, fun _ => shrinks_closed.declareRest n⟩
      · exact .inl ⟨_, rfl, fun _ => shrinks_closed.functionRest (hs .outer) n⟩
      · exact .inl ⟨_, rfl, fun _ => shrinks_closed.branchRest (hs .inner) n⟩
      · exact .inl ⟨_, rfl, fun _ => shrinks_closed.printRest n t⟩
      · exact .inl ⟨_, rfl, fun _ => shrinks_closed.loopRest (hs .inner) n⟩
      · exact .inl ⟨_, rfl, fun _ => shrinks_closed.countingRest (hs .inner) n⟩
      · exact .inl ⟨_, rfl, fun _ => shrinks_closed.bind (shrinks_closed.blockRest (hs .outer) n)
          fun _ => shrinks_closed.pure _⟩
      · exact .inr (consumes_expressionStatement (n + 1))

/-- Also a declaration that fails is left behind with at least one token. -/
theorem recover_rest_lt {p : Parser α} (hs : Shrinks p) (hc : Consumes p) {eof : Token}
    (he : eof.kind = .eof) {ts : List Token} (hts : ts ≠ []) :
    (recover p eof ts).rest.length < ts.length := by
  have hpos := List.length_pos_iff.2 hts
  rcases h : p eof ts with ⟨e | a, mid, reports⟩
  · have hle := (hs eof ts).length_le
    rw [h] at hle
    rw [recover_error h]
    cases mid with
    | nil => exact hpos
    | cons t mid => exact Nat.lt_of_le_of_lt (resume_suffix t mid).length_le hle
  · have hlt := hc eof ts a he (by rw [h])
    rw [h] at hlt
    rw [recover_ok h]
    exact hlt

/-! ## Declarations -/

section
variable {k : Nat} {item item' : Parser Stmt} (hs : Shrinks item) (hc : Consumes item)
  (h : Agree k item item')

include hs hc h

theorem agree_declarations (stop : Option Kind) : ∀ n, n ≤ k →
    Agree n (declarations stop item n) (declarations stop item' (n + 1))
  | 0, _ => .zero fun _ _ => rfl
  | n + 1, hn => by
    intro eof ts he hl
    refine bind_congr rfl fun b mid _ hb => ?_
    have hmid : mid = ts ∧ b = ts.head?.any fun t => some t.kind != stop := by
      simp only [continues, Step.mk.injEq, Except.ok.injEq] at hb
      exact ⟨hb.2.1.symm, hb.1.symm⟩
    obtain ⟨rfl, hb⟩ := hmid
    cases b with
    | false => rfl
    | true =>
      have hne : mid ≠ [] := by
        rintro rfl
        cases hb
      have hrecover : recover item eof mid = recover item' eof mid := by
        unfold recover
        rw [h eof mid he (by omega)]
      refine bind_congr hrecover fun first rest reports hr => ?_
      have hlt : rest.length < mid.length := by
        simpa only [hr] using recover_rest_lt hs hc he hne
      refine bind_congr ?_ fun _ _ _ _ => rfl
      exact agree_declarations stop n (by omega) eof rest he (by omega)

theorem agree_blockRest : Agree k (blockRest k item) (blockRest (k + 1) item') :=
  (agree_declarations hs hc h _ k (Nat.le_refl k)).bind (shrinks_closed.declarations hs _ k)
    fun _ => .refl _

theorem agree_functionRest : Agree k (functionRest k item) (functionRest (k + 1) item') :=
  (Agree.refl _).bind (shrinks_expect _ _) fun _ =>
    (Agree.refl _).bind (shrinks_expect _ _) fun _ =>
    (agree_parameters k).bind (shrinks_closed.parameters k) fun _ =>
    (Agree.refl _).bind (shrinks_expect _ _) fun _ =>
    (Agree.refl _).bind (shrinks_expect _ _) fun _ =>
    (agree_blockRest hs hc h).bind (shrinks_closed.blockRest hs k) fun _ => .refl _

end

theorem agree_statement_succ : ∀ (n : Nat) (place : Place),
    Agree n (statement n place) (statement (n + 1) place)
  | 0, place => by
    refine .zero fun eof he => ?_
    have hc : current eof [] = ⟨.ok eof, [], []⟩ := rfl
    unfold statement
    rw [bind_ok hc]
    simp only [he, List.nil_append]
    rw [← agree_expressionStatement 0 eof [] he (Nat.le_refl 0)]
  | n + 1, place => by
    have hs := shrinks_closed.statement n
    have hc := consumes_statement n .outer
    have hin := agree_statement_succ n .inner
    have hout := agree_statement_succ n .outer
    refine (Agree.refl _).bind shrinks_closed.current fun token => ?_
    split
    · exact .skip (agree_declareRest n)
    · exact .skip (agree_functionRest (hs .outer) hc hout)
    · exact .skip (agree_branchRest (hs .inner) hin)
    · exact .skip (agree_printRest n token)
    · exact .skip (agree_loopRest (hs .inner) hin)
    · exact .skip (agree_countingRest (hs .inner) hin)
    · exact .skip ((agree_blockRest (hs .outer) hc hout).bind
        (shrinks_closed.blockRest (hs .outer) n) fun _ => .refl _)
    · exact agree_expressionStatement (n + 1)

/-- If one more makes no difference, any two bounds that hold give the same. -/
theorem agree_of_succ {p : Nat → Parser α} (h : ∀ n, Agree n (p n) (p (n + 1))) {k n m : Nat}
    (hn : k ≤ n) (hm : k ≤ m) : Agree k (p n) (p m) := by
  have up : ∀ j, Agree k (p k) (p (k + j)) := by
    intro j
    induction j with
    | zero => exact .refl _
    | succ j ih => exact ih.trans ((h (k + j)).mono (by omega))
  have hkn := up (n - k)
  have hkm := up (m - k)
  rw [show k + (n - k) = n by omega] at hkn
  rw [show k + (m - k) = m by omega] at hkm
  exact fun eof ts he hl => (hkn eof ts he hl).symm.trans (hkm eof ts he hl)

/-- A whole program with any two bounds that hold. -/
theorem agree_program {k n m : Nat} (hn : k ≤ n) (hm : k ≤ m) : Agree k (program n) (program m) :=
  agree_of_succ (fun n => agree_declarations (shrinks_closed.statement n .outer)
    (consumes_statement n .outer) (agree_statement_succ n .outer) none n (Nat.le_refl n)) hn hm

end Sprog.Parser
