import Sprog.Parser.Statement

/-!
# Properties of all parsers

The parsers of the language are put together from a few primitives, one after another. A property
that holds of the primitives and passes from the parts to the whole (`Closed`) therefore holds of
every parser, whatever its bound. Two of the ways in which parsers are put together ask for more
than the others, since they report faults: an assignment to something that is no name, and going on
after a fault. A property need not pass both to hold of the parsers below them (`Composes`,
`Passes`).

* `Passes.expression`, `Closed.statement`, `Closed.program`: it holds of the language's parsers.
* `shrinks_closed`: no parser makes up tokens; what it leaves is the end of what it was given.
-/
namespace Sprog.Parser

section
variable {α β : Type} {p : Parser α} {eof : Token} {ts mid : List Token}
  {reports : List Diagnostic}

theorem bind_error {e : Diagnostic} (h : p eof ts = ⟨.error e, mid, reports⟩) (f : α → Parser β) :
    (p >>= f) eof ts = ⟨.error e, mid, reports⟩ := by
  show Parser.bind p f eof ts = _
  simp only [Parser.bind, h]

theorem bind_ok {a : α} (h : p eof ts = ⟨.ok a, mid, reports⟩) (f : α → Parser β) :
    (p >>= f) eof ts =
      ⟨(f a eof mid).result, (f a eof mid).rest, reports ++ (f a eof mid).reports⟩ := by
  show Parser.bind p f eof ts = _
  simp only [Parser.bind, h]

/-- A sequence that succeeds does so part by part. -/
theorem exists_of_bind_ok {f : α → Parser β} {b : β} {rest : List Token}
    (h : (p >>= f) eof ts = ⟨.ok b, rest, reports⟩) : ∃ a mid first second,
      p eof ts = ⟨.ok a, mid, first⟩ ∧ f a eof mid = ⟨.ok b, rest, second⟩ ∧
        reports = first ++ second := by
  rcases hp : p eof ts with ⟨e | a, mid, first⟩
  · rw [bind_error hp] at h
    cases h
  · rcases hf : f a eof mid with ⟨r, rest', second⟩
    rw [bind_ok hp, hf] at h
    cases h
    exact ⟨a, mid, first, second, rfl, hf, rfl⟩

/-- A token of the kind is taken. -/
theorem accept_take {kind : Kind} {t : Token} (h : t.kind = kind) (eof : Token)
    (ts : List Token) : accept kind eof (t :: ts) = ⟨.ok (some t), ts, []⟩ := by
  simp [accept, h]

/-- A token of another kind stays. -/
theorem accept_pass {kind : Kind} {t : Token} (h : t.kind ≠ kind) (eof : Token)
    (ts : List Token) : accept kind eof (t :: ts) = ⟨.ok none, t :: ts, []⟩ := by
  simp [accept, h]

theorem expect_take {kind : Kind} {t : Token} (h : t.kind = kind) (expected : Expected)
    (eof : Token) (ts : List Token) : expect kind expected eof (t :: ts) = ⟨.ok t, ts, []⟩ := by
  rw [expect, bind_ok (accept_take h eof ts)]
  rfl

theorem expect_pass {kind : Kind} {t : Token} (h : t.kind ≠ kind) (expected : Expected)
    (eof : Token) (ts : List Token) :
    expect kind expected eof (t :: ts) = ⟨.error (.unexpectedToken t expected), t :: ts, []⟩ := by
  rw [expect, bind_ok (accept_pass h eof ts)]
  rfl

theorem acceptFrom_take {table : Kind → Option α} {t : Token} {a : α} (h : table t.kind = some a)
    (eof : Token) (ts : List Token) :
    acceptFrom table eof (t :: ts) = ⟨.ok (some (a, t)), ts, []⟩ := by
  simp only [acceptFrom, h]

theorem acceptFrom_pass {table : Kind → Option α} {t : Token} (h : table t.kind = none)
    (eof : Token) (ts : List Token) : acceptFrom table eof (t :: ts) = ⟨.ok none, t :: ts, []⟩ := by
  simp only [acceptFrom, h]

theorem recover_error {e : Diagnostic} (h : p eof ts = ⟨.error e, mid, reports⟩) :
    recover p eof ts = ⟨.ok none, afterFault mid, reports ++ [e]⟩ := by
  simp only [recover, h]

theorem recover_ok {a : α} (h : p eof ts = ⟨.ok a, mid, reports⟩) :
    recover p eof ts = ⟨.ok (some a), mid, reports⟩ := by
  simp only [recover, h]

end

/-- A property of parsers that the primitives have that report nothing, and that sequences keep. -/
structure Composes (P : ∀ {α : Type}, Parser α → Prop) : Prop where
  pure : ∀ {α : Type} (a : α), P (pure a : Parser α)
  bind : ∀ {α β : Type} {p : Parser α} {f : α → Parser β}, P p → (∀ a, P (f a)) → P (p >>= f)
  current : P current
  skip : P skip
  fail : ∀ {α : Type} (expected : Expected), P (fail expected : Parser α)
  sees : ∀ kind, P (sees kind)
  acceptFrom : ∀ {α : Type} (table : Kind → Option α), P (acceptFrom table)
  accept : ∀ kind, P (accept kind)
  continues : ∀ stop, P (continues stop)

/-- Assignments keep the property as well. -/
structure Passes (P : ∀ {α : Type}, Parser α → Prop) : Prop extends Composes P where
  assignment : ∀ {expr : Parser Expr}, P expr → ∀ n, P (assignment expr n)

/-- Assignments and recovery keep the property as well. -/
structure Closed (P : ∀ {α : Type}, Parser α → Prop) : Prop extends Passes P where
  recover : ∀ {α : Type} {p : Parser α}, P p → P (recover p)

section
variable {P : ∀ {α : Type}, Parser α → Prop}

namespace Composes

variable (h : Composes P)

include h

theorem map {α β : Type} (f : α → β) {p : Parser α} (hp : P p) : P (f <$> p) :=
  h.bind hp fun a => h.pure (f a)

theorem expect (kind : Kind) (expected : Expected) : P (expect kind expected) := by
  refine h.bind (h.accept kind) fun r => ?_
  cases r with
  | some t => exact h.pure t
  | none => exact h.fail expected

theorem commaSeparated {α : Type} {item : Parser α} (hi : P item) :
    ∀ n, P (commaSeparated item n)
  | 0 => h.bind hi fun _ => h.pure _
  | n + 1 => by
    refine h.bind hi fun first => h.bind (h.accept .comma) fun r => ?_
    cases r with
    | none => exact h.pure _
    | some _ => exact h.bind (commaSeparated hi n) fun _ => h.pure _

/-! ## Expressions -/

section
variable {expr : Parser Expr} (he : P expr)

include he

theorem primary : P (primary expr) := by
  refine h.bind h.current fun token => ?_
  split
  · exact h.bind h.skip fun _ => h.pure _
  · exact h.bind h.skip fun _ => h.pure _
  · exact h.bind h.skip fun _ => h.pure _
  · exact h.bind h.skip fun _ => h.pure _
  · exact h.bind h.skip fun _ => h.pure _
  · exact h.bind h.skip fun _ => h.pure _
  · exact h.bind h.skip fun _ => h.bind he fun _ => h.bind (h.expect ..) fun _ => h.pure _
  · exact h.fail _

theorem arguments (n : Nat) : P (arguments expr n) := by
  refine h.bind (h.sees _) fun b => ?_
  split
  · exact h.pure _
  · exact h.commaSeparated he n

theorem calls : ∀ (n : Nat) (callee : Expr), P (calls expr n callee)
  | 0, _ => h.pure _
  | n + 1, _ => by
    refine h.bind (h.accept _) fun r => ?_
    cases r with
    | none => exact h.pure _
    | some _ => exact h.bind (h.arguments he n) fun _ => h.bind (h.expect ..) fun _ => calls n _

theorem call (n : Nat) : P (call expr n) :=
  h.bind (h.primary he) fun _ => h.calls he n _

theorem unary : ∀ n, P (unary expr n)
  | 0 => he
  | n + 1 => by
    refine h.bind (h.acceptFrom _) fun r => ?_
    cases r with
    | none => exact he
    | some _ => exact h.bind (unary n) fun _ => h.pure _

theorem operations (level : Level) : ∀ (n : Nat) (left : Expr), P (operations level expr n left)
  | 0, _ => h.pure _
  | n + 1, _ => by
    refine h.bind (h.acceptFrom _) fun r => ?_
    cases r with
    | none => exact h.pure _
    | some _ => exact h.bind he fun _ => operations level n _

theorem joined (n : Nat) (level : Level) : P (joined n expr level) :=
  h.bind he fun _ => h.operations he level n _

theorem operation (n : Nat) : P (operation expr n) := by
  have step : ∀ (levels : List Level) (p : Parser Expr), P p →
      P (levels.foldl (Parser.joined n) p) := by
    intro levels
    induction levels with
    | nil => exact fun _ hp => hp
    | cons level levels ih => exact fun _ hp => ih _ (h.joined hp n level)
  exact step _ _ (h.unary (h.call he n) n)

theorem assignment_of_report (hreport : ∀ equals, P (report (.invalidAssignmentTarget equals)))
    (n : Nat) : P (assignment expr n) := by
  refine h.bind (h.operation he n) fun target => h.bind (h.accept _) fun r => ?_
  cases r with
  | none => exact h.pure _
  | some equals =>
    refine h.bind he fun value => ?_
    split
    · exact h.pure _
    · exact h.bind (hreport equals) fun _ => h.pure _

end

/-- If reports keep the property and recovery does, nothing is left that could break it. -/
theorem closed (hreport : ∀ equals, P (report (.invalidAssignmentTarget equals)))
    (hrecover : ∀ {α : Type} {p : Parser α}, P p → P (recover p)) : Closed P where
  toComposes := h
  assignment he n := h.assignment_of_report he hreport n
  recover := hrecover

/-! ## Blocks and headers -/

theorem parameters (n : Nat) : P (parameters n) := by
  refine h.bind (h.sees _) fun b => ?_
  split
  · exact h.pure _
  · exact h.commaSeparated (h.expect ..) n

theorem blockRest_of {item : Parser Stmt} {n : Nat}
    (hd : P (declarations (some .rightBrace) item n)) : P (blockRest n item) :=
  h.bind hd fun _ => h.bind (h.expect ..) fun _ => h.pure _

theorem functionRest_of {item : Parser Stmt} {n : Nat} (hb : P (blockRest n item)) :
    P (functionRest n item) :=
  h.bind (h.expect ..) fun _ => h.bind (h.expect ..) fun _ => h.bind (h.parameters n) fun _ =>
    h.bind (h.expect ..) fun _ => h.bind (h.expect ..) fun _ => h.bind hb fun _ => h.pure _

end Composes

namespace Passes

variable (h : Passes P)

include h

theorem expression : ∀ n, P (expression n)
  | 0 => h.fail _
  | n + 1 => h.assignment (expression n) (n + 1)

/-! ## Statements -/

theorem expressionStatement (n : Nat) : P (expressionStatement n) :=
  h.bind (h.expression n) fun _ => h.bind (h.expect ..) fun _ => h.pure _

theorem printRest (n : Nat) (keyword : Token) : P (printRest n keyword) :=
  h.bind (h.expression n) fun _ => h.bind (h.expect ..) fun _ => h.pure _

theorem declareRest (n : Nat) : P (declareRest n) := by
  refine h.bind (h.expect ..) fun name => h.bind (h.accept _) fun r => ?_
  cases r with
  | none => exact h.bind (h.pure _) fun _ => h.bind (h.expect ..) fun _ => h.pure _
  | some _ =>
    exact h.bind (h.map _ (h.expression n)) fun _ => h.bind (h.expect ..) fun _ => h.pure _

theorem countingInitial (n : Nat) : P (countingInitial n) := by
  refine h.bind (h.accept _) fun r => ?_
  cases r with
  | some _ => exact h.pure _
  | none =>
    refine h.bind (h.accept _) fun r => ?_
    cases r with
    | some _ => exact h.map _ (h.declareRest n)
    | none => exact h.map _ (h.expressionStatement n)

theorem optionalBefore (kind : Kind) (n : Nat) : P (optionalBefore kind n) := by
  refine h.bind (h.sees _) fun b => ?_
  split
  · exact h.pure _
  · exact h.map _ (h.expression n)

section
variable {part : Parser Stmt} (hp : P part)

include hp

theorem branchRest (n : Nat) : P (branchRest n part) := by
  refine h.bind (h.expect ..) fun _ => h.bind (h.expression n) fun test =>
    h.bind (h.expect ..) fun _ => h.bind hp fun yes => h.bind (h.accept _) fun r => ?_
  cases r with
  | some _ => exact h.bind hp fun _ => h.pure _
  | none => exact h.pure _

theorem loopRest (n : Nat) : P (loopRest n part) :=
  h.bind (h.expect ..) fun _ => h.bind (h.expression n) fun _ => h.bind (h.expect ..) fun _ =>
    h.bind hp fun _ => h.pure _

theorem countingRest (n : Nat) : P (countingRest n part) :=
  h.bind (h.expect ..) fun _ => h.bind (h.countingInitial n) fun _ =>
    h.bind (h.optionalBefore _ n) fun _ => h.bind (h.expect ..) fun _ =>
    h.bind (h.optionalBefore _ n) fun _ => h.bind (h.expect ..) fun _ =>
    h.bind hp fun _ => h.pure _

end

end Passes

namespace Closed

variable (h : Closed P)

include h

section
variable {item : Parser Stmt} (hi : P item)

include hi

theorem declarations (stop : Option Kind) : ∀ n, P (declarations stop item n)
  | 0 => h.pure _
  | n + 1 => by
    refine h.bind (h.continues stop) fun b => ?_
    split
    · exact h.bind (h.recover hi) fun _ => h.bind (declarations stop n) fun _ => h.pure _
    · exact h.pure _

theorem blockRest (n : Nat) : P (blockRest n item) :=
  h.blockRest_of (h.declarations hi _ n)

theorem functionRest (n : Nat) : P (functionRest n item) :=
  h.functionRest_of (h.blockRest hi n)

end

theorem statement : ∀ (n : Nat) (place : Place), P (statement n place)
  | 0, _ => h.expressionStatement 0
  | n + 1, place => by
    refine h.bind h.current fun token => ?_
    split
    · exact h.bind h.skip fun _ => h.declareRest n
    · exact h.bind h.skip fun _ => h.functionRest (statement n .outer) n
    · exact h.bind h.skip fun _ => h.branchRest (statement n .inner) n
    · exact h.bind h.skip fun _ => h.printRest n token
    · exact h.bind h.skip fun _ => h.loopRest (statement n .inner) n
    · exact h.bind h.skip fun _ => h.countingRest (statement n .inner) n
    · exact h.bind h.skip fun _ => h.bind (h.blockRest (statement n .outer) n) fun _ => h.pure _
    · exact h.expressionStatement (n + 1)

theorem program (n : Nat) : P (program n) :=
  h.declarations (h.statement n .outer) none n

end Closed

end

/-! ## What is left -/

/-- What the parser leaves is the end of what it was given. -/
def Shrinks {α : Type} (p : Parser α) : Prop :=
  ∀ eof ts, (p eof ts).rest <:+ ts

/-- Nothing is left of nothing. -/
theorem Shrinks.rest_eq_nil {α : Type} {p : Parser α} (hs : Shrinks p) {eof : Token}
    {r : Except Diagnostic α} {mid : List Token} {reports : List Diagnostic}
    (h : p eof [] = ⟨r, mid, reports⟩) : mid = [] := by
  have hnil := hs eof []
  rw [h] at hnil
  exact List.suffix_nil.1 hnil

theorem resume_suffix (last : Token) (ts : List Token) : resume last ts <:+ ts := by
  induction ts generalizing last with
  | nil => exact List.suffix_rfl
  | cons t ts ih =>
    unfold resume
    split
    · exact List.suffix_rfl
    · exact (ih t).trans (List.suffix_cons t ts)

theorem afterFault_suffix (ts : List Token) : afterFault ts <:+ ts := by
  cases ts with
  | nil => exact List.suffix_rfl
  | cons t ts => exact (resume_suffix t ts).trans (List.suffix_cons t ts)

theorem shrinks_composes : Composes Shrinks where
  pure _ _ _ := List.suffix_rfl
  bind := by
    intro α β p f hp hf eof ts
    have hs := hp eof ts
    rcases h : p eof ts with ⟨e | a, mid, reports⟩
    · rw [bind_error h]
      rwa [h] at hs
    · rw [bind_ok h]
      rw [h] at hs
      exact (hf a eof mid).trans hs
  current _ _ := List.suffix_rfl
  skip _ ts := List.tail_suffix ts
  fail _ _ _ := List.suffix_rfl
  sees _ _ _ := List.suffix_rfl
  acceptFrom := by
    intro α table eof ts
    unfold acceptFrom
    cases ts with
    | nil => exact List.suffix_rfl
    | cons t ts =>
      dsimp only
      split
      · exact List.suffix_cons t ts
      · exact List.suffix_rfl
  accept := by
    intro kind eof ts
    unfold accept
    cases ts with
    | nil => exact List.suffix_rfl
    | cons t ts =>
      dsimp only
      split
      · exact List.suffix_cons t ts
      · exact List.suffix_rfl
  continues _ _ _ := List.suffix_rfl

theorem shrinks_report (d : Diagnostic) : Shrinks (report d) := fun _ _ => List.suffix_rfl

theorem shrinks_recover {α : Type} {p : Parser α} (hp : Shrinks p) : Shrinks (recover p) := by
  intro eof ts
  have hs := hp eof ts
  rcases h : p eof ts with ⟨e | a, mid, reports⟩
  · rw [recover_error h]
    rw [h] at hs
    exact (afterFault_suffix mid).trans hs
  · rw [recover_ok h]
    rwa [h] at hs

theorem shrinks_closed : Closed Shrinks :=
  shrinks_composes.closed (fun _ => shrinks_report _) shrinks_recover

end Sprog.Parser
