import Sprog.Proofs.Closure
import Sprog.Proofs.Traces
import Sprog.Proofs.Transparency

/-!
# Counting loops

There is no statement for a counting loop; the parser builds one from blocks and a loop. Its meaning
is nevertheless the one that a counting loop has: one scope is opened, the initial part runs in it,
and then, round after round and always in that scope, the condition, the body and the increment. The
block around body and increment, and the block that is missing if there is no initial part, make no
difference, because the parser never hands over a body that declares a name outside a block.

* `Eval.counting`: the meaning of a counting loop by its parts.
* `Parser.noDeclaration_statement`: no part of a statement is a bare declaration.
* `exec_counting`: what the parser builds has that meaning.
-/
namespace Sprog

open Eval

/-! ## The meaning of a counting loop -/

/-- Opens a scope inside the current one and runs the initial part in it; then repeats body and
increment in the same scope as long as the condition holds there, for less than the given number of
rounds. The scope is closed however this ends. -/
def Eval.counting (initial : Eval Unit) (test : Eval Bool) (body increment : Eval Unit)
    (rounds : Nat) : Eval Unit := fun m =>
  let outer := m.env.current
  let inside : Eval Unit := do
    initial
    loop test (do body; increment) rounds
  match inside { m with env := m.env.push outer } with
  | .done () m => .done () { m with env := m.env.pop outer }
  | .failed fault m => .failed fault { m with env := m.env.pop outer }
  | .exhausted => .exhausted

/-- That is a run in a scope inside the current one. -/
theorem Eval.counting_eq (initial : Eval Unit) (test : Eval Bool) (body increment : Eval Unit)
    (rounds : Nat) : counting initial test body increment rounds =
      (do within (← read (·.env.current)) (do initial; loop test (do body; increment) rounds)) := by
  funext m
  show _ = within m.env.current _ m
  unfold counting within
  dsimp only
  cases (do initial; loop test (do body; increment) rounds : Eval Unit)
    { m with env := m.env.push m.env.current } <;> rfl

/-- Runs a statement that may be missing. -/
def execOptional (invoke : Invoke) (rounds : Nat) : Option Stmt → Eval Unit
  | some s => exec invoke rounds s
  | none => pure ()

/-- Whether a condition holds; a missing one does. -/
def holdsOptional (invoke : Invoke) : Option Expr → Eval Bool
  | some e => holds invoke e
  | none => pure true

/-- Evaluates an expression that may be missing for what it does. -/
def evalOptional (invoke : Invoke) : Option Expr → Eval Unit
  | some e => do let _ ← eval invoke e
  | none => pure ()

/-- One round of the loop that stands for a counting loop. -/
def Stmt.round (increment : Option Expr) (body : Stmt) : Stmt :=
  match increment with
  | some e => .block [body, .expr e]
  | none => body

/-- A counting loop behind its initial part. -/
def Stmt.countingLoop (test increment : Option Expr) (body : Stmt) : Stmt :=
  .loop (test.getD (.constant (.bool true))) (.round increment body)

/-! ## Runs that agree as long as the scopes are nested -/

/-- The two runs agree on every machine whose scopes are nested. -/
def Eval.Same {α : Type} (x y : Eval α) : Prop := ∀ m, m.env.Nested → x m = y m

/-- On a machine whose scopes are nested, the run leaves nested scopes. -/
def Eval.Tidy {α : Type} (x : Eval α) : Prop :=
  ∀ m m', m.env.Nested → (x m).machine? = some m' → m'.env.Nested

theorem Watched.Orderly.tidy {α : Type} {w : Watched α} (hw : w.Orderly) {x : Eval α}
    (hx : ∀ m, (w m).outcome = x m) : x.Tidy := by
  intro m m' hm hm'
  have hrow := (hw m hm).row
  rw [hx m] at hrow
  exact ((hrow.of_machine? hm').1.orderly hm.orderly).nested

section
variable {host : Host} (hhost : host.Aloof) (n : Nat)

include hhost

theorem tidy_holds (e : Expr) : (holds (invoke host n) e).Tidy := by
  have ht := orderly_traversal hhost
  have horderly := ht.holds (n := n) (ht.invoke n) () (e.obeys_of_lax lax_everything)
  exact horderly.tidy fun m => outcome_holds host.unwatched n e m

theorem tidy_exec (rounds : Nat) (s : Stmt) : (exec (invoke host n) rounds s).Tidy := by
  have ht := orderly_traversal hhost
  have horderly := ht.exec (n := n) (ht.invoke n) rounds () s (s.obeys_everything true)
  exact horderly.tidy fun m => outcome_exec host.unwatched n rounds s m

end

namespace Eval

variable {α β : Type} {x x' : Eval α}

theorem Same.refl (x : Eval α) : Same x x := fun _ _ => rfl

theorem Same.trans {y z : Eval α} (h : Same x y) (h' : Same y z) : Same x z :=
  fun m hm => (h m hm).trans (h' m hm)

theorem same_bind_pure (x : Eval Unit) : Same (x >>= fun _ => pure ()) x := by
  intro m _
  show Eval.bind x _ m = x m
  unfold Eval.bind
  cases x m <;> rfl

/-- A run leaves nested scopes to the one that follows it. -/
theorem Same.bind {f f' : α → Eval β} (ht : x.Tidy) (hx : Same x x')
    (hf : ∀ a, Same (f a) (f' a)) : Same (x >>= f) (x' >>= f') := by
  intro m hm
  show Eval.bind x f m = Eval.bind x' f' m
  unfold Eval.bind
  rw [← hx m hm]
  cases hrun : x m with
  | done a m' => exact hf a m' (ht m m' hm (by rw [hrun]; rfl))
  | failed => rfl
  | exhausted => rfl

theorem Same.loop {test test' : Eval Bool} {body body' : Eval Unit} (ht : test.Tidy)
    (hb : body.Tidy) (htest : Same test test') (hbody : Same body body') :
    ∀ n, Same (loop test body n) (loop test' body' n)
  | 0 => Same.refl _
  | n + 1 => by
    rw [loop_succ, loop_succ]
    refine htest.bind ht fun again => ?_
    split
    · exact hbody.bind hb fun _ => Same.loop ht hb htest hbody n
    · exact Same.refl _

/-- Runs that agree do so in a scope of their own. -/
theorem Same.block (h : Same x x') : Same (do within (← read (·.env.current)) x)
    (do within (← read (·.env.current)) x') := by
  intro m hm
  have hp : m.env.current < m.env.scopes.size := by
    rw [hm.current]
    exact Nat.lt_succ_self _
  have hinside := h { m with env := m.env.push m.env.current } (hm.push hp)
  exact congrArg (Outcome.mapMachine _) hinside

/-- A run that does not notice an empty scope needs none of its own. -/
theorem same_block {x : Eval Unit} (hx : ∀ k, Respects (Machine.Padded k 0) x) :
    Same (do within (← read (·.env.current)) x) x :=
  fun _ hm => within_current hx hm

end Eval

/-! ## What the parser builds -/

theorem Stmt.declaresNothing_counting (initial : Option Stmt) (test increment : Option Expr)
    {body : Stmt} (h : body.declaresNothing = true) :
    (Stmt.counting initial test increment body).declaresNothing = true := by
  cases initial with
  | some s => rfl
  | none =>
    cases increment with
    | none => exact h
    | some e => rfl

section
variable {host : Host} (hhost : host.Aloof) (n rounds : Nat)

include hhost

/-- The block around body and increment makes no difference. -/
theorem same_round (increment : Option Expr) {body : Stmt} (hbody : body.declaresNothing = true) :
    Same (exec (invoke host n) rounds (.round increment body))
      (do exec (invoke host n) rounds body; evalOptional (invoke host n) increment) := by
  have ht := tidy_exec hhost n rounds body
  cases increment with
  | none => exact fun m hm => (same_bind_pure _ m hm).symm
  | some e =>
    have hround : ∀ k, Respects (Machine.Padded k 0)
        (execAll (invoke host n) rounds [body, .expr e]) := fun k =>
      (respects_padded_exec hhost k n rounds hbody).bind fun _ =>
        (respects_padded_exec hhost k n rounds (s := .expr e) rfl).bind fun _ => respects_pure ()
    exact (same_block hround).trans ((Same.refl _).bind ht fun _ => same_bind_pure _)

theorem same_countingLoop (test increment : Option Expr) {body : Stmt}
    (hbody : body.declaresNothing = true) :
    Same (exec (invoke host n) rounds (.countingLoop test increment body))
      (loop (holdsOptional (invoke host n) test)
        (do exec (invoke host n) rounds body; evalOptional (invoke host n) increment) rounds) := by
  have htest : Same (holds (invoke host n) (test.getD (.constant (.bool true))))
      (holdsOptional (invoke host n) test) := by
    cases test with
    | none => exact Same.refl (pure true)
    | some e => exact Same.refl _
  exact htest.loop (tidy_holds hhost n _) (tidy_exec hhost n rounds _)
    (same_round hhost n rounds increment hbody) rounds

/-- Nor does it make a difference that there is no block if there is no initial part. -/
theorem same_counting (initial : Option Stmt) (test increment : Option Expr) {body : Stmt}
    (hbody : body.declaresNothing = true) :
    Same (exec (invoke host n) rounds (.counting initial test increment body))
      (counting (execOptional (invoke host n) rounds initial) (holdsOptional (invoke host n) test)
        (exec (invoke host n) rounds body) (evalOptional (invoke host n) increment) rounds) := by
  rw [counting_eq]
  have hloop := same_countingLoop hhost n rounds test increment hbody
  cases initial with
  | some s =>
    have ht := tidy_exec hhost n rounds s
    exact Same.block ((Same.refl _).bind ht fun _ => (same_bind_pure _).trans hloop)
  | none =>
    have hnothing := Stmt.declaresNothing_counting none test increment hbody
    have hunnoticed : ∀ k, Respects (Machine.Padded k 0)
        (exec (invoke host n) rounds (.countingLoop test increment body)) := fun k =>
      respects_padded_exec hhost k n rounds hnothing
    exact fun m hm => (same_block hunnoticed m hm).symm.trans (hloop.block m hm)

end

/-! ## What the parser hands over -/

namespace Parser

variable {α β : Type}

/-- Every result of the parser has the property, whatever is reported on the way. -/
def Yields (P : α → Prop) (p : Parser α) : Prop :=
  ∀ eof ts a rest reports, p eof ts = ⟨.ok a, rest, reports⟩ → P a

theorem yields_pure {P : α → Prop} {a : α} (h : P a) : Yields P (pure a) := by
  intro eof ts b rest reports hread
  cases hread
  exact h

theorem Yields.bind {P : α → Prop} {Q : β → Prop} {p : Parser α} {f : α → Parser β}
    (hp : Yields P p) (hf : ∀ a, P a → Yields Q (f a)) : Yields Q (p >>= f) := by
  intro eof ts b rest reports hread
  obtain ⟨a, mid, first, second, hfirst, hsecond, -⟩ := exists_of_bind_ok hread
  exact hf a (hp _ _ _ _ _ hfirst) _ _ _ _ _ hsecond

/-- The result is that of the last part. -/
theorem yields_bind {Q : β → Prop} {p : Parser α} {f : α → Parser β} (hf : ∀ a, Yields Q (f a)) :
    Yields Q (p >>= f) :=
  have hp : Yields (fun _ => True) p := fun _ _ _ _ _ _ => trivial
  hp.bind fun a _ => hf a

/-- The parser only gives statements that declare nothing in the scope that they run in. -/
def NoDeclaration : Parser Stmt → Prop := Yields fun s => s.declaresNothing = true

theorem noDeclaration_expressionStatement (n : Nat) : NoDeclaration (expressionStatement n) :=
  yields_bind fun _ => yields_bind fun _ => yields_pure rfl

section
variable {part : Parser Stmt} (hpart : NoDeclaration part) (n : Nat)

include hpart

theorem noDeclaration_branchRest : NoDeclaration (branchRest n part) := by
  refine yields_bind fun _ => yields_bind fun _ => yields_bind fun _ => ?_
  refine hpart.bind fun yes hyes => ?_
  refine yields_bind fun again => ?_
  cases again with
  | none => exact yields_pure hyes
  | some _ => exact hpart.bind fun no hno => yields_pure (Bool.and_eq_true_iff.2 ⟨hyes, hno⟩)

theorem noDeclaration_loopRest : NoDeclaration (loopRest n part) :=
  yields_bind fun _ => yields_bind fun _ => yields_bind fun _ => hpart.bind fun _ hbody =>
    yields_pure hbody

theorem noDeclaration_countingRest : NoDeclaration (countingRest n part) :=
  yields_bind fun _ => yields_bind fun initial => yields_bind fun test => yields_bind fun _ =>
    yields_bind fun increment => yields_bind fun _ => hpart.bind fun _ hbody =>
    yields_pure (Stmt.declaresNothing_counting initial test increment hbody)

end

/-- No part of a branch or a loop is a bare declaration. -/
theorem noDeclaration_statement : ∀ n, NoDeclaration (statement n .inner)
  | 0 => noDeclaration_expressionStatement 0
  | n + 1 => by
    refine yields_bind fun token => ?_
    split
    · contradiction
    · contradiction
    · exact yields_bind fun _ => noDeclaration_branchRest (noDeclaration_statement n) n
    · exact yields_bind fun _ => yields_bind fun _ => yields_bind fun _ => yields_pure rfl
    · exact yields_bind fun _ => noDeclaration_loopRest (noDeclaration_statement n) n
    · exact yields_bind fun _ => noDeclaration_countingRest (noDeclaration_statement n) n
    · exact yields_bind fun _ => yields_bind fun _ => yields_pure rfl
    · exact noDeclaration_expressionStatement (n + 1)

end Parser

/-! ## Counting loops of the source -/

/-- Let the parser have read the body as a part of a statement. On every machine whose scopes are
nested, the counting loop that it builds ends like the one that has a single scope for everything:
in the same way, after the same prints and calls, and with the same scopes, or not at all. The
routines of the host have to stay outside. -/
theorem exec_counting {host : Host} (hhost : host.Aloof) {k : Nat} {eof : Token}
    {ts rest : List Token} {reports : List Diagnostic} {body : Stmt}
    (hbody : Parser.statement k .inner eof ts = ⟨.ok body, rest, reports⟩)
    (initial : Option Stmt) (test increment : Option Expr) (n rounds : Nat) {m : Machine}
    (hm : m.env.Nested) :
    exec (invoke host n) rounds (.counting initial test increment body) m =
      counting (execOptional (invoke host n) rounds initial) (holdsOptional (invoke host n) test)
        (exec (invoke host n) rounds body) (evalOptional (invoke host n) increment) rounds m :=
  same_counting hhost n rounds initial test increment
    (Parser.noDeclaration_statement k _ _ _ _ _ hbody) m hm

def nameX : Token := ⟨.identifier, "x", none, 1⟩

def nameZ : Token := ⟨.identifier, "z", none, 1⟩

/-- The statement `skriv x;`. -/
def printsX : Stmt := .print ⟨.printKw, "skriv", none, 1⟩ (.var nameX)

/-- The statement `sæt x = "hej";`. -/
def declaresX : Stmt := .declare nameX (some (.constant (.text "hej")))

/-- What the loop `for (sæt x = "hej"; x; z) skriv x;` should do on a new machine: its increment
fails in the first round, when the body has printed. -/
def failingIncrement : Outcome Fault Unit :=
  counting (exec (invoke .bare 1) 1 declaresX) (holds (invoke .bare 1) (.var nameX))
    (exec (invoke .bare 1) 1 printsX) (do let _ ← eval (invoke .bare 1) (.var nameZ)) 1
    (.start (.fixed 0) none)

theorem failingIncrement_counting :
    Parser.statement 3 .inner (.eof 1) [⟨.printKw, "skriv", none, 1⟩, nameX,
        ⟨.semicolon, ";", none, 1⟩] = ⟨.ok printsX, [], []⟩ ∧
      exec (invoke .bare 1) 1
        (.counting (some declaresX) (some (.var nameX)) (some (.var nameZ)) printsX)
        (.start (.fixed 0) none) = failingIncrement ∧
      ∃ m, failingIncrement = .failed (.undefinedVariable nameZ) m ∧
        m.sink.written = "hej\n".toUTF8 ∧ m.env.scopes.size = 1 ∧ m.env.get? "x" = none := by
  have hread : Parser.statement 3 .inner (.eof 1) [⟨.printKw, "skriv", none, 1⟩, nameX,
      ⟨.semicolon, ";", none, 1⟩] = ⟨.ok printsX, [], []⟩ := rfl
  have hstart : (Machine.start (.fixed 0) none).env.Nested := Environment.nested_empty.bind 0 _ _
  refine ⟨hread, exec_counting Host.aloof_bare hread (some declaresX) (some (.var nameX))
    (some (.var nameZ)) 1 1 hstart, ?_⟩
  have hfails : (match failingIncrement with
    | .failed (.undefinedVariable name) m =>
      decide (name = nameZ ∧ m.sink.written = "hej\n".toUTF8 ∧ m.env.scopes.size = 1 ∧
        (m.env.get? "x").isNone)
    | _ => false) = true := by decide +kernel
  split at hfails
  · rename_i name m hdirect
    obtain ⟨rfl, hprinted, hsize, hgone⟩ := of_decide_eq_true hfails
    exact ⟨m, hdirect, hprinted, hsize, Option.isNone_iff_eq_none.1 hgone⟩
  · cases hfails

end Sprog
