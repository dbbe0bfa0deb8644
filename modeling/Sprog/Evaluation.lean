import Sprog.Machine
import Sprog.Operation

/-!
# Running statements

A run goes from one state of the machine to the next. It ends with a value, with a fault, or by
running out of the rounds it was allowed; the first two keep the state they ended in.

Expressions and statements are run by recursion on their trees. What a tree does not bound is
handed in from outside: `invoke`, which runs the body of a function, and the number of rounds that
a loop may take. `invoke host n` allows `n` calls inside one another and `n` rounds of each loop.
The routines of the host are no part of the language: a `Host` says what they do, and that may be
anything at all.

* `Eval.within`: a scope is closed again however the run inside it ends.
* `Eval.counted`: the same for the number of active calls.
* `exec`, `execAll`: run a statement and a list of statements.
* `Host`, `invoke`: the routines of the host, and the call of a callable.
-/
namespace Sprog

/-- How a run ended. -/
inductive Outcome (ε α : Type) where
  | done (value : α) (machine : Machine)
  | failed (error : ε) (machine : Machine)
  /-- It was not allowed to go on. -/
  | exhausted

namespace Outcome

variable {ε ε' α : Type}

def mapError (f : ε → ε') : Outcome ε α → Outcome ε' α
  | done a m => done a m
  | failed e m => failed (f e) m
  | exhausted => exhausted

/-- Changes the state that a run ended in. -/
def mapMachine (f : Machine → Machine) : Outcome ε α → Outcome ε α
  | done a m => done a (f m)
  | failed e m => failed e (f m)
  | exhausted => exhausted

end Outcome

/-- A run that gives a value. -/
def Eval (α : Type) := Machine → Outcome Fault α

namespace Eval

variable {α β : Type}

@[inline] protected def pure (a : α) : Eval α :=
  fun m => .done a m

@[inline] protected def bind (x : Eval α) (f : α → Eval β) : Eval β :=
  fun m =>
    match x m with
    | .done a m => f a m
    | .failed e m => .failed e m
    | .exhausted => .exhausted

instance : Monad Eval where
  pure := Eval.pure
  bind := Eval.bind

/-- Ends the run. -/
def fail (f : Fault) : Eval α :=
  fun m => .failed f m

/-- A result that needs no state. -/
def lift (x : Except Fault α) : Eval α :=
  fun m =>
    match x with
    | .ok a => .done a m
    | .error f => .failed f m

/-- Something read off the state. -/
def read (f : Machine → α) : Eval α :=
  fun m => .done (f m) m

/-- A change of the state. -/
def modify (f : Machine → Machine) : Eval Unit :=
  fun m => .done () (f m)

/-- The value of a variable. -/
def get (name : Token) : Eval Value := do
  lift (← read fun m => m.env.read name)

/-- Gives a new value to a variable. -/
def assign (name : Token) (value : Value) : Eval Unit := do
  let env ← lift (← read fun m => m.env.write name value)
  modify fun m => { m with env }

/-- Binds a name in the current scope. -/
def define (name : String) (value : Value) : Eval Unit :=
  modify fun m => { m with env := m.env.define name value }

/-- Binds a new function in the current scope. -/
def defineFunction (f : Function) : Eval Unit := do
  let identity ← read Machine.fresh
  modify fun m => { m with fresh := m.fresh + 1 }
  define f.name.lexeme (.callable ⟨identity, .function f⟩)

/-- Prints a value on a line of its own, for the print statement on the given line. -/
def print (line : Nat) (value : Value) : Eval Unit :=
  fun m =>
    match m.sink.write (value.shown ++ "\n").toUTF8 with
    | (sink, true) => .done () { m with sink }
    | (sink, false) => .failed (.sinkFull line) { m with sink }

/-- Asks for the time. -/
def time : Eval Value :=
  fun m => .done (.number m.clock.now) { m with clock := m.clock.tick }

/-- Runs in a new scope inside `parent`, which is closed again however the run ends. -/
def within (parent : Handle) (x : Eval α) : Eval α :=
  fun m =>
    let previous := m.env.current
    (x { m with env := m.env.push parent }).mapMachine fun m =>
      { m with env := m.env.pop previous }

/-- No more calls than this may be active. -/
def callLimit : Nat := 255

/-- Runs as one more active call, which is logged; the line is for the fault of too many. -/
def counted (line : Nat) (name : String) (arguments : Nat) (x : Eval α) : Eval α :=
  fun m =>
    if callLimit ≤ m.depth then .failed (.stackOverflow line) m
    else
      let record := ⟨name, arguments, m.depth⟩
      (x { m with depth := m.depth + 1, log := m.log.push record }).mapMachine fun m =>
        { m with depth := m.depth - 1 }

/-- Repeats `body` as long as `test` gives true, for less than the given number of rounds. -/
def loop (test : Eval Bool) (body : Eval Unit) : Nat → Machine → Outcome Fault Unit
  | 0, _ => .exhausted
  | n + 1, m =>
    match test m with
    | .done false m => .done () m
    | .done true m =>
      match body m with
      | .done () m => loop test body n m
      | .failed e m => .failed e m
      | .exhausted => .exhausted
    | .failed e m => .failed e m
    | .exhausted => .exhausted

/-- One round of a loop, and then the rest of it. -/
theorem loop_succ (test : Eval Bool) (body : Eval Unit) (n : Nat) :
    loop test body (n + 1) = test >>= fun again =>
      if again then body >>= fun _ => loop test body n else pure () := by
  funext m
  show _ = Eval.bind test _ m
  unfold Eval.bind
  rw [Eval.loop]
  cases test m with
  | done again m =>
    cases again with
    | false => rfl
    | true =>
      show _ = Eval.bind body _ m
      unfold Eval.bind
      dsimp only
      cases body m <;> rfl
  | failed e m => rfl
  | exhausted => rfl

end Eval

/-- How the callables that a run meets are called. -/
abbrev Invoke := Callable → List Value → Eval Value

/-- Calls `callee`, if that can be called with these arguments; faults lie on the line of the
closing parenthesis. -/
def apply (invoke : Invoke) (closing : Token) (callee : Value) (args : List Value) : Eval Value :=
  match callee with
  | .callable c =>
    if c.arity = args.length then
      Eval.counted closing.line c.name args.length (invoke c args)
    else .fail (.wrongArgumentCount closing.line c.arity args.length)
  | other => .fail (.notCallable closing.line other)

mutual

/-- The value of an expression. -/
def eval (invoke : Invoke) : Expr → Eval Value
  | .constant c => return .ofConstant c
  | .group e => eval invoke e
  | .unary op token e => do
    let v ← eval invoke e
    Eval.lift (op.apply token v)
  | .binary op token l r => do
    let a ← eval invoke l
    let b ← eval invoke r
    Eval.lift (op.apply token a b)
  | .logical op _ l r => do
    let a ← eval invoke l
    if op.settledBy a then return a else eval invoke r
  | .var name => Eval.get name
  | .assign name e => do
    let v ← eval invoke e
    Eval.assign name v
    return v
  | .call callee closing args => do
    let f ← eval invoke callee
    let vs ← evalAll invoke args
    apply invoke closing f vs

/-- The values of expressions, from left to right. -/
def evalAll (invoke : Invoke) : List Expr → Eval (List Value)
  | [] => return []
  | e :: es => do
    let v ← eval invoke e
    let vs ← evalAll invoke es
    return v :: vs

end

/-- Whether an expression has a truthy value. -/
def holds (invoke : Invoke) (e : Expr) : Eval Bool := do
  return (← eval invoke e).truthy

mutual

/-- Runs a statement, with at most `rounds` rounds of each loop. -/
def exec (invoke : Invoke) (rounds : Nat) : Stmt → Eval Unit
  | .expr e => do
    let _ ← eval invoke e
  | .print keyword e => do
    let v ← eval invoke e
    Eval.print keyword.line v
  | .declare name none => Eval.define name.lexeme .nil
  | .declare name (some e) => do
    let v ← eval invoke e
    Eval.define name.lexeme v
  | .block body => do
    let parent ← Eval.read (·.env.current)
    Eval.within parent (execAll invoke rounds body)
  | .branch test yes none => do
    if ← holds invoke test then exec invoke rounds yes
  | .branch test yes (some no) => do
    if ← holds invoke test then exec invoke rounds yes else exec invoke rounds no
  | .loop test body => Eval.loop (holds invoke test) (exec invoke rounds body) rounds
  | .function name parameters body => Eval.defineFunction ⟨name, parameters, body⟩

/-- Runs statements in order, up to the first that fails. -/
def execAll (invoke : Invoke) (rounds : Nat) : List Stmt → Eval Unit
  | [] => return
  | s :: ss => do
    exec invoke rounds s
    execAll invoke rounds ss

end

/-- Binds parameters to arguments in the current scope; the shorter list decides how many. -/
def bindParameters : List Token → List Value → Eval Unit
  | p :: ps, v :: vs => do
    Eval.define p.lexeme v
    bindParameters ps vs
  | _, _ => return

/-- What the routines of the host do with their arguments and with the machine, by their numbers. A
routine that never ends is not allowed to go on, however much is allowed. -/
abbrev Host := Nat → List Value → Eval Value

/-- A host without routines: there is nothing to call. -/
def Host.bare : Host := fun _ _ => return .nil

/-- Calls a function of the host. -/
def Native.invoke (host : Host) (f : Native) (args : List Value) : Eval Value :=
  match f.routine with
  | .clock => Eval.time
  | .foreign key => host key args

/-- Calls a callable, without a check of the number of arguments. A declared function runs in a new
scope inside the global one and gives nothing back. -/
def invoke (host : Host) : Nat → Invoke
  | 0, c, args =>
    match c.code with
    | .native f => f.invoke host args
    | .function _ => fun _ => .exhausted
  | n + 1, c, args =>
    match c.code with
    | .native f => f.invoke host args
    | .function f => do
      Eval.within 0 do
        bindParameters f.parameters args
        execAll (invoke host n) n f.body
      return .nil

end Sprog
