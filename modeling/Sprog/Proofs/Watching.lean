import Sprog.Proofs.Accesses
import Sprog.Proofs.Nesting
import Sprog.Session

/-!
# Runs that are watched

A watched run does what the run itself does, and notes on the way what happens: every operation on
the scopes, every print, and every call that is entered, refused or left, each with the machine that
it finds. The notes are kept however the run ends, and also if it is not allowed to go on.

`Watched` is the type of such runs. They are put together as the runs of the language are, from
parts that note what they do. What happens in the routines of a host is for the host to say: it may
be a watched one (`Watched.Host`), or one of which nothing is noted (`Host.unwatched`).

* `Act`, `Event`: what is noted.
* `Watched.exec`, `Watched.invoke`: watched statements and calls.
* `Watched.execute`, `Watched.eventsOf`: watched steps of a session.
-/
namespace Sprog

/-- The machine that a run ended on. -/
def Outcome.machine? {ε α : Type} : Outcome ε α → Option Machine
  | done _ m | failed _ m => some m
  | exhausted => none

/-- Something that happens in a run. -/
inductive Act where
  /-- An operation on the scopes. -/
  | access (a : Access)
  /-- A print, for the statement on the given line. -/
  | print (line : Nat) (bytes : ByteArray)
  /-- Something that happens to a call. -/
  | call (e : CallEvent)

/-- Something that happens, and the machine that it finds. -/
structure Event where
  act : Act
  found : Machine

namespace Event

/-- The operations on the scopes among the events. -/
def accesses (es : List Event) : List Access :=
  es.filterMap fun e => match e.act with
    | .access a => some a
    | .print .. | .call _ => none

/-- What happens to calls among the events. -/
def calls (es : List Event) : List CallEvent :=
  es.filterMap fun e => match e.act with
    | .call c => some c
    | .access _ | .print .. => none

@[simp] theorem accesses_append (es es' : List Event) :
    accesses (es ++ es') = accesses es ++ accesses es' :=
  List.filterMap_append

@[simp] theorem calls_append (es es' : List Event) : calls (es ++ es') = calls es ++ calls es' :=
  List.filterMap_append

end Event

/-- What happened in a run, and how it ended. -/
structure Course (α : Type) where
  events : List Event
  outcome : Outcome Fault α

/-- A run that is watched. -/
def Watched (α : Type) := Machine → Course α

namespace Watched

variable {α β : Type}

/-- A run in which nothing happens that is noted. -/
def silent (x : Eval α) : Watched α := fun m => ⟨[], x m⟩

/-- A run that is noted as one thing that happens. -/
def noted (act : Machine → Act) (x : Eval α) : Watched α := fun m => ⟨[⟨act m, m⟩], x m⟩

/-- A run that is not allowed to go on. -/
def stop : Watched α := silent fun _ => .exhausted

protected def pure (a : α) : Watched α := silent (Eval.pure a)

protected def bind (x : Watched α) (f : α → Watched β) : Watched β := fun m =>
  match (x m).outcome with
  | .done a m' => ⟨(x m).events ++ (f a m').events, (f a m').outcome⟩
  | .failed e m' => ⟨(x m).events, .failed e m'⟩
  | .exhausted => ⟨(x m).events, .exhausted⟩

instance : Monad Watched where
  pure := Watched.pure
  bind := Watched.bind

def get (name : Token) : Watched Value :=
  noted (fun _ => .access (.get name)) (Eval.get name)

def assign (name : Token) (value : Value) : Watched Unit :=
  noted (fun _ => .access (.assign name value)) (Eval.assign name value)

def define (name : String) (value : Value) : Watched Unit :=
  noted (fun _ => .access (.define name value)) (Eval.define name value)

def defineFunction (f : Function) : Watched Unit :=
  noted (fun m => .access (.define f.name.lexeme (.callable ⟨m.fresh, .function f⟩)))
    (Eval.defineFunction f)

def print (line : Nat) (value : Value) : Watched Unit :=
  noted (fun _ => .print line (value.shown ++ "\n").toUTF8) (Eval.print line value)

/-- What happens behind a run, if that ended. -/
def behind (act : Act) (o : Outcome Fault α) : List Event :=
  match o with
  | .done _ m | .failed _ m => [⟨act, m⟩]
  | .exhausted => []

/-- Runs in a new scope inside `parent`. -/
def within (parent : Handle) (x : Watched α) : Watched α := fun m =>
  let inside := x { m with env := m.env.push parent }
  ⟨⟨.access (.push parent), m⟩ :: inside.events ++
      behind (.access (.pop m.env.current)) inside.outcome,
    inside.outcome.mapMachine fun m' => { m' with env := m'.env.pop m.env.current }⟩

/-- Runs in a new scope inside the current one. -/
def block (x : Watched α) : Watched α := fun m => within m.env.current x m

/-- Runs as one more active call, if that is not one too many. -/
def counted (closing : Token) (name : String) (arguments : Nat) (x : Watched α) : Watched α :=
  fun m =>
    if Eval.callLimit ≤ m.depth then
      ⟨[⟨.call (.refuse closing name arguments), m⟩], .failed (.stackOverflow closing.line) m⟩
    else
      let inside := x { m with
        depth := m.depth + 1, log := m.log.push ⟨name, arguments, m.depth⟩ }
      ⟨⟨.call (.enter name arguments), m⟩ :: inside.events ++
          behind (.call .leave) inside.outcome,
        inside.outcome.mapMachine fun m' => { m' with depth := m'.depth - 1 }⟩

/-- Repeats `body` as long as `test` gives true, for less than the given number of rounds. -/
def loop (test : Watched Bool) (body : Watched Unit) : Nat → Watched Unit
  | 0 => stop
  | n + 1 => do
    if ← test then
      body
      loop test body n

/-! ## Expressions and statements -/

section
variable (calls : Callable → List Value → Watched Value)

/-- A watched call, if it can be made. -/
def apply (closing : Token) (callee : Value) (args : List Value) : Watched Value :=
  match callee with
  | .callable c =>
    if c.arity = args.length then counted closing c.name args.length (calls c args)
    else silent (.fail (.wrongArgumentCount closing.line c.arity args.length))
  | other => silent (.fail (.notCallable closing.line other))

mutual

/-- A watched expression. -/
def eval : Expr → Watched Value
  | .constant c => return .ofConstant c
  | .group e => eval e
  | .unary op token e => do
    let v ← eval e
    silent (.lift (op.apply token v))
  | .binary op token l r => do
    let a ← eval l
    let b ← eval r
    silent (.lift (op.apply token a b))
  | .logical op _ l r => do
    let a ← eval l
    if op.settledBy a then return a else eval r
  | .var name => get name
  | .assign name e => do
    let v ← eval e
    assign name v
    return v
  | .call callee closing args => do
    let f ← eval callee
    let vs ← evalAll args
    apply calls closing f vs

/-- Watched expressions, from left to right. -/
def evalAll : List Expr → Watched (List Value)
  | [] => return []
  | e :: es => do
    let v ← eval e
    let vs ← evalAll es
    return v :: vs

end

/-- Whether an expression has a truthy value. -/
def holds (e : Expr) : Watched Bool := do
  return (← eval calls e).truthy

mutual

/-- A watched statement. -/
def exec (rounds : Nat) : Stmt → Watched Unit
  | .expr e => do
    let _ ← eval calls e
  | .print keyword e => do
    let v ← eval calls e
    print keyword.line v
  | .declare name none => define name.lexeme .nil
  | .declare name (some e) => do
    let v ← eval calls e
    define name.lexeme v
  | .block body => block (execAll rounds body)
  | .branch test yes none => do
    if ← holds calls test then exec rounds yes
  | .branch test yes (some no) => do
    if ← holds calls test then exec rounds yes else exec rounds no
  | .loop test body => loop (holds calls test) (exec rounds body) rounds
  | .function name parameters body => defineFunction ⟨name, parameters, body⟩

/-- Watched statements, up to the first that fails. -/
def execAll (rounds : Nat) : List Stmt → Watched Unit
  | [] => return
  | s :: ss => do
    exec rounds s
    execAll rounds ss

end

end

/-! ## Calls and sessions -/

def bindParameters : List Token → List Value → Watched Unit
  | p :: ps, v :: vs => do
    define p.lexeme v
    bindParameters ps vs
  | _, _ => return

/-- What the routines of a host do, and what happens in them. -/
abbrev Host := Nat → List Value → Watched Value

/-- What they do. -/
def Host.host (w : Host) : Sprog.Host := fun key args m => (w key args m).outcome

section
variable (w : Host)

/-- A watched call of a function of the host. -/
def native (f : Native) (args : List Value) : Watched Value :=
  match f.routine with
  | .clock => silent Eval.time
  | .foreign key => w key args

/-- A watched call, without a check of the number of arguments. -/
def invoke : Nat → Callable → List Value → Watched Value
  | 0, c, args =>
    match c.code with
    | .native f => native w f args
    | .function _ => stop
  | n + 1, c, args =>
    match c.code with
    | .native f => native w f args
    | .function f => do
      within 0 do
        bindParameters f.parameters args
        execAll (invoke n) n f.body
      return .nil

/-- Watched statements of a session. -/
def execute (n : Nat) (statements : List Stmt) : Watched Unit :=
  execAll (invoke w n) n statements

/-- What happens while a source text is run: nothing at all if it is no program. -/
def eventsOf (n : Nat) (source : String) (m : Machine) : List Event :=
  match Program.ofSource source with
  | .error _ => []
  | .ok statements => (execute w n statements m).events

end

end Watched

/-- The host, if nothing is noted of what happens in its routines. -/
def Host.unwatched (host : Host) : Watched.Host := fun key args => .silent (host key args)

@[simp] theorem Host.host_unwatched (host : Host) : host.unwatched.host = host := rfl

/-- A host with a routine that calls its first argument with the others. In what it calls there is
no such routine any more. -/
def Watched.Host.calling : Watched.Host := fun _ args =>
  match args with
  | .callable c :: rest => Watched.invoke Host.bare.unwatched (Eval.callLimit + 1) c rest
  | _ => return .nil

theorem native_unwatched (host : Host) (f : Native) (args : List Value) :
    Watched.native host.unwatched f args = .silent (f.invoke host args) := by
  unfold Watched.native Native.invoke
  cases f.routine <;> rfl

end Sprog
