import Sprog.Proofs.Relabel
import Sprog.Proofs.Stored
import Sprog.Session

/-!
# Runs without lines

A token knows its line, and so does every function that a run has stored. No decision depends on it.
`unplaced` takes the lines away, from tokens, functions, values, machines and faults. A tree without
lines, run on a machine without lines, does what the tree itself does, up to the line that a fault
is on (`Eval.Erases`). The trees of the two runs are not the same, so this is an induction of its
own. The routines of the host must not see lines either (`Host.Blind`).

* `Environment.mapValues`: scopes with other values under the same names.
* `Eval.Erases.bind`: one run after another.
* `erases_eval`, `erases_exec`, `erases_invoke`: the runs of the language.
* `erases_execute`: whole programs.
-/
namespace Sprog

/-! ## Scopes with other values -/

def Scope.mapValues (g : Value → Value) (s : Scope) : Scope :=
  { s with bindings := s.bindings.map fun b => (b.1, g b.2) }

def Environment.mapValues (g : Value → Value) (e : Environment) : Environment :=
  { e with scopes := e.scopes.map (·.mapValues g) }

section
variable (g : Value → Value)

theorem Scope.get?_mapValues (s : Scope) (name : String) :
    (s.mapValues g).get? name = (s.get? name).map g := by
  obtain ⟨bindings, parent⟩ := s
  show (bindings.map fun b => (b.1, g b.2)).lookup name = (bindings.lookup name).map g
  induction bindings with
  | nil => rfl
  | cons b rest ih =>
    rw [List.map_cons, List.lookup_cons, List.lookup_cons, ih]
    cases name == b.1 <;> rfl

theorem Scope.mapValues_insert (s : Scope) (name : String) (v : Value) :
    (s.insert name v).mapValues g = (s.mapValues g).insert name (g v) := by
  obtain ⟨bindings, parent⟩ := s
  have hbindings : (Bindings.insert name v bindings).map (fun b => (b.1, g b.2)) =
      Bindings.insert name (g v) (bindings.map fun b => (b.1, g b.2)) := by
    induction bindings with
    | nil => rfl
    | cons b rest ih =>
      rw [Bindings.insert, List.map_cons, Bindings.insert]
      split
      · rfl
      · rw [List.map_cons, ih]
  exact congrArg (Scope.mk · parent) hbindings

namespace Environment

variable (e : Environment)

theorem getElem?_mapValues (h : Nat) :
    (e.mapValues g).scopes[h]? = e.scopes[h]?.map (·.mapValues g) :=
  Array.getElem?_map

theorem find?_mapValues (name : String) : ∀ n h, (e.mapValues g).find? name n h = e.find? name n h
  | 0, _ => rfl
  | n + 1, h => by
    rw [find?, find?, getElem?_mapValues]
    cases e.scopes[h]? with
    | none => rfl
    | some s =>
      have hparent : (s.mapValues g).parent = s.parent := rfl
      simp only [Option.map_some, Scope.get?_mapValues, Option.isSome_map, hparent,
        find?_mapValues name n]

theorem resolve?_mapValues (name : String) : (e.mapValues g).resolve? name = e.resolve? name := by
  have hdepth : (e.mapValues g).depth = e.depth := Array.size_map
  rw [resolve?, hdepth]
  exact find?_mapValues g e name _ _

theorem get?_mapValues (name : String) : (e.mapValues g).get? name = (e.get? name).map g := by
  rw [get?, get?, resolve?_mapValues]
  cases e.resolve? name with
  | none => rfl
  | some handle =>
    simp only [Option.bind_eq_bind, Option.bind_some, getElem?_mapValues]
    cases e.scopes[handle]? with
    | none => rfl
    | some s => exact Scope.get?_mapValues g s name

theorem mapValues_bind (handle : Nat) (name : String) (v : Value) :
    (e.bind handle name v).mapValues g = (e.mapValues g).bind handle name (g v) := by
  have hscopes : (e.scopes.modify handle (·.insert name v)).map (·.mapValues g) =
      (e.scopes.map (·.mapValues g)).modify handle (·.insert name (g v)) := by
    refine Array.ext_getElem? fun i => ?_
    simp only [Array.getElem?_map, Array.getElem?_modify]
    cases e.scopes[i]? <;> split <;> simp [Scope.mapValues_insert]
  exact congrArg (Environment.mk · e.current) hscopes

theorem mapValues_push (parent : Handle) :
    (e.push parent).mapValues g = (e.mapValues g).push parent := by
  simp [push, mapValues, Scope.mapValues]

theorem mapValues_pop (previous : Handle) :
    (e.pop previous).mapValues g = (e.mapValues g).pop previous := by
  simp only [pop, mapValues, Array.size_map]
  split <;> simp

end Environment

end

/-! ## Trees changed twice -/

mutual

theorem Expr.mapTokens_mapTokens (f g : Token → Token) :
    ∀ e : Expr, (e.mapTokens f).mapTokens g = e.mapTokens (g ∘ f)
  | .constant _ | .var _ => rfl
  | .group e | .unary _ _ e | .assign _ e => by
    simp only [Expr.mapTokens, e.mapTokens_mapTokens f g, Function.comp_apply]
  | .binary _ _ l r | .logical _ _ l r => by
    simp only [Expr.mapTokens, l.mapTokens_mapTokens f g, r.mapTokens_mapTokens f g,
      Function.comp_apply]
  | .call callee _ args => by
    simp only [Expr.mapTokens, callee.mapTokens_mapTokens f g, Expr.mapAll_mapAll f g args,
      Function.comp_apply]

theorem Expr.mapAll_mapAll (f g : Token → Token) :
    ∀ es : List Expr, Expr.mapAll g (Expr.mapAll f es) = Expr.mapAll (g ∘ f) es
  | [] => rfl
  | e :: es => by
    simp only [Expr.mapAll, e.mapTokens_mapTokens f g, Expr.mapAll_mapAll f g es]

end

mutual

theorem Stmt.mapTokens_mapTokens (f g : Token → Token) :
    ∀ s : Stmt, (s.mapTokens f).mapTokens g = s.mapTokens (g ∘ f)
  | .expr e | .print _ e | .declare _ (some e) => by
    simp only [Stmt.mapTokens, Option.map_some, e.mapTokens_mapTokens f g, Function.comp_apply]
  | .declare _ none => rfl
  | .block body => by simp only [Stmt.mapTokens, Stmt.mapAll_mapAll f g body]
  | .branch test yes none => by
    simp only [Stmt.mapTokens, test.mapTokens_mapTokens f g, yes.mapTokens_mapTokens f g]
  | .branch test yes (some no) => by
    simp only [Stmt.mapTokens, test.mapTokens_mapTokens f g, yes.mapTokens_mapTokens f g,
      no.mapTokens_mapTokens f g]
  | .loop test body => by
    simp only [Stmt.mapTokens, test.mapTokens_mapTokens f g, body.mapTokens_mapTokens f g]
  | .function _ _ body => by
    simp only [Stmt.mapTokens, List.map_map, Stmt.mapAll_mapAll f g body, Function.comp_apply]

theorem Stmt.mapAll_mapAll (f g : Token → Token) :
    ∀ ss : List Stmt, Stmt.mapAll g (Stmt.mapAll f ss) = Stmt.mapAll (g ∘ f) ss
  | [] => rfl
  | s :: ss => by
    simp only [Stmt.mapAll, s.mapTokens_mapTokens f g, Stmt.mapAll_mapAll f g ss]

end

/-! ## Without lines -/

/-- The token on no line. -/
def Token.unplaced (t : Token) : Token := { t with line := 0 }

/-- The function without the lines of its tokens. -/
def Function.unplaced (f : Function) : Function :=
  ⟨f.name.unplaced, f.parameters.map Token.unplaced, Stmt.mapAll Token.unplaced f.body⟩

/-- A function of the host has no tokens and stays as it is. -/
def Callable.unplaced : Callable → Callable
  | ⟨identity, .function f⟩ => ⟨identity, .function f.unplaced⟩
  | ⟨identity, .native f⟩ => ⟨identity, .native f⟩

def Value.unplaced : Value → Value
  | callable c => callable c.unplaced
  | nil => nil
  | bool b => bool b
  | number x => number x
  | text s => text s

/-- The machine without the lines in the functions that it has stored. -/
def Machine.unplaced (m : Machine) : Machine :=
  { m with env := m.env.mapValues Value.unplaced }

/-- The fault on no line. -/
def Fault.unplaced : Fault → Fault
  | undefinedVariable name => undefinedVariable name.unplaced
  | operandNotNumber op => operandNotNumber op.unplaced
  | operandsNotNumbers op => operandsNotNumbers op.unplaced
  | operandsNotNumbersOrTexts op => operandsNotNumbersOrTexts op.unplaced
  | notCallable _ value => notCallable 0 value.unplaced
  | wrongArgumentCount _ expected actual => wrongArgumentCount 0 expected actual
  | stackOverflow _ => stackOverflow 0
  | sinkFull _ => sinkFull 0

/-- Lines are only taken away once. -/
theorem Value.unplaced_unplaced (v : Value) : v.unplaced.unplaced = v.unplaced := by
  have htoken : Token.unplaced ∘ Token.unplaced = Token.unplaced := rfl
  have hfunction (f : Function) : f.unplaced.unplaced = f.unplaced := by
    simp only [Function.unplaced, Stmt.mapAll_mapAll, List.map_map, htoken]
    rfl
  cases v with
  | callable c =>
    rcases c with ⟨identity, f | f⟩
    · exact congrArg (fun f => Value.callable ⟨identity, .function f⟩) (hfunction f)
    · rfl
  | nil | bool | number | text => rfl

theorem Fault.unplaced_unplaced (f : Fault) : f.unplaced.unplaced = f.unplaced := by
  cases f with
  | notCallable line v => exact congrArg (Fault.notCallable 0) v.unplaced_unplaced
  | undefinedVariable | operandNotNumber | operandsNotNumbers | operandsNotNumbersOrTexts => rfl
  | wrongArgumentCount | stackOverflow | sinkFull => rfl

@[simp] theorem Callable.name_unplaced (c : Callable) : c.unplaced.name = c.name := by
  rcases c with ⟨_, _ | _⟩ <;> rfl

@[simp] theorem Callable.arity_unplaced (c : Callable) : c.unplaced.arity = c.arity := by
  rcases c with ⟨_, f | _⟩
  · exact List.length_map ..
  · rfl

namespace Value

@[simp] theorem truthy_unplaced (v : Value) : v.unplaced.truthy = v.truthy := by
  cases v <;> rfl

@[simp] theorem shown_unplaced (v : Value) : v.unplaced.shown = v.shown := by
  cases v with
  | callable c => rcases c with ⟨_, _ | _⟩ <;> rfl
  | nil | bool | number | text => rfl

@[simp] theorem same_unplaced (v w : Value) : v.unplaced.same w.unplaced = v.same w := by
  have hidentity (c : Callable) : c.unplaced.identity = c.identity := by
    rcases c with ⟨_, _ | _⟩ <;> rfl
  cases v <;> cases w <;> simp [unplaced, same, hidentity]

theorem unplaced_of_isPlain {v : Value} (h : v.isPlain = true) : v.unplaced = v := by
  cases v with
  | callable c => cases h
  | nil | bool | number | text => rfl

end Value

theorem LogicalOp.settledBy_unplaced (op : LogicalOp) (v : Value) :
    op.settledBy v.unplaced = op.settledBy v := by
  cases op <;> simp [settledBy]

/-- What an operation gives, without lines. -/
def unplacedResult (r : Except Fault Value) : Except Fault Value :=
  (r.mapError Fault.unplaced).map Value.unplaced

theorem UnaryOp.apply_unplaced (op : UnaryOp) (token : Token) (v : Value) :
    op.apply token.unplaced v.unplaced = unplacedResult (op.apply token v) := by
  cases op with
  | not => simp only [apply, Value.truthy_unplaced]; rfl
  | negate => cases v <;> rfl

theorem BinaryOp.apply_unplaced (op : BinaryOp) (token : Token) (l r : Value) :
    op.apply token.unplaced l.unplaced r.unplaced = unplacedResult (op.apply token l r) := by
  have harithmetic (f) : arithmetic f token.unplaced l.unplaced r.unplaced =
      unplacedResult (arithmetic f token l r) := by
    cases l <;> cases r <;> rfl
  have hcompare (f) : compare f token.unplaced l.unplaced r.unplaced =
      unplacedResult (compare f token l r) := by
    cases l <;> cases r <;> rfl
  cases op with
  | add => cases l <;> cases r <;> rfl
  | subtract | multiply | divide => exact harithmetic _
  | greater | greaterEqual | less | lessEqual => exact hcompare _
  | equal | notEqual => simp only [apply, Value.same_unplaced]; rfl

/-! ## Runs without lines -/

/-- The second run ends as the first one does, on a machine without lines. It may be on another line
that it fails: a function of the host names whatever line it wants. -/
inductive Outcome.Erases {α : Type} (g : α → α) : Outcome Fault α → Outcome Fault α → Prop where
  | done {a : α} {m : Machine} : Erases g (.done a m) (.done (g a) m.unplaced)
  | failed {f f' : Fault} {m : Machine} : f'.unplaced = f.unplaced →
      Erases g (.failed f m) (.failed f' m.unplaced)
  | exhausted : Erases g .exhausted .exhausted

/-- A run that only changes the scopes. -/
theorem Outcome.Erases.withEnv {m : Machine} {e e' : Environment}
    (h : e.mapValues Value.unplaced = e') :
    Outcome.Erases id (.done () { m with env := e }) (.done () { m.unplaced with env := e' }) := by
  subst h
  exact .done

theorem Outcome.Erases.mapMachine {α : Type} {g : α → α} {o o' : Outcome Fault α}
    (h : o.Erases g o') {f f' : Machine → Machine} (hf : ∀ m, f' m.unplaced = (f m).unplaced) :
    (o.mapMachine f).Erases g (o'.mapMachine f') := by
  cases h with
  | done =>
    rw [Outcome.mapMachine, Outcome.mapMachine, hf]
    exact .done
  | failed hfault =>
    rw [Outcome.mapMachine, Outcome.mapMachine, hf]
    exact .failed hfault
  | exhausted => exact .exhausted

/-- The second run does without lines what the first one does. -/
def Eval.Erases {α : Type} (g : α → α) (x y : Eval α) : Prop :=
  ∀ m, (x m).Erases g (y m.unplaced)

namespace Eval

variable {α β : Type} {g : α → α} {g' : β → β}

theorem erases_pure (a : α) : Erases g (pure a) (pure (g a)) := fun _ => .done

theorem erases_fail {f f' : Fault} (h : f'.unplaced = f.unplaced) :
    Erases g (fail f) (fail f') := fun _ => .failed h

theorem erases_lift (r : Except Fault Value) :
    Erases Value.unplaced (lift r) (lift (unplacedResult r)) := by
  intro m
  cases r with
  | ok a => exact .done
  | error f => exact .failed f.unplaced_unplaced

theorem Erases.bind {x y : Eval α} {k k' : α → Eval β} (hx : Erases g x y)
    (hk : ∀ a, Erases g' (k a) (k' (g a))) : Erases g' (x >>= k) (y >>= k') := by
  intro m
  have hfirst := hx m
  show (Eval.bind x k m).Erases g' (Eval.bind y k' m.unplaced)
  unfold Eval.bind
  generalize x m = first, y m.unplaced = first' at hfirst
  cases hfirst with
  | done => exact hk _ _
  | failed hf => exact .failed hf
  | exhausted => exact .exhausted

theorem Erases.loop {test test' : Eval Bool} {body body' : Eval Unit} (ht : Erases id test test')
    (hb : Erases id body body') : ∀ n, Erases id (loop test body n) (loop test' body' n)
  | 0 => fun _ => .exhausted
  | n + 1 => by
    rw [loop_succ, loop_succ]
    refine ht.bind fun again => ?_
    cases again with
    | false => exact erases_pure ()
    | true => exact hb.bind fun _ => Erases.loop ht hb n

theorem Erases.within {x y : Eval α} (hx : Erases g x y) (parent : Handle) :
    Erases g (within parent x) (within parent y) := by
  intro m
  have hpush : { m with env := m.env.push parent }.unplaced =
      { m.unplaced with env := m.unplaced.env.push parent } :=
    congrArg (fun e => { m with env := e }) (Environment.mapValues_push _ _ _)
  have hinside := hx { m with env := m.env.push parent }
  rw [hpush] at hinside
  exact hinside.mapMachine fun m₁ =>
    congrArg (fun e => { m₁ with env := e }) (Environment.mapValues_pop _ _ _).symm

theorem Erases.counted {x y : Eval α} (hx : Erases g x y) (line line' : Nat) (name : String)
    (arguments : Nat) :
    Erases g (counted line name arguments x) (counted line' name arguments y) := by
  intro m
  have hdepth : m.unplaced.depth = m.depth := rfl
  unfold Eval.counted
  rw [hdepth]
  split
  · exact .failed rfl
  · exact (hx _).mapMachine fun _ => rfl

theorem erases_get (name : Token) :
    Erases Value.unplaced (Eval.get name) (Eval.get name.unplaced) := by
  intro m
  show (lift (m.env.read name) m).Erases _ (lift (m.unplaced.env.read name.unplaced) m.unplaced)
  have hread : m.unplaced.env.read name.unplaced = unplacedResult (m.env.read name) := by
    have hget : m.unplaced.env.get? name.lexeme = (m.env.get? name.lexeme).map Value.unplaced :=
      Environment.get?_mapValues _ _ _
    unfold Environment.read
    rw [show name.unplaced.lexeme = name.lexeme from rfl, hget]
    cases m.env.get? name.lexeme <;> rfl
  rw [hread]
  exact erases_lift _ m

theorem erases_define (name : String) (v : Value) :
    Erases id (Eval.define name v) (Eval.define name v.unplaced) :=
  fun _ => .withEnv (Environment.mapValues_bind _ _ _ _ _)

theorem erases_defineFunction (f : Function) :
    Erases id (defineFunction f) (defineFunction f.unplaced) := by
  intro m
  exact erases_define f.name.lexeme (.callable ⟨m.fresh, .function f⟩)
    { m with fresh := m.fresh + 1 }

theorem erases_assign (name : Token) (v : Value) :
    Erases id (Eval.assign name v) (Eval.assign name.unplaced v.unplaced) := by
  intro m
  have hresolve : m.unplaced.env.resolve? name.lexeme = m.env.resolve? name.lexeme :=
    Environment.resolve?_mapValues _ _ _
  show ((lift (m.env.write name v) >>= fun env => modify fun m => { m with env }) m).Erases id
    ((lift (m.unplaced.env.write name.unplaced v.unplaced) >>=
      fun env => modify fun m => { m with env }) m.unplaced)
  rw [Environment.write_eq, Environment.write_eq, show name.unplaced.lexeme = name.lexeme from rfl,
    hresolve]
  cases m.env.resolve? name.lexeme with
  | none => exact .failed rfl
  | some handle => exact .withEnv (Environment.mapValues_bind _ _ _ _ _)

theorem erases_print (line line' : Nat) (v : Value) :
    Erases id (Eval.print line v) (Eval.print line' v.unplaced) := by
  intro m
  have hsink : m.unplaced.sink = m.sink := rfl
  unfold Eval.print
  rw [Value.shown_unplaced, hsink]
  rcases m.sink.write (v.shown ++ "\n").toUTF8 with ⟨sink, _ | _⟩
  · exact .failed rfl
  · exact .done

end Eval

open Eval

/-- The routines of the host do not see lines: without them they do the same. -/
def Host.Blind (host : Host) : Prop :=
  ∀ key args, Eval.Erases Value.unplaced (host key args) (host key (args.map Value.unplaced))

theorem Host.blind_bare : Host.bare.Blind := fun _ _ => erases_pure Value.nil

theorem Host.Blind.invoke {host : Host} (hhost : host.Blind) (f : Native) (args : List Value) :
    Eval.Erases Value.unplaced (f.invoke host args) (f.invoke host (args.map Value.unplaced)) := by
  unfold Native.invoke
  cases f.routine with
  | clock => exact fun _ => .done
  | foreign key => exact hhost key args

/-! ## Expressions and statements, whatever calls do -/

/-- Calls that do without lines what they do. -/
def Invoke.Erases (invoke : Invoke) : Prop :=
  ∀ c args, Eval.Erases Value.unplaced (invoke c args) (invoke c.unplaced (args.map Value.unplaced))

section
variable {invoke : Invoke}

theorem erases_apply (hi : invoke.Erases) (closing : Token) (callee : Value) (args : List Value) :
    Eval.Erases Value.unplaced (apply invoke closing callee args)
      (apply invoke closing.unplaced callee.unplaced (args.map Value.unplaced)) := by
  cases callee with
  | callable c =>
    unfold apply Value.unplaced
    simp only [Callable.arity_unplaced, Callable.name_unplaced, List.length_map]
    split
    · exact (hi c args).counted _ _ _ _
    · exact erases_fail rfl
  | nil | bool | number | text => exact erases_fail rfl

mutual

theorem erases_eval (hi : invoke.Erases) : ∀ e : Expr,
    Eval.Erases Value.unplaced (eval invoke e) (eval invoke (e.mapTokens Token.unplaced))
  | .constant c => by
    have hplain := Value.unplaced_of_isPlain (isPlain_ofConstant c)
    have h := erases_pure (g := Value.unplaced) (Value.ofConstant c)
    rwa [hplain] at h
  | .group e => erases_eval hi e
  | .unary op token e => (erases_eval hi e).bind fun v => by
    rw [UnaryOp.apply_unplaced]
    exact erases_lift _
  | .binary op token l r => (erases_eval hi l).bind fun a => (erases_eval hi r).bind fun b => by
    rw [BinaryOp.apply_unplaced]
    exact erases_lift _
  | .logical op _ l r => (erases_eval hi l).bind fun a => by
    rw [LogicalOp.settledBy_unplaced]
    split
    · exact erases_pure a
    · exact erases_eval hi r
  | .var name => erases_get name
  | .assign name e => (erases_eval hi e).bind fun v => (erases_assign name v).bind fun _ =>
      erases_pure v
  | .call callee closing args => (erases_eval hi callee).bind fun f =>
      (erases_evalAll hi args).bind fun vs => erases_apply hi closing f vs

theorem erases_evalAll (hi : invoke.Erases) : ∀ es : List Expr,
    Eval.Erases (List.map Value.unplaced) (evalAll invoke es)
      (evalAll invoke (Expr.mapAll Token.unplaced es))
  | [] => erases_pure []
  | e :: es => (erases_eval hi e).bind fun v => (erases_evalAll hi es).bind fun vs =>
      erases_pure (v :: vs)

end

theorem erases_holds (hi : invoke.Erases) (e : Expr) :
    Eval.Erases id (holds invoke e) (holds invoke (e.mapTokens Token.unplaced)) :=
  (erases_eval hi e).bind fun v => by
    rw [Value.truthy_unplaced]
    exact erases_pure v.truthy

mutual

theorem erases_exec (hi : invoke.Erases) (rounds : Nat) : ∀ s : Stmt,
    Eval.Erases id (exec invoke rounds s) (exec invoke rounds (s.mapTokens Token.unplaced))
  | .expr e => (erases_eval hi e).bind fun _ => erases_pure ()
  | .print keyword e => (erases_eval hi e).bind fun v => erases_print _ _ v
  | .declare name none => erases_define name.lexeme .nil
  | .declare name (some e) => (erases_eval hi e).bind fun v => erases_define name.lexeme v
  | .block body => fun m => (erases_execAll hi rounds body).within m.env.current m
  | .branch test yes none => (erases_holds hi test).bind fun b => by
    cases b with
    | true => exact erases_exec hi rounds yes
    | false => exact erases_pure ()
  | .branch test yes (some no) => (erases_holds hi test).bind fun b => by
    cases b with
    | true => exact erases_exec hi rounds yes
    | false => exact erases_exec hi rounds no
  | .loop test body => (erases_holds hi test).loop (erases_exec hi rounds body) rounds
  | .function name parameters body => erases_defineFunction ⟨name, parameters, body⟩

theorem erases_execAll (hi : invoke.Erases) (rounds : Nat) : ∀ ss : List Stmt,
    Eval.Erases id (execAll invoke rounds ss)
      (execAll invoke rounds (Stmt.mapAll Token.unplaced ss))
  | [] => erases_pure ()
  | s :: ss => (erases_exec hi rounds s).bind fun _ => erases_execAll hi rounds ss

end

end

/-! ## Calls and programs -/

theorem erases_bindParameters : ∀ (ps : List Token) (vs : List Value),
    Eval.Erases id (bindParameters ps vs)
      (bindParameters (ps.map Token.unplaced) (vs.map Value.unplaced))
  | p :: ps, v :: vs => (erases_define p.lexeme v).bind fun _ => erases_bindParameters ps vs
  | [], _ => erases_pure ()
  | _ :: _, [] => erases_pure ()

section
variable {host : Host} (hhost : host.Blind)

include hhost

theorem erases_invoke : ∀ n, (invoke host n).Erases
  | 0, ⟨_, .native f⟩, args => hhost.invoke f args
  | 0, ⟨_, .function _⟩, _ => fun _ => .exhausted
  | _ + 1, ⟨_, .native f⟩, args => hhost.invoke f args
  | n + 1, ⟨_, .function f⟩, args => by
    have hbody : Eval.Erases id
        (bindParameters f.parameters args >>= fun _ => execAll (invoke host n) n f.body)
        (bindParameters f.unplaced.parameters (args.map Value.unplaced) >>=
          fun _ => execAll (invoke host n) n f.unplaced.body) :=
      (erases_bindParameters f.parameters args).bind fun _ =>
        erases_execAll (erases_invoke n) n f.body
    exact (hbody.within 0).bind fun _ => erases_pure Value.nil

/-- The statements of a program run in the same way without lines. -/
theorem erases_execute (n : Nat) (ss : List Stmt) :
    Eval.Erases id (Session.execute host n ss)
      (Session.execute host n (Stmt.mapAll Token.unplaced ss)) :=
  erases_execAll (erases_invoke hhost n) n ss

end

end Sprog
