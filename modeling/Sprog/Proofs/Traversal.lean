import Sprog.Proofs.Rules
import Sprog.Proofs.Watching

/-!
# From the parts of a run to the run

What is proved of all runs is proved of the parts that runs are put together from, and of the ways
in which they are put together. `Traversal` lists these, and goes through the trees of the language
once for all properties. A property relates a watched run and a run of the same tree, so it may be
about the one, about the other, or about how both agree; the second run may be allowed more than the
first.

The statements obey some rules, and so do the values that come up; a property may rely on that. It
may also depend on where a run goes on, which an index says, and on how many calls inside one
another are allowed.

* `Traversal.eval`, `Traversal.exec`: expressions and statements, by recursion on their trees.
* `Traversal.invoke`: calls, by induction on how many of them may stand inside one another.
* `Traversal.execute`: the statements of a session.
-/
namespace Sprog

/-- The properties `C` of calls and `P` of all other runs hold of the parts of runs, and of runs put
together from such. A run on the left is allowed `n` calls inside one another, and `k` more on the
right. `inside` says which indices are inside a scope of their own. -/
structure Traversal {ι : Type} (r : Rules) (inside : ι → Bool) (w : Watched.Host) (host : Host)
    (k : Nat) (C : Nat → ι → Watched Value → Eval Value → Prop)
    (P : ∀ {α : Type} [Ruled α], Nat → ι → Watched α → Eval α → Prop) : Prop where
  lift : ∀ {α : Type} [Ruled α] (n : Nat) (i : ι) {x : Except Fault α},
    (∀ a, x = .ok a → Ruled.Obeys r a) → (∀ f, x = .error f → f.Plain r) →
      P n i (.silent (.lift x)) (.lift x)
  bind : ∀ {α β : Type} [Ruled α] [Ruled β] {n : Nat} {i : ι} {x : Watched α} {y : Eval α}
    {f : α → Watched β} {g : α → Eval β},
    P n i x y → (∀ a, Ruled.Obeys r a → P n i (f a) (g a)) → P n i (x >>= f) (y >>= g)
  get : ∀ n i {name : Token}, r.read name = true → P n i (.get name) (.get name)
  assign : ∀ n i {name : Token} {v : Value}, r.assigned name = true → v.obeys r = true →
    P n i (.assign name v) (.assign name v)
  define : ∀ n i {name : Token} {v : Value}, (inside i || r.declared name) = true →
    v.obeys r = true → P n i (.define name.lexeme v) (.define name.lexeme v)
  defineFunction : ∀ n i {f : Function}, (inside i || r.declared f.name) = true →
    Stmt.obeysAll r true f.body = true → P n i (.defineFunction f) (.defineFunction f)
  print : ∀ n i {keyword : Token} (v : Value), r.keyword keyword = true →
    P n i (.print keyword.line v) (.print keyword.line v)
  counted : ∀ {n i} {closing : Token} (name : String) (arguments : Nat) {x : Watched Value}
    {y : Eval Value}, r.closing closing = true → (∀ j, C n j x y) →
      P n i (.counted closing name arguments x) (.counted closing.line name arguments y)
  /-- A scope inside the current one. -/
  block : ∀ {n i} {x : Watched Unit} {y : Eval Unit}, (∀ j, inside j = true → P n j x y) →
    P n i (.block x) (do Eval.within (← Eval.read (·.env.current)) y)
  /-- A loop that may take no more rounds. -/
  stop : ∀ n i {y : Eval Unit}, r.loops = true → (k = 0 → y = fun _ => .exhausted) →
    P n i .stop y
  native : ∀ n i {f : Native} {args : List Value}, r.native f = true → Ruled.Obeys r args →
    C n i (.native w f args) (f.invoke host args)
  /-- A scope inside the global one. -/
  body : ∀ {n i} {x : Watched Unit} {y : Eval Unit}, (∀ j, inside j = true → P n j x y) →
    C (n + 1) i (do .within 0 x; return .nil) (do .within 0 y; return .nil)
  /-- A call that may not be made. -/
  zero : ∀ i {y : Eval Value}, (k = 0 → y = fun _ => .exhausted) → C 0 i .stop y

/-- The property `C` holds of all calls that obey the rules. -/
def OfCalls {ι : Type} (r : Rules) (C : ι → Watched Value → Eval Value → Prop)
    (calls : Callable → List Value → Watched Value) (invoke : Invoke) : Prop :=
  ∀ i c args, (Value.callable c).obeys r = true → Ruled.Obeys r args →
    C i (calls c args) (invoke c args)

namespace Traversal

section
variable {ι : Type} {r : Rules} {inside : ι → Bool} {w : Watched.Host} {host : Host} {k : Nat}
  {C : Nat → ι → Watched Value → Eval Value → Prop}
  {P : ∀ {α : Type} [Ruled α], Nat → ι → Watched α → Eval α → Prop}

/-! ## Expressions -/

section
variable (t : Traversal r inside w host k C P)

include t

theorem pure {α : Type} [Ruled α] (n : Nat) (i : ι) {a : α} (ha : Ruled.Obeys r a) :
    P n i (pure a) (pure a) :=
  t.lift n i (x := .ok a) (fun _ h => Except.ok.inj h ▸ ha) nofun

theorem fail (n : Nat) (i : ι) {f : Fault} (hf : f.Plain r) :
    P n i (.silent (.fail f) : Watched Value) (.fail f) :=
  t.lift n i (x := .error f) nofun fun _ h => Except.error.inj h ▸ hf

variable {n : Nat} {calls : Callable → List Value → Watched Value} {invoke : Invoke}

theorem apply (hcalls : OfCalls r (C n) calls invoke) (i : ι) {closing : Token}
    (hclosing : r.closing closing = true) {callee : Value} (hcallee : callee.obeys r = true)
    {args : List Value} (hargs : Ruled.Obeys r args) :
    P n i (Watched.apply calls closing callee args) (Sprog.apply invoke closing callee args) := by
  cases callee with
  | callable c =>
    unfold Watched.apply Sprog.apply
    dsimp only
    split
    · exact t.counted _ _ hclosing fun j => hcalls j c args hcallee hargs
    · exact t.fail n i ⟨⟨closing, hclosing, rfl⟩, rfl⟩
  | nil | bool | number | text => exact t.fail n i ⟨⟨closing, hclosing, rfl⟩, rfl⟩

mutual

theorem eval (hcalls : OfCalls r (C n) calls invoke) (i : ι) : ∀ e : Expr, e.obeys r = true →
    P n i (Watched.eval calls e) (Sprog.eval invoke e)
  | .constant c, _ => t.pure n i (Value.obeys_of_isPlain (isPlain_ofConstant c))
  | .group e, h => eval hcalls i e h
  | .unary op token e, h => by
    obtain ⟨htoken, he⟩ := Bool.and_eq_true_iff.1 h
    exact t.bind (eval hcalls i e he) fun _ _ =>
      t.lift n i (fun _ => UnaryOp.obeys_apply) fun _ => UnaryOp.plain_of_apply htoken
  | .binary op token left right, h => by
    obtain ⟨h, hright⟩ := Bool.and_eq_true_iff.1 h
    obtain ⟨htoken, hleft⟩ := Bool.and_eq_true_iff.1 h
    exact t.bind (eval hcalls i left hleft) fun _ _ =>
      t.bind (eval hcalls i right hright) fun _ _ =>
      t.lift n i (fun _ => BinaryOp.obeys_apply) fun _ => BinaryOp.plain_of_apply htoken
  | .logical op _ left right, h => by
    obtain ⟨hleft, hright⟩ := Bool.and_eq_true_iff.1 h
    refine t.bind (eval hcalls i left hleft) fun a ha => ?_
    split
    · exact t.pure n i ha
    · exact eval hcalls i right hright
  | .var name, h => t.get n i h
  | .assign name e, h => by
    obtain ⟨hname, he⟩ := Bool.and_eq_true_iff.1 h
    exact t.bind (eval hcalls i e he) fun _ hv =>
      t.bind (t.assign n i hname hv) fun _ _ => t.pure n i hv
  | .call callee closing args, h => by
    obtain ⟨h, hargs⟩ := Bool.and_eq_true_iff.1 h
    obtain ⟨hcallee, hclosing⟩ := Bool.and_eq_true_iff.1 h
    exact t.bind (eval hcalls i callee hcallee) fun _ hf =>
      t.bind (evalAll hcalls i args hargs) fun _ hvs =>
      t.apply hcalls i hclosing hf hvs

theorem evalAll (hcalls : OfCalls r (C n) calls invoke) (i : ι) :
    ∀ es : List Expr, Expr.obeysAll r es = true →
      P n i (Watched.evalAll calls es) (Sprog.evalAll invoke es)
  | [], _ => t.pure n i fun _ h => nomatch h
  | e :: es, h => by
    obtain ⟨he, hes⟩ := Bool.and_eq_true_iff.1 h
    exact t.bind (eval hcalls i e he) fun _ hv => t.bind (evalAll hcalls i es hes) fun _ hvs =>
      t.pure n i (List.forall_mem_cons.2 ⟨hv, hvs⟩)

end

theorem holds (hcalls : OfCalls r (C n) calls invoke) (i : ι) {e : Expr} (he : e.obeys r = true) :
    P n i (Watched.holds calls e) (Sprog.holds invoke e) :=
  t.bind (t.eval hcalls i e he) fun _ _ => t.pure n i trivial

end

/-! ## Statements -/

section
variable (t : Traversal r inside w host k C P)

include t

theorem loop {n : Nat} {i : ι} (hloops : r.loops = true) {test : Watched Bool} {test' : Eval Bool}
    {body : Watched Unit} {body' : Eval Unit} (htest : P n i test test')
    (hbody : P n i body body') :
    ∀ rounds, P n i (Watched.loop test body rounds) (Eval.loop test' body' (rounds + k))
  | 0 => t.stop n i hloops fun hk => by subst hk; rfl
  | rounds + 1 => by
    rw [Nat.succ_add, Eval.loop_succ]
    refine t.bind htest fun again _ => ?_
    cases again with
    | false => exact t.pure n i trivial
    | true => exact t.bind hbody fun _ _ => loop hloops htest hbody rounds

variable {n : Nat} {calls : Callable → List Value → Watched Value} {invoke : Invoke}

mutual

theorem exec (hcalls : OfCalls r (C n) calls invoke) (rounds : Nat) (i : ι) :
    ∀ s : Stmt, s.obeys r (inside i) = true →
      P n i (Watched.exec calls rounds s) (Sprog.exec invoke (rounds + k) s)
  | .expr e, h => t.bind (t.eval hcalls i e h) fun _ _ => t.pure n i trivial
  | .print keyword e, h => by
    obtain ⟨hkeyword, he⟩ := Bool.and_eq_true_iff.1 h
    exact t.bind (t.eval hcalls i e he) fun v _ => t.print n i v hkeyword
  | .declare name none, h => t.define n i h rfl
  | .declare name (some e), h => by
    obtain ⟨hname, he⟩ := Bool.and_eq_true_iff.1 h
    exact t.bind (t.eval hcalls i e he) fun _ hv => t.define n i hname hv
  | .block body, h =>
    t.block fun j hj => execAll hcalls rounds j body (by rw [hj]; exact h)
  | .branch test yes none, h => by
    obtain ⟨htest, hyes⟩ := Bool.and_eq_true_iff.1 h
    refine t.bind (t.holds hcalls i htest) fun b _ => ?_
    split
    · exact exec hcalls rounds i yes hyes
    · exact t.pure n i trivial
  | .branch test yes (some no), h => by
    obtain ⟨h, hno⟩ := Bool.and_eq_true_iff.1 h
    obtain ⟨htest, hyes⟩ := Bool.and_eq_true_iff.1 h
    refine t.bind (t.holds hcalls i htest) fun b _ => ?_
    split
    · exact exec hcalls rounds i yes hyes
    · exact exec hcalls rounds i no hno
  | .loop test body, h => by
    obtain ⟨h, hbody⟩ := Bool.and_eq_true_iff.1 h
    obtain ⟨hloops, htest⟩ := Bool.and_eq_true_iff.1 h
    exact t.loop hloops (t.holds hcalls i htest) (exec hcalls rounds i body hbody) rounds
  | .function name parameters body, h => by
    obtain ⟨hname, hbody⟩ := Bool.and_eq_true_iff.1 h
    exact t.defineFunction n i (f := ⟨name, parameters, body⟩) hname hbody

theorem execAll (hcalls : OfCalls r (C n) calls invoke) (rounds : Nat) (i : ι) :
    ∀ ss : List Stmt, Stmt.obeysAll r (inside i) ss = true →
      P n i (Watched.execAll calls rounds ss) (Sprog.execAll invoke (rounds + k) ss)
  | [], _ => t.pure n i trivial
  | s :: ss, h => by
    obtain ⟨hs, hss⟩ := Bool.and_eq_true_iff.1 h
    exact t.bind (exec hcalls rounds i s hs) fun _ _ => execAll hcalls rounds i ss hss

end

end

/-! ## Calls and sessions -/

section
variable (t : Traversal r inside w host k C P)

include t

theorem bindParameters (n : Nat) {i : ι} (hi : inside i = true) :
    ∀ (ps : List Token) {vs : List Value}, Ruled.Obeys r vs →
      P n i (Watched.bindParameters ps vs) (Sprog.bindParameters ps vs)
  | p :: ps, v :: vs, h => by
    obtain ⟨hv, hvs⟩ := List.forall_mem_cons.1 h
    exact t.bind (t.define n i (by simp [hi]) hv) fun _ _ => bindParameters n hi ps hvs
  | [], _, _ => t.pure n i trivial
  | _ :: _, [], _ => t.pure n i trivial

theorem invoke : ∀ n, OfCalls r (C n) (Watched.invoke w n) (Sprog.invoke host (n + k))
  | 0, i, ⟨_, .native f⟩, args, hf, hargs => by
    cases k <;> exact t.native 0 i hf hargs
  | 0, i, ⟨_, .function f⟩, args, _, _ => t.zero i fun hk => by subst hk; rfl
  | n + 1, i, ⟨_, .native f⟩, args, hf, hargs => by
    rw [Nat.succ_add]
    exact t.native (n + 1) i hf hargs
  | n + 1, i, ⟨_, .function f⟩, args, hf, hargs => by
    rw [Nat.succ_add]
    refine t.body fun j hj => t.bind (t.bindParameters n hj f.parameters hargs) fun _ _ => ?_
    exact t.execAll (invoke n) n j f.body (by rw [hj]; exact hf)

theorem execute (n : Nat) (i : ι) {ss : List Stmt}
    (hss : Stmt.obeysAll r (inside i) ss = true) :
    P n i (Watched.execute w n ss) (Session.execute host (n + k) ss) :=
  t.execAll (t.invoke n) n i ss hss

end

end

end Traversal

end Sprog
