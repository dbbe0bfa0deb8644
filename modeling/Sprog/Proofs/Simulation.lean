import Sprog.Proofs.Hosts
import Sprog.Proofs.Traversal

/-!
# Two runs of the same program

Two machines may differ in ways that no program can notice. Such a difference is stated as a
relation on machines; it may depend on how many scopes a run has opened, so it comes as a family. If
the operations on machines that a run is made of keep the relation and give the same results on
related machines (`Simulation`), then so does every run, however it ends. Some differences would be
noticed by a declaration in the current scope, but not by one in a scope inside it.

* `Simulation.traversal`: what holds of the operations holds of all parts of runs.
* `Simulation.exec`: statements.
* `Simulation.functionBody`: the body of a function behind the binding of its parameters.
-/
namespace Sprog

/-- Two runs that end in the same way: with the same value or the same fault, on related machines,
or both without having been allowed to go on. -/
inductive Outcome.Alike {ε α : Type} (R : Machine → Machine → Prop) :
    Outcome ε α → Outcome ε α → Prop where
  | done {a : α} {m m' : Machine} : R m m' → Alike R (.done a m) (.done a m')
  | failed {e : ε} {m m' : Machine} : R m m' → Alike R (.failed e m) (.failed e m')
  | exhausted : Alike R .exhausted .exhausted

theorem Outcome.Alike.mapMachine {ε α : Type} {R S : Machine → Machine → Prop}
    {x y : Outcome ε α} (h : x.Alike R y) {f g : Machine → Machine}
    (hfg : ∀ m m', R m m' → S (f m) (g m')) : (x.mapMachine f).Alike S (y.mapMachine g) := by
  cases h with
  | done h => exact .done (hfg _ _ h)
  | failed h => exact .failed (hfg _ _ h)
  | exhausted => exact .exhausted

theorem Outcome.Alike.mono {ε α : Type} {R S : Machine → Machine → Prop} {x y : Outcome ε α}
    (h : x.Alike R y) (hRS : ∀ m m', R m m' → S m m') : x.Alike S y := by
  cases h with
  | done h => exact .done (hRS _ _ h)
  | failed h => exact .failed (hRS _ _ h)
  | exhausted => exact .exhausted

/-- Two runs that end in the same way as a third one. -/
theorem Outcome.Alike.join {ε α : Type} {R S : Machine → Machine → Prop} {x y z : Outcome ε α}
    (hy : x.Alike R y) (hz : x.Alike S z) : y.Alike (fun m m' => ∃ a, R a m ∧ S a m') z := by
  cases hy with
  | done hy => cases hz with | done hz => exact .done ⟨_, hy, hz⟩
  | failed hy => cases hz with | failed hz => exact .failed ⟨_, hy, hz⟩
  | exhausted => cases hz with | exhausted => exact .exhausted

/-- A run that ends in the same way on related machines. -/
def Eval.Respects {α : Type} (R : Machine → Machine → Prop) (x : Eval α) : Prop :=
  ∀ m m', R m m' → (x m).Alike R (x m')

namespace Eval

variable {α β : Type} {R : Machine → Machine → Prop}

theorem respects_pure (a : α) : Respects R (pure a) := fun _ _ h => .done h

theorem respects_lift (r : Except Fault α) : Respects R (lift r) := by
  intro m m' h
  cases r with
  | ok a => exact .done h
  | error f => exact .failed h

theorem alike_bind {x : Eval α} {f : α → Eval β} {m m' : Machine} (hx : (x m).Alike R (x m'))
    (hf : ∀ a, Respects R (f a)) : ((x >>= f) m).Alike R ((x >>= f) m') := by
  show (Eval.bind x f m).Alike R (Eval.bind x f m')
  unfold Eval.bind
  generalize x m = r, x m' = r' at hx
  cases hx with
  | done h => exact hf _ _ _ h
  | failed h => exact .failed h
  | exhausted => exact .exhausted

theorem Respects.bind {x : Eval α} {f : α → Eval β} (hx : Respects R x)
    (hf : ∀ a, Respects R (f a)) : Respects R (x >>= f) :=
  fun m m' h => alike_bind (hx m m' h) hf

/-- A reply from outside is the same wherever the clock tells the same. -/
theorem respects_outside
    (hR : ∀ m m', R m m' → m.clock.coming = m'.clock.coming ∧ ∀ count,
      R { m with clock := m.clock.skip count } { m' with clock := m'.clock.skip count })
    (reply : Reply) : Respects R (outside reply) := by
  intro m m' h
  obtain ⟨hcoming, hskip⟩ := hR m m' h
  unfold Eval.outside
  rw [← hcoming]
  cases reply m.clock.coming with
  | none => exact .exhausted
  | some x => exact respects_lift x.1 _ _ (hskip x.2)

end Eval

open Eval

/-- A family of relations that the operations on machines keep. `inside` says for which of them a
declaration in the current scope goes unnoticed. -/
structure Simulation {ι : Type} (inside : ι → Bool) (R : ι → Machine → Machine → Prop) :
    Prop where
  get : ∀ i name, Respects (R i) (Eval.get name)
  assign : ∀ i name value, Respects (R i) (Eval.assign name value)
  define : ∀ i, inside i = true → ∀ name value, Respects (R i) (Eval.define name value)
  defineFunction : ∀ i, inside i = true → ∀ f, Respects (R i) (Eval.defineFunction f)
  print : ∀ i line value, Respects (R i) (Eval.print line value)
  clock : ∀ i m m', R i m m' → m.clock.coming = m'.clock.coming ∧ ∀ count,
    R i { m with clock := m.clock.skip count } { m' with clock := m'.clock.skip count }
  counted : ∀ i line name arguments {x : Eval Value}, Respects (R i) x →
    Respects (R i) (Eval.counted line name arguments x)
  /-- A scope inside the current one. -/
  block : ∀ i {x : Eval Unit}, (∀ j, inside j = true → Respects (R j) x) →
    Respects (R i) (do Eval.within (← Eval.read (·.env.current)) x)
  /-- A scope inside the global one. -/
  body : ∀ i {x : Eval Unit}, (∀ j, inside j = true → Respects (R j) x) →
    Respects (R i) (Eval.within 0 x)

namespace Simulation

variable {ι : Type} {inside : ι → Bool} {R : ι → Machine → Machine → Prop} {host : Host}

/-- No rules are needed but that declarations stand where they go unnoticed. -/
theorem traversal (h : Simulation inside R) (hhost : host.Aloof) :
    Traversal .noGlobals inside host.unwatched host 0 (fun _ i _ y => Respects (R i) y)
      fun _ i _ y => Respects (R i) y where
  lift _ _ x _ _ := respects_lift x
  bind hx hf := hx.bind fun a => hf a (Ruled.of_lax lax_noGlobals rfl a)
  get _ i name _ := h.get i name
  assign _ i name v _ _ := h.assign i name v
  define _ i name v hi _ := h.define i (by simpa [Rules.noGlobals] using hi) name.lexeme v
  defineFunction _ i f hi _ := h.defineFunction i (by simpa [Rules.noGlobals] using hi) f
  print _ i keyword v _ := h.print i keyword.line v
  counted name arguments _ _ _ hx := h.counted _ _ name arguments (hx _)
  block hx := h.block _ hx
  stop _ _ _ _ hy := by
    rw [hy rfl]
    exact fun _ _ _ => .exhausted
  native _ i f args _ _ := by
    obtain ⟨reply, hreply⟩ := hhost.invoke f args
    rw [hreply]
    exact respects_outside (h.clock i) reply
  body hx := (h.body _ hx).bind fun _ => respects_pure _
  zero _ _ hy := by
    rw [hy rfl]
    exact fun _ _ _ => .exhausted

section
variable (h : Simulation inside R) (hhost : host.Aloof)

include h hhost

/-- A statement that declares nothing where it would be noticed. -/
theorem exec (n rounds : Nat) (i : ι) {s : Stmt} (hs : s.obeys .noGlobals (inside i) = true) :
    Respects (R i) (Sprog.exec (invoke host n) rounds s) :=
  (h.traversal hhost).exec (n := n) ((h.traversal hhost).invoke n) rounds i s hs

theorem functionBody (n rounds : Nat) (f : Function) (args : List Value) {i : ι}
    (hi : inside i = true) :
    Respects (R i) (do
      bindParameters f.parameters args
      execAll (invoke host n) rounds f.body) := by
  have ht := h.traversal hhost
  have hbody := ht.execAll (n := n) (ht.invoke n) rounds i f.body
    (by rw [hi, Stmt.obeysAll_noGlobals])
  have hparameters := ht.bindParameters n hi f.parameters (Ruled.of_lax lax_noGlobals rfl args)
  exact hparameters.bind fun _ => hbody

end

end Simulation

end Sprog
