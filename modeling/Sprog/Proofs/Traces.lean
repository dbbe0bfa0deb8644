import Sprog.Proofs.Allowance
import Sprog.Proofs.Hosts

/-!
# The operations that runs perform on the scopes

A watched run notes its operations on the scopes. Together they are all that it does to the scopes:
each finds what those before it left behind. They come in a disciplined row, and if the run ends,
all that it opened is closed again. A host has to stay outside for that.

* `Event.Follow`: nothing changes the scopes between two events.
* `Course.Orderly`: what happens in a run, and the scopes that it ends on.
* `orderly_traversal`: this holds of all parts of runs.
* `Course.Orderly.safe`: at every event the scopes are nested, and an operation finds what it needs.
-/
namespace Sprog

open Event

/-- Each event finds the scopes as those before it left them. -/
def Event.Follow : Environment → List Event → Prop
  | _, [] => True
  | env, e :: es => e.found.env = env ∧ Follow (replay env (accesses [e])) es

theorem replay_append (env : Environment) (as bs : List Access) :
    replay env (as ++ bs) = replay (replay env as) bs :=
  List.foldl_append

theorem Event.follow_append {env : Environment} {es es' : List Event} :
    Follow env (es ++ es') ↔ Follow env es ∧ Follow (replay env (accesses es)) es' := by
  induction es generalizing env with
  | nil => simp [Follow, accesses, replay]
  | cons e es ih =>
    have hsplit : accesses (e :: es) = accesses [e] ++ accesses es := accesses_append [e] es
    rw [List.cons_append, Follow, Follow, ih, hsplit, replay_append, and_assoc]

/-- How a run on `m` may end when it has performed the given operations. -/
inductive Outcome.After {ε α : Type} (m : Machine) (as : List Access) : Outcome ε α → Prop where
  | done {a : α} {m' : Machine} : Lifo m.env [] as m'.env [] → m'.depth = m.depth →
      After m as (.done a m')
  | failed {e : ε} {m' : Machine} : Lifo m.env [] as m'.env [] → m'.depth = m.depth →
      After m as (.failed e m')
  | exhausted {e : Environment} {hs : List Handle} : Lifo m.env [] as e hs → After m as .exhausted

/-- A run on `m` performs its operations in a disciplined row, and does nothing else to the scopes;
if it ends, all that it opened is closed again. -/
structure Course.Orderly {α : Type} (m : Machine) (c : Course α) : Prop where
  row : c.outcome.After m (accesses c.events)
  found : Follow m.env c.events

def Watched.Orderly {α : Type} (x : Watched α) : Prop :=
  ∀ m, m.env.Nested → (x m).Orderly m

theorem Environment.Nested.orderly {e : Environment} (hn : e.Nested) : e.Orderly [] :=
  ⟨hn, trivial⟩

theorem Outcome.After.exists_lifo {ε α : Type} {m : Machine} {as : List Access} {o : Outcome ε α}
    (h : o.After m as) : ∃ e hs, Lifo m.env [] as e hs := by
  cases h with
  | done hrow _ | failed hrow _ | exhausted hrow => exact ⟨_, _, hrow⟩

/-- At every event, whether the run ends or not, the scopes are as the operations before it left
them, and they are nested. An operation finds what it needs. -/
theorem Course.Orderly.safe {α : Type} {m : Machine} {c : Course α} (h : c.Orderly m)
    (hm : m.env.Nested) {before behind : List Event} {e : Event}
    (hsplit : c.events = before ++ e :: behind) :
    e.found.env = replay m.env (accesses before) ∧ e.found.env.Nested ∧
      ∀ a, e.act = .access a → a.Safe e.found.env := by
  obtain ⟨hrow, hfound⟩ := h
  rw [hsplit] at hrow hfound
  obtain ⟨-, henv, -⟩ := follow_append.1 hfound
  rw [accesses_append] at hrow
  obtain ⟨e', hs, hlifo⟩ := hrow.exists_lifo
  obtain ⟨e₁, hs₁, hbefore, -⟩ := hlifo.of_append
  rw [henv]
  refine ⟨rfl, hbefore.replay_eq ▸ (hbefore.orderly hm.orderly).nested, fun a ha => ?_⟩
  have hfirst : accesses (e :: behind) = a :: accesses behind := by
    simp [accesses, ha]
  rw [hfirst] at hlifo
  exact (hlifo.safe hm.orderly).2

/-! ## Parts of runs -/

section
variable {α β : Type}

namespace Outcome.After

theorem behind {ε : Type} {m m₁ : Machine} {as bs : List Access} {o : Outcome ε α}
    (h : o.After m₁ bs) (hrow : Lifo m.env [] as m₁.env []) (hdepth : m₁.depth = m.depth) :
    o.After m (as ++ bs) := by
  cases h with
  | done hrow' hdepth' => exact .done (hrow.append hrow') (hdepth'.trans hdepth)
  | failed hrow' hdepth' => exact .failed (hrow.append hrow') (hdepth'.trans hdepth)
  | exhausted hrow' => exact .exhausted (hrow.append hrow')

/-- A run that ended has given everything back. -/
theorem of_machine? {ε : Type} {m m' : Machine} {as : List Access} {o : Outcome ε α}
    (h : o.After m as) (hm' : o.machine? = some m') :
    Lifo m.env [] as m'.env [] ∧ m'.depth = m.depth := by
  cases h with
  | done hrow hdepth | failed hrow hdepth =>
    cases hm'
    exact ⟨hrow, hdepth⟩
  | exhausted => cases hm'

end Outcome.After

namespace Watched

/-- Nothing happens to the scopes. -/
theorem orderly_silent {x : Eval α} (hx : ∀ m, (x m).After m []) : (silent x).Orderly :=
  fun m _ => ⟨hx m, trivial⟩

theorem orderly_lift (x : Except Fault α) : (silent (.lift x)).Orderly := by
  refine orderly_silent fun m => ?_
  cases x with
  | ok a => exact .done .nil rfl
  | error f => exact .failed .nil rfl

theorem orderly_pure (a : α) : (pure a : Watched α).Orderly := orderly_lift (.ok a)

theorem orderly_get (name : Token) : (Watched.get name).Orderly := by
  refine fun m _ => ⟨?_, rfl, trivial⟩
  have hrow : Lifo m.env [] [.get name] m.env [] := .cons (.get name) .nil
  show (Eval.lift (m.env.read name) m).After m [.get name]
  cases m.env.read name with
  | ok a => exact .done hrow rfl
  | error f => exact .failed hrow rfl

theorem orderly_assign (name : Token) (v : Value) : (Watched.assign name v).Orderly := by
  refine fun m _ => ⟨?_, rfl, trivial⟩
  have hrow : Lifo m.env [] [.assign name v] ((Access.assign name v).perform m.env) [] :=
    .cons (.assign name v) .nil
  show ((Eval.lift (m.env.write name v) >>= fun env => Eval.modify fun m => { m with env })
    m).After m [.assign name v]
  unfold Access.perform at hrow
  cases hwrite : m.env.write name v with
  | ok e =>
    simp only [hwrite] at hrow
    exact .done hrow rfl
  | error f =>
    simp only [hwrite] at hrow
    exact .failed hrow rfl

theorem orderly_print (line : Nat) (v : Value) : (Watched.print line v).Orderly := by
  refine fun m _ => ⟨?_, rfl, trivial⟩
  show (Eval.print line v m).After m []
  unfold Eval.print
  rcases m.sink.write (v.shown ++ "\n").toUTF8 with ⟨sink, _ | _⟩
  · exact .failed .nil rfl
  · exact .done .nil rfl

theorem orderly_outside (reply : Reply) : (silent (.outside reply)).Orderly := by
  refine orderly_silent fun m => ?_
  rcases Eval.outside_cases reply m with hends | ⟨x, clock, hends⟩ <;> rw [hends]
  · exact .exhausted .nil
  · cases x with
    | ok a => exact .done .nil rfl
    | error f => exact .failed .nil rfl

theorem Orderly.bind {x : Watched α} {f : α → Watched β} (hx : x.Orderly)
    (hf : ∀ a, (f a).Orderly) : (x >>= f).Orderly := by
  intro m hm
  obtain ⟨hrow, hfound⟩ := hx m hm
  show (Watched.bind x f m).Orderly m
  unfold Watched.bind
  generalize (x m).outcome = o at hrow
  cases hrow with
  | done hrow hdepth =>
    obtain ⟨hrow', hfound'⟩ := hf _ _ (hrow.orderly hm.orderly).nested
    refine ⟨?_, follow_append.2 ⟨hfound, hrow.replay_eq ▸ hfound'⟩⟩
    rw [accesses_append]
    exact hrow'.behind hrow hdepth
  | failed hrow hdepth => exact ⟨.failed hrow hdepth, hfound⟩
  | exhausted hrow => exact ⟨.exhausted hrow, hfound⟩

/-- A scope that is opened for a run is closed behind it. -/
theorem Orderly.within {x : Watched α} (hx : x.Orderly) {m : Machine} (hm : m.env.Nested)
    {parent : Handle} (hp : m.env.IsOpen parent) : (Watched.within parent x m).Orderly m := by
  obtain ⟨hrow, hfound⟩ := hx { m with env := m.env.push parent } (hm.push hp)
  unfold Watched.within
  dsimp only
  generalize x { m with env := m.env.push parent } = c at hrow hfound
  obtain ⟨events, o⟩ := c
  have hopened : Follow m.env (⟨.access (.push parent), m⟩ :: events) := ⟨rfl, hfound⟩
  -- the scope is closed on the machine that the run inside left
  have hclosed {m' : Machine} (hrow : Lifo (m.env.push parent) [] (accesses events) m'.env []) :
      Lifo m.env [] (accesses (⟨.access (.push parent), m⟩ :: events ++
          [⟨.access (.pop m.env.current), m'⟩])) (m'.env.pop m.env.current) [] ∧
        Follow m.env (⟨.access (.push parent), m⟩ :: events ++
          [⟨.access (.pop m.env.current), m'⟩]) := by
    have hlast : Lifo m'.env [m.env.current] [.pop m.env.current] (m'.env.pop m.env.current) [] :=
      .cons .pop .nil
    refine ⟨?_, follow_append.2 ⟨hopened, ?_, trivial⟩⟩
    · rw [accesses_append]
      exact .cons (.push hp) ((hrow.beneath [m.env.current]).append hlast)
    · exact hrow.replay_eq.symm
  cases hrow with
  | done hrow hdepth => exact ⟨.done (hclosed hrow).1 hdepth, (hclosed hrow).2⟩
  | failed hrow hdepth => exact ⟨.failed (hclosed hrow).1 hdepth, (hclosed hrow).2⟩
  | exhausted hrow =>
    -- the run stopped inside, so the scope is still open
    unfold behind
    rw [List.append_nil]
    exact ⟨.exhausted (.cons (.push hp) (hrow.beneath [m.env.current])), hopened⟩

theorem Orderly.block {x : Watched α} (hx : x.Orderly) : (Watched.block x).Orderly := by
  intro m hm
  have hopen : m.env.IsOpen m.env.current := Nat.lt_of_lt_of_eq (Nat.lt_succ_self _) hm.current.symm
  exact hx.within hm hopen

theorem Orderly.counted {x : Watched α} (hx : x.Orderly) (closing : Token) (name : String)
    (arguments : Nat) : (Watched.counted closing name arguments x).Orderly := by
  intro m hm
  unfold Watched.counted
  split
  · exact ⟨.failed .nil rfl, rfl, trivial⟩
  · obtain ⟨hrow, hfound⟩ := hx { m with
      depth := m.depth + 1, log := m.log.push ⟨name, arguments, m.depth⟩ } hm
    dsimp only
    generalize x _ = c at hrow hfound
    obtain ⟨events, o⟩ := c
    have hentered : Follow m.env (⟨.call (.enter name arguments), m⟩ :: events) := ⟨rfl, hfound⟩
    have hleft {m' : Machine} (hrow : Lifo m.env [] (accesses events) m'.env []) :
        Lifo m.env [] (accesses (⟨.call (.enter name arguments), m⟩ :: events ++
            [⟨.call .leave, m'⟩])) m'.env [] ∧
          Follow m.env (⟨.call (.enter name arguments), m⟩ :: events ++ [⟨.call .leave, m'⟩]) := by
      refine ⟨?_, follow_append.2 ⟨hentered, hrow.replay_eq.symm, trivial⟩⟩
      rw [accesses_append]
      exact hrow.append .nil
    cases hrow with
    | done hrow hdepth => exact ⟨.done (hleft hrow).1 (by simp [hdepth]), (hleft hrow).2⟩
    | failed hrow hdepth => exact ⟨.failed (hleft hrow).1 (by simp [hdepth]), (hleft hrow).2⟩
    | exhausted hrow =>
      unfold behind
      rw [List.append_nil]
      exact ⟨.exhausted hrow, hentered⟩

end Watched

end

open Watched

theorem orderly_traversal {host : Host} (hhost : host.Aloof) :
    Traversal .everything (fun _ : Unit => true) host.unwatched host 0 (fun _ _ x _ => x.Orderly)
      fun _ _ x _ => x.Orderly where
  lift _ _ x _ _ := orderly_lift x
  bind hx hf := hx.bind fun a => hf a (Ruled.of_lax lax_everything rfl a)
  get _ _ name _ := orderly_get name
  assign _ _ name v _ _ := orderly_assign name v
  define _ _ name v _ _ := fun _ _ => ⟨.done (.cons (.define name.lexeme v) .nil) rfl, rfl, trivial⟩
  defineFunction _ _ f _ _ := fun _ _ =>
    ⟨.done (.cons (.define f.name.lexeme _) .nil) rfl, rfl, trivial⟩
  print _ _ keyword v _ := orderly_print keyword.line v
  counted _ _ _ _ _ hx := (hx ()).counted _ _ _
  block hx := (hx () rfl).block
  stop _ _ _ _ _ := orderly_silent fun _ => .exhausted .nil
  native _ _ f args _ _ := by
    obtain ⟨reply, hreply⟩ := hhost.invoke f args
    rw [native_unwatched, hreply]
    exact orderly_outside reply
  body hx := Orderly.bind (fun m hm => (hx () rfl).within hm hm.size_pos) fun _ =>
    orderly_pure _
  zero _ _ _ := orderly_silent fun _ => .exhausted .nil

section
variable {host : Host} (hhost : host.Aloof)

include hhost

theorem orderly_invoke (n : Nat) (c : Callable) (args : List Value) :
    (Watched.invoke host.unwatched n c args).Orderly :=
  (orderly_traversal hhost).invoke n () c args ((Value.callable c).obeys_of_lax lax_everything rfl)
    (Ruled.of_lax lax_everything rfl args)

theorem orderly_execute (n : Nat) (ss : List Stmt) :
    (Watched.execute host.unwatched n ss).Orderly :=
  (orderly_traversal hhost).execute n () (Stmt.obeysAll_everything true ss)

end

end Sprog
