import Sprog.Proofs.Allowance
import Sprog.Proofs.Hosts

/-!
# Runs that obey the rules

If a tree obeys the rules, and so do all functions that a machine holds, then the run obeys them:
the functions that it stores and gives back do, its faults point at tokens that the rules allow, and
it keeps every invariant of the scopes that the allowed operations keep (`Rules.Uphold`), at every
moment. Where loops are not allowed, such a run ends within an allowance of as many calls as may
still become active, whatever it calls.

What the host does, it has to do by the rules as well (`Host.Obeys`).

* `Machine.Obeys`, `Course.Obeys`: machines, and what happens in a run.
* `obeys_traversal`: this holds of all parts of runs.
* `obeys_eval`, `obeys_invoke`, `obeys_exec`, `obeys_execute`: expressions, calls, statements, and
  those of a session.
-/
namespace Sprog

/-- What is allowed keeps the invariant `J` of the scopes. -/
structure Rules.Uphold (r : Rules) (J : Environment → Prop) : Prop where
  assign : ∀ {e : Environment} {name : Token} {h : Handle}, J e → r.assigned name →
    e.resolve? name.lexeme = some h → ∀ v, J (e.bind h name.lexeme v)
  define : ∀ {e : Environment}, J e → ∀ name v, 0 < e.current → J (e.define name v)
  declare : ∀ {e : Environment} {name : Token}, J e → r.declared name → ∀ v,
    J (e.define name.lexeme v)
  push : ∀ {e : Environment} {parent : Handle}, J e → 0 < e.scopes.size →
    parent = e.current ∨ parent = 0 → J (e.push parent)
  /-- When the scope is closed again that was opened in `e`. -/
  pop : ∀ {e e' : Environment}, J e → J e' → e'.current = e.scopes.size → J (e'.pop e.current)

/-- Where a run goes on: in which scope, and with how many active calls. -/
structure Site where
  current : Handle
  depth : Nat

/-- The scope is not the global one. -/
def Site.inside (i : Site) : Bool := decide (0 < i.current)

/-- A run goes on at `i`, all values in the scopes obey the rules, and the invariant holds. -/
structure Machine.Obeys (r : Rules) (J : Environment → Prop) (i : Site) (m : Machine) : Prop where
  stored : m.env.allValues (Value.obeys r) = true
  kept : J m.env
  current : m.env.current = i.current
  depth : m.depth = i.depth
  size : 0 < m.env.scopes.size

/-- How a run may end: on a machine that obeys, with a value or a fault that does, or without having
been allowed to go on if `X`. -/
inductive Outcome.Obeys {α : Type} [Ruled α] (r : Rules) (J : Environment → Prop) (i : Site)
    (X : Prop) : Outcome Fault α → Prop where
  | done {a : α} {m : Machine} : Ruled.Obeys r a → m.Obeys r J i → Obeys r J i X (.done a m)
  | failed {f : Fault} {m : Machine} : f.Obeys r → m.Obeys r J i → Obeys r J i X (.failed f m)
  | exhausted : X → Obeys r J i X .exhausted

theorem Outcome.Obeys.mono {α : Type} [Ruled α] {r : Rules} {J : Environment → Prop} {i : Site}
    {X Y : Prop} {o : Outcome Fault α} (h : o.Obeys r J i X) (hXY : X → Y) : o.Obeys r J i Y := by
  cases h with
  | done ha hm => exact .done ha hm
  | failed hf hm => exact .failed hf hm
  | exhausted hX => exact .exhausted (hXY hX)

/-- The invariant also holds whenever something happens. -/
structure Course.Obeys {α : Type} [Ruled α] (r : Rules) (J : Environment → Prop) (i : Site)
    (X : Prop) (c : Course α) : Prop where
  ends : c.outcome.Obeys r J i X
  kept : ∀ e ∈ c.events, J e.found.env

def Watched.Obeys {α : Type} [Ruled α] (r : Rules) (J : Environment → Prop) (i : Site) (X : Prop)
    (x : Watched α) : Prop :=
  ∀ m, m.Obeys r J i → (x m).Obeys r J i X

/-- The functions of the host that are allowed obey the rules as well, and where loops are not
allowed they end. -/
def Host.Obeys (host : Host) (r : Rules) (J : Environment → Prop) : Prop :=
  ∀ f args, r.native f = true → Ruled.Obeys r args → ∀ i, i.depth ≤ Eval.callLimit →
    ∀ m, m.Obeys r J i → (f.invoke host args m).Obeys r J i (r.loops = true)

/-- A host that stays outside only has to answer by the rules. -/
theorem Host.Aloof.obeys {host : Host} (hhost : host.Aloof) {r : Rules} {J : Environment → Prop}
    (hr : r.Lenient) (hloops : r.loops = true)
    (hanswers : ∀ key args, Ruled.Obeys r args → ∀ m v m', host key args m = .done v m' →
      v.obeys r = true) : host.Obeys r J := by
  intro f args _ hargs i _ m hm
  have hanswer : ∀ v m', f.invoke host args m = .done v m' → v.obeys r = true := by
    unfold Native.invoke
    cases f.routine with
    | clock => rintro _ _ ⟨⟩; rfl
    | foreign key => exact hanswers key args hargs m
  obtain ⟨reply, hreply⟩ := hhost.invoke f args
  rw [hreply] at hanswer ⊢
  rcases Eval.outside_cases reply m with hends | ⟨x, clock, hends⟩ <;> rw [hends] at hanswer ⊢
  · exact .exhausted hloops
  · cases x with
    | ok v => exact .done (hanswer v _ rfl) { hm with }
    | error f => exact .failed (f.obeys_of_lenient hr) { hm with }

/-! ## Parts of runs -/

section
variable {r : Rules} {J : Environment → Prop} {i : Site} {X : Prop}

theorem Machine.Obeys.withEnv {m : Machine} (hm : m.Obeys r J i) {h : Handle} {name : String}
    {v : Value} (hv : v.obeys r = true) (hkept : J (m.env.bind h name v)) :
    Machine.Obeys r J i { m with env := m.env.bind h name v } where
  stored := Environment.allValues_bind hm.stored h name hv
  kept := hkept
  current := hm.current
  depth := hm.depth
  size := (Environment.size_bind ..).symm ▸ hm.size

namespace Watched

variable {α β : Type} [Ruled α] [Ruled β]

theorem obeys_noted {x : Eval α} (act : Machine → Act)
    (hx : ∀ m, m.Obeys r J i → (x m).Obeys r J i X) : (noted act x).Obeys r J i X :=
  fun m hm => ⟨hx m hm, fun _ he => List.mem_singleton.1 he ▸ hm.kept⟩

theorem obeys_silent {x : Eval α} (hx : ∀ m, m.Obeys r J i → (x m).Obeys r J i X) :
    (silent x).Obeys r J i X :=
  fun m hm => ⟨hx m hm, fun _ he => absurd he List.not_mem_nil⟩

theorem obeys_lift {x : Except Fault α} (hok : ∀ a, x = .ok a → Ruled.Obeys r a)
    (herror : ∀ f, x = .error f → f.Obeys r) {m : Machine} (hm : m.Obeys r J i) :
    (Eval.lift x m).Obeys r J i X := by
  cases x with
  | ok a => exact .done (hok a rfl) hm
  | error f => exact .failed (herror f rfl) hm

theorem Obeys.bind {x : Watched α} {f : α → Watched β} (hx : x.Obeys r J i X)
    (hf : ∀ a, Ruled.Obeys r a → (f a).Obeys r J i X) : (x >>= f).Obeys r J i X := by
  intro m hm
  obtain ⟨hends, hkept⟩ := hx m hm
  show (Watched.bind x f m).Obeys r J i X
  unfold Watched.bind
  generalize (x m).outcome = o at hends
  cases hends with
  | done ha hm =>
    obtain ⟨hends, hbehind⟩ := hf _ ha _ hm
    exact ⟨hends, List.forall_mem_append.2 ⟨hkept, hbehind⟩⟩
  | failed hf hm => exact ⟨.failed hf hm, hkept⟩
  | exhausted hX => exact ⟨.exhausted hX, hkept⟩

theorem obeys_get {name : Token} (hname : r.read name = true) :
    (Watched.get name).Obeys r J i X := by
  refine obeys_noted _ fun m hm => ?_
  show (Eval.lift (m.env.read name) m).Obeys r J i X
  refine obeys_lift (fun v hv => ?_) (fun f hf => ?_) hm
  · unfold Environment.read at hv
    split at hv <;> cases hv
    exact Environment.allValues_get? hm.stored ‹_›
  · unfold Environment.read at hf
    split at hf <;> cases hf
    exact .inl hname

section
variable (hJ : r.Uphold J)

include hJ

theorem obeys_assign {name : Token} (hname : r.assigned name = true) {v : Value}
    (hv : v.obeys r = true) : (Watched.assign name v).Obeys r J i X := by
  refine obeys_noted _ fun m hm => ?_
  show ((Eval.lift (m.env.write name v) >>= fun env => Eval.modify fun m => { m with env })
    m).Obeys r J i X
  rw [Environment.write_eq]
  cases hresolve : m.env.resolve? name.lexeme with
  | none => exact .failed (.inr hname) hm
  | some handle => exact .done trivial (hm.withEnv hv (hJ.assign hm.kept hname hresolve v))

/-- A declaration is inside a scope, or one that the rules allow. -/
theorem obeys_define {name : Token} (hname : (i.inside || r.declared name) = true) {v : Value}
    (hv : v.obeys r = true) {m : Machine} (hm : m.Obeys r J i) :
    (Eval.define name.lexeme v m).Obeys r J i X := by
  refine .done trivial (hm.withEnv hv ?_)
  rcases Bool.or_eq_true_iff.1 hname with hinside | hdeclared
  · exact hJ.define hm.kept _ v (hm.current ▸ of_decide_eq_true hinside)
  · exact hJ.declare hm.kept hdeclared v

/-- A run in a scope of its own. The scope around it is the current one again behind it. -/
theorem Obeys.within {x : Watched Unit} (hx : ∀ j, j.inside = true → j.depth = i.depth →
    x.Obeys r J j X) {m : Machine} (hm : m.Obeys r J i) {parent : Handle}
    (hparent : parent = m.env.current ∨ parent = 0) :
    (Watched.within parent x m).Obeys r J i X := by
  have hpushed : Machine.Obeys r J ⟨m.env.scopes.size, i.depth⟩
      { m with env := m.env.push parent } :=
    { stored := Environment.allValues_push hm.stored parent
      kept := hJ.push hm.kept hm.size hparent
      current := rfl
      depth := hm.depth
      size := by simp [Environment.size_push] }
  have hclosed {m' : Machine} (h : m'.Obeys r J ⟨m.env.scopes.size, i.depth⟩) :
      Machine.Obeys r J i { m' with env := m'.env.pop m.env.current } := by
    refine ⟨Environment.allValues_pop h.stored _, hJ.pop hm.kept h.kept h.current, hm.current,
      h.depth, ?_⟩
    -- the last scope is never popped
    have hsize := h.size
    show 0 < (m'.env.pop _).scopes.size
    unfold Environment.pop
    split
    · simp only [Array.size_pop]
      omega
    · exact hsize
  obtain ⟨hends, hkept⟩ := hx ⟨m.env.scopes.size, i.depth⟩ (decide_eq_true hm.size) rfl _ hpushed
  unfold Watched.within
  dsimp only
  generalize x { m with env := m.env.push parent } = c at hends hkept
  obtain ⟨events, o⟩ := c
  have hevents {last : List Event} (h : ∀ e ∈ last, J e.found.env) :
      ∀ e ∈ ⟨.access (.push parent), m⟩ :: events ++ last, J e.found.env :=
    List.forall_mem_append.2 ⟨List.forall_mem_cons.2 ⟨hm.kept, hkept⟩, h⟩
  cases hends with
  | done ha h => exact ⟨.done ha (hclosed h), hevents (by simpa [behind] using h.kept)⟩
  | failed hf h => exact ⟨.failed hf (hclosed h), hevents (by simpa [behind] using h.kept)⟩
  | exhausted hX => exact ⟨.exhausted hX, hevents (by simp [behind])⟩

end

/-- What is counted as one more call runs with one more call active, and only if that is not one
too many. -/
theorem obeys_counted {x : Watched α} (hx : i.depth < Eval.callLimit →
    x.Obeys r J ⟨i.current, i.depth + 1⟩ X) {closing : Token} (hclosing : r.closing closing = true)
    (name : String) (arguments : Nat) :
    (Watched.counted closing name arguments x).Obeys r J i X := by
  intro m hm
  unfold Watched.counted
  split
  · exact ⟨.failed ⟨closing, hclosing, rfl⟩ hm, by simp [hm.kept]⟩
  · rename_i hlimit
    obtain ⟨hends, hkept⟩ := hx (hm.depth ▸ Nat.lt_of_not_le hlimit)
      { m with depth := m.depth + 1, log := m.log.push ⟨name, arguments, m.depth⟩ }
      { hm with depth := congrArg (· + 1) hm.depth }
    have hleft {m' : Machine} (h : m'.Obeys r J ⟨i.current, i.depth + 1⟩) :
        Machine.Obeys r J i { m' with depth := m'.depth - 1 } :=
      { h with depth := by simp [h.depth] }
    dsimp only
    generalize x _ = c at hends hkept
    obtain ⟨events, o⟩ := c
    have hevents {last : List Event} (h : ∀ e ∈ last, J e.found.env) :
        ∀ e ∈ ⟨.call (.enter name arguments), m⟩ :: events ++ last, J e.found.env :=
      List.forall_mem_append.2 ⟨List.forall_mem_cons.2 ⟨hm.kept, hkept⟩, h⟩
    cases hends with
    | done ha h => exact ⟨.done ha (hleft h), hevents (by simpa [behind] using h.kept)⟩
    | failed hf h => exact ⟨.failed hf (hleft h), hevents (by simpa [behind] using h.kept)⟩
    | exhausted hX => exact ⟨.exhausted hX, hevents (by simp [behind])⟩

end Watched

end

open Watched

section
variable {r : Rules} {J : Environment → Prop} {host : Host}

/-- A run with `d` active calls that is allowed `n` more inside one another may have to stop only if
`n` does not reach up to the limit, or in a loop. -/
theorem obeys_traversal (hJ : r.Uphold J) (hhost : host.Obeys r J) :
    Traversal r Site.inside host.unwatched host 0
      (fun n i x _ => i.depth ≤ Eval.callLimit →
        x.Obeys r J i (r.loops = true ∨ n + i.depth ≤ Eval.callLimit))
      fun n i x _ => x.Obeys r J i (r.loops = true ∨ n + i.depth < Eval.callLimit) where
  lift _ _ _ hok herror := obeys_silent fun _ hm =>
    obeys_lift hok (fun f hf => (herror f hf).obeys) hm
  bind hx hf := hx.bind hf
  get _ _ _ hname := obeys_get hname
  assign _ _ _ _ hname hv := obeys_assign hJ hname hv
  define _ _ _ _ hname hv := obeys_noted _ fun _ hm => obeys_define hJ hname hv hm
  defineFunction _ _ f hname hbody := obeys_noted _ fun m hm =>
    obeys_define hJ hname (v := .callable ⟨m.fresh, .function f⟩) hbody
      (m := { m with fresh := m.fresh + 1 }) { hm with }
  print _ _ keyword v hkeyword := by
    refine obeys_noted _ fun m hm => ?_
    unfold Eval.print
    rcases m.sink.write (v.shown ++ "\n").toUTF8 with ⟨sink, _ | _⟩
    · exact .failed ⟨keyword, hkeyword, rfl⟩ { hm with }
    · exact .done trivial { hm with }
  counted {n i} _ _ _ _ _ hclosing hx :=
    obeys_counted (fun hlt => hx ⟨i.current, i.depth + 1⟩ hlt) hclosing _ _
  block hx m hm := Obeys.within hJ (fun j hj hdepth => hdepth ▸ hx j hj) hm (.inl rfl)
  stop _ _ _ hloops _ := obeys_silent fun _ _ => .exhausted (.inl hloops)
  native n i f args hf hargs hdepth := by
    rw [native_unwatched]
    refine obeys_silent fun m hm => ?_
    have hends := hhost f args hf hargs i hdepth m hm
    generalize f.invoke host args m = o at hends
    cases hends with
    | done ha hm => exact .done ha hm
    | failed hf hm => exact .failed hf hm
    | exhausted hloops => exact .exhausted (.inl hloops)
  body {n i x y} hx hdepth := by
    -- a call in the body is allowed one less than this one, and has one more active call
    rw [Nat.succ_add, Nat.succ_le_iff]
    refine Obeys.bind (fun m hm => ?_) fun _ _ => obeys_silent fun _ hm => .done rfl hm
    exact Obeys.within hJ (fun j hj hd => hd ▸ hx j hj) hm (.inr rfl)
  zero i _ _ hdepth := obeys_silent fun _ _ => .exhausted (.inr (by omega))

section
variable (hJ : r.Uphold J) (hhost : host.Obeys r J) (n : Nat) {i : Site} {m : Machine}
  (hm : m.Obeys r J i)

include hJ hhost hm

theorem obeys_eval {e : Expr} (he : e.obeys r = true) :
    (eval (invoke host n) e m).Obeys r J i (r.loops = true ∨ n + i.depth < Eval.callLimit) := by
  have ht := obeys_traversal hJ hhost
  have hends := (ht.eval (n := n) (ht.invoke n) i e he m hm).ends
  rwa [outcome_eval] at hends

theorem obeys_invoke (hdepth : i.depth ≤ Eval.callLimit) {c : Callable}
    (hc : (Value.callable c).obeys r = true) {args : List Value} (hargs : Ruled.Obeys r args) :
    (invoke host n c args m).Obeys r J i (r.loops = true ∨ n + i.depth ≤ Eval.callLimit) := by
  have hends := ((obeys_traversal hJ hhost).invoke n i c args hc hargs hdepth m hm).ends
  rwa [outcome_invoke] at hends

theorem obeys_exec (rounds : Nat) {s : Stmt} (hs : s.obeys r i.inside = true) :
    (exec (invoke host n) rounds s m).Obeys r J i
      (r.loops = true ∨ n + i.depth < Eval.callLimit) := by
  have ht := obeys_traversal hJ hhost
  have hends := (ht.exec (n := n) (ht.invoke n) rounds i s hs m hm).ends
  rwa [outcome_exec] at hends

theorem obeys_execute {ss : List Stmt} (hss : Stmt.obeysAll r i.inside ss = true) :
    (Session.execute host n ss m).Obeys r J i
      (r.loops = true ∨ n + i.depth < Eval.callLimit) := by
  have hends := ((obeys_traversal hJ hhost).execute n i hss m hm).ends
  rwa [outcome_execute] at hends

end

end

end Sprog
