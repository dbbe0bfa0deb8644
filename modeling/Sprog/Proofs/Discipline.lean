import Sprog.Proofs.Traces

/-!
# The order of a session

A session starts on a new machine and serves its host: it runs source texts and calls callables, one
request after the other. Between two requests only the global scope is open and no call is active,
whatever the requests before them ended with. While a request is served, the scopes are nested at
every operation on them. The routines of the host stay outside.

* `Session.Reached`: the machines between the requests of a session.
* `Reached.settled`: nothing stays open between requests.
* `reached_disciplined`: and nothing is out of order while one is served.
-/
namespace Sprog

/-- The fault that a run ended with. -/
def Outcome.fault? {α : Type} : Outcome Failure α → Option Fault
  | failed (.runtime f) _ => some f
  | done .. | failed (.parse _) _ | exhausted => none

theorem Outcome.exists_of_fault? {α : Type} {o : Outcome Failure α} {f : Fault}
    (h : o.fault? = some f) : ∃ m, o = .failed (.runtime f) m := by
  rcases o with _ | ⟨_ | _, m⟩ | _ <;> cases h
  exact ⟨m, rfl⟩

open Event

/-- What a host asks of a session. -/
inductive Request where
  | run (source : String)
  | call (callee : Callable) (args : List Value)

namespace Request

section
variable (host : Host) (n : Nat)

/-- The machine after the request, if it is served within `n` calls inside one another and `n`
rounds of each loop. -/
def served? : Request → Machine → Option Machine
  | run source, m => (Session.run host n source m).machine?
  | call callee args, m => (Session.call host n callee args m).machine?

/-- What happens while the request is served. -/
def events : Request → Machine → List Event
  | run source, m => Watched.eventsOf host.unwatched n source m
  | call callee args, m => (Watched.invoke host.unwatched n callee args m).events

end

end Request

/-- The machines between the requests of a session. Meanwhile a host may make callables of its own
and collect what was written. -/
inductive Session.Reached (host : Host) : Machine → Prop where
  | start (clock : Clock) (room : Option Nat) : Reached host (.start clock room)
  | served {m m' : Machine} (n : Nat) (r : Request) : Reached host m →
      r.served? host n m = some m' → Reached host m'
  | reserve {m : Machine} (count : Nat) : Reached host m → Reached host (m.reserve count)
  | flush {m : Machine} : Reached host m → Reached host m.flush

/-- Nothing but the global scope is open, and no call is active. -/
structure Machine.Settled (m : Machine) : Prop where
  nested : m.env.Nested
  alone : m.env.scopes.size = 1
  global : m.env.current = 0
  idle : m.depth = 0

theorem settled_start (clock : Clock) (room : Option Nat) : (Machine.start clock room).Settled where
  nested := Environment.nested_empty.bind 0 _ _
  alone := rfl
  global := rfl
  idle := rfl

/-! ## One request -/

theorem Outcome.machine?_mapError {ε ε' α : Type} (o : Outcome ε α) (f : ε → ε') :
    (o.mapError f).machine? = o.machine? := by
  cases o <;> rfl

section
variable {host : Host}

/-- A fault of the parser comes before everything else. -/
theorem run_eq_parse {n : Nat} {source : String} {errors : List Diagnostic} {m m' : Machine}
    (h : Session.run host n source m = .failed (.parse errors) m') :
    m' = m ∧ Program.ofSource source = .error errors := by
  unfold Session.run at h
  split at h
  · rename_i hsource
    cases h
    exact ⟨rfl, hsource⟩
  · rename_i statements _
    cases hrun : Session.execute host n statements m <;> rw [hrun] at h <;> cases h

namespace Request

section
variable (hhost : host.Aloof) {r : Request} {n : Nat} {m : Machine}

include hhost

theorem safe (hm : m.env.Nested) {before behind : List Event} {e : Event}
    (h : r.events host n m = before ++ e :: behind) :
    e.found.env = replay m.env (accesses before) ∧ e.found.env.Nested ∧
      ∀ a, e.act = .access a → a.Safe e.found.env := by
  cases r with
  | run source =>
    cases hsource : Program.ofSource source with
    | error errors => simp [events, Watched.eventsOf, hsource] at h
    | ok ss =>
      simp only [events, Watched.eventsOf, hsource] at h
      exact (orderly_execute hhost n ss m hm).safe hm h
  | call callee args => exact (orderly_invoke hhost n callee args m hm).safe hm h

theorem lifo_of_served? {m' : Machine} (h : r.served? host n m = some m') (hm : m.env.Nested) :
    Lifo m.env [] (accesses (r.events host n m)) m'.env [] ∧ m'.depth = m.depth := by
  cases r with
  | run source =>
    cases hsource : Program.ofSource source with
    | error errors =>
      simp only [served?, Session.run, hsource] at h
      cases h
      simp only [events, Watched.eventsOf, hsource]
      exact ⟨.nil, trivial⟩
    | ok ss =>
      simp only [served?, Session.run, hsource, Outcome.machine?_mapError] at h
      simp only [events, Watched.eventsOf, hsource]
      have hrow := (orderly_execute hhost n ss m hm).row
      rw [outcome_execute] at hrow
      exact hrow.of_machine? h
  | call callee args =>
    have hrow := (orderly_invoke hhost n callee args m hm).row
    rw [outcome_invoke] at hrow
    exact hrow.of_machine? h

/-- A request leaves nothing open. -/
theorem settled {m' : Machine} (h : r.served? host n m = some m') (hm : m.Settled) :
    m'.Settled := by
  obtain ⟨hrow, hdepth⟩ := lifo_of_served? hhost h hm.nested
  have hnested := (hrow.orderly hm.nested.orderly).nested
  have hsize : m'.env.scopes.size = 1 := (hrow.size_add hm.nested.orderly).trans hm.alone
  have hcurrent : m'.env.current + 1 = 1 := hnested.current.symm.trans hsize
  exact ⟨hnested, hsize, Nat.succ.inj hcurrent, hdepth.trans hm.idle⟩

end

end Request

end

/-! ## Sessions -/

section
variable {host : Host} (hhost : host.Aloof)

include hhost

theorem Session.Reached.settled {m : Machine} (h : Reached host m) : m.Settled := by
  induction h with
  | start clock room => exact settled_start clock room
  | served n r _ hserved ih => exact Request.settled hhost hserved ih
  | reserve count _ ih => exact { ih with }
  | flush _ ih => exact { ih with }

/-- Between the requests of a session only the global scope is open and no call is active. While a
request is served, whether it will end or not, the scopes are nested at every event, nothing but the
operations before it has changed them, and every operation finds what it needs. If the request ends,
with a value or with a fault in whatever scopes and calls, then all that was opened is closed again.
If a text does not parse, nothing is changed at all. -/
theorem reached_disciplined {m : Machine} (h : Session.Reached host m) :
    m.Settled ∧
    (∀ n (r : Request) before e behind, r.events host n m = before ++ e :: behind →
      e.found.env = replay m.env (accesses before) ∧ e.found.env.Nested ∧
        ∀ a, e.act = .access a → a.Safe e.found.env) ∧
    (∀ n (r : Request) m', r.served? host n m = some m' →
      m'.env = replay m.env (accesses (r.events host n m)) ∧ m'.Settled) ∧
    ∀ n source errors m', Session.run host n source m = .failed (.parse errors) m' →
      m' = m ∧ (Request.run source).events host n m = [] := by
  have hm := h.settled hhost
  refine ⟨hm, ?_, ?_, ?_⟩
  · intro n r before e behind hsplit
    exact Request.safe hhost hm.nested hsplit
  · intro n r m' hserved
    have hrow := (Request.lifo_of_served? hhost hserved hm.nested).1
    exact ⟨hrow.replay_eq.symm, Request.settled hhost hserved hm⟩
  · intro n source errors m' hrun
    obtain ⟨rfl, hsource⟩ := run_eq_parse hrun
    exact ⟨rfl, by rw [Request.events, Watched.eventsOf, hsource]⟩

end

/-- A function with two counting loops inside one another, with a scope each. The first one starts
with what its argument gives back; the test of the second one fails. -/
def failsInLoops : String :=
  "gøremål f(g) \x7b for (sæt x = g(\"hej\"); x;) for (sæt y = x; z;) skriv y; \x7d"

/-- A function of the host. -/
def echoes : Native := ⟨"ekko", 1, .foreign 0⟩

/-- The callable that a value is. -/
def Value.callable? : Value → Option Callable
  | callable c => some c
  | nil | bool _ | number _ | text _ => none

theorem Value.eq_callable {v : Value} {c : Callable} (h : v.callable? = some c) :
    v = .callable c := by
  cases v <;> cases h
  rfl

theorem failsInLoops_disciplined :
    ∃ m c f m', Session.Reached .echo m ∧ m.env.get? "f" = some (.callable c) ∧
      Session.call .echo 2 c [.callable ⟨m.fresh, .native echoes⟩] m = .failed f m' ∧
      f.message = "Undefined variable 'z'." ∧ m'.Settled ∧
      m'.env = replay m.env (accesses
        ((Request.call c [.callable ⟨m.fresh, .native echoes⟩]).events .echo 2 m)) := by
  have hsteps :
      ((Session.run .echo 1 failsInLoops (.start (.fixed 0) none)).machine?.bind fun m =>
        (m.env.get? "f").bind fun v => v.callable?.bind fun c =>
        ((Session.call .echo 2 c [.callable ⟨m.fresh, .native echoes⟩] m).mapError
          Failure.runtime).fault?.map Fault.message) = some "Undefined variable 'z'." := by
    decide +kernel
  obtain ⟨m, hrun, hsteps⟩ := Option.bind_eq_some_iff.1 hsteps
  obtain ⟨v, hget, hsteps⟩ := Option.bind_eq_some_iff.1 hsteps
  obtain ⟨c, hcallable, hsteps⟩ := Option.bind_eq_some_iff.1 hsteps
  obtain ⟨f, hfault, hmessage⟩ := Option.map_eq_some_iff.1 hsteps
  rw [Value.eq_callable hcallable] at hget
  have hreached : Session.Reached .echo m :=
    .served 1 (.run failsInLoops) (.start (.fixed 0) none) hrun
  cases hcall : Session.call .echo 2 c [.callable ⟨m.fresh, .native echoes⟩] m with
  | failed f' m' =>
    rw [hcall] at hfault
    obtain rfl := Option.some.inj hfault
    have hserved : (Request.call c [.callable ⟨m.fresh, .native echoes⟩]).served? .echo 2 m =
        some m' := by
      rw [Request.served?, hcall]
      rfl
    obtain ⟨henv, hsettled⟩ :=
      (reached_disciplined Host.aloof_echo hreached).2.2.1 2 _ m' hserved
    exact ⟨m, c, f', m', hreached, hget, hcall, hmessage, hsettled, henv⟩
  | done | exhausted =>
    rw [hcall] at hfault
    cases hfault

end Sprog
