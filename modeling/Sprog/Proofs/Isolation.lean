import Sprog.Proofs.Scopes
import Sprog.Proofs.Simulation

/-!
# A call and the scopes of its caller

The scopes that a call opens stand behind those of its caller, but inside the global one. So a call
takes the same course as on the bare machine, which has the global scope and nothing else: its
scopes are only moved behind the local scopes of the caller (`Environment.Above`), which the call
neither reads nor changes.

* `Environment.Above.resolve?`: a name is found in the same scope, up to the move.
* `above_simulation`: no run inside the call can tell the two machines apart.
* `call_bare`: a call gives what it gives on the bare machine.
* `call_isolated`: on any two machines that share what is global a call gives the same, and leaves
  the local scopes of both as they were.
-/
namespace Sprog

namespace Environment

/-- Where the scope with the given handle stands when all but the global one are moved behind the
scopes of `b`. -/
def place (b : Environment) : Nat → Nat
  | 0 => 0
  | h + 1 => b.scopes.size + h

/-- A scope whose parent is moved behind the scopes of `b`. -/
def moved (b : Environment) (s : Scope) : Scope :=
  { s with parent := s.parent.map b.place }

theorem moved_global (b : Environment) {s : Scope} (h : s.parent = none) : b.moved s = s := by
  cases s
  cases h
  rfl

/-- The environment `e` is `a`, which has `i` local scopes and one more, with these moved behind the
scopes of `b`. The local scopes of `b` are as they were. -/
structure Above (b : Environment) (i : Nat) (a e : Environment) : Prop where
  base : 0 < b.scopes.size
  nested : a.Nested
  size : a.scopes.size = i + 2
  total : e.scopes.size = b.scopes.size + (i + 1)
  current : e.current = b.place a.current
  scope : ∀ h, e.scopes[b.place h]? = a.scopes[h]?.map b.moved
  locals : ∀ h : Nat, 0 < h → h < b.scopes.size → e.scopes[h]? = b.scopes[h]?

/-- Different scopes stay different. -/
theorem place_inj {b : Environment} (hb : 0 < b.scopes.size) {g h : Nat} :
    b.place g = b.place h ↔ g = h := by
  cases g <;> cases h <;> simp only [place] <;> omega

/-- No scope takes the place of a local scope of `b`. -/
theorem place_ne_local {b : Environment} {g h : Nat} (hpos : 0 < h) (hlt : h < b.scopes.size) :
    b.place g ≠ h := by
  cases g <;> simp only [place] <;> omega

theorem get?_moved (b : Environment) (s : Scope) (name : String) :
    (b.moved s).get? name = s.get? name := rfl

namespace Above

variable {b a e : Environment} {i : Nat} (h : Above b i a e)

include h

/-- The way outwards passes the same scopes. It comes closer to the global scope with every step, so
any number of steps above the handle is enough. -/
theorem find? (name : String) : ∀ (handle n n' : Nat), handle < n → handle < n' →
    e.find? name n' (b.place handle) = (a.find? name n handle).map b.place := by
  intro handle
  induction handle using Nat.strongRecOn with
  | ind handle ih =>
    intro n n' hn hn'
    obtain ⟨n, rfl⟩ : ∃ k, n = k + 1 := ⟨n - 1, by omega⟩
    obtain ⟨n', rfl⟩ : ∃ k, n' = k + 1 := ⟨n' - 1, by omega⟩
    have hscope := h.scope handle
    cases hs : a.scopes[handle]? with
    | none =>
      rw [hs] at hscope
      simp [Environment.find?, hs, hscope]
    | some s =>
      rw [hs] at hscope
      by_cases hget : (s.get? name).isSome
      · simp [Environment.find?, hs, hscope, get?_moved, hget]
      · simp only [Environment.find?, hs, hscope, Option.map_some, get?_moved, hget,
          Bool.false_eq_true, if_false]
        cases hp : s.parent with
        | none => simp [moved, hp]
        | some p =>
          have hpos : 0 < handle := by
            rcases Nat.eq_zero_or_pos handle with rfl | hpos
            · obtain ⟨g, hg, hnone⟩ := h.nested.global
              cases hs.symm.trans hg
              cases hp.symm.trans hnone
            · exact hpos
          obtain ⟨q, hq, hlt⟩ := h.nested.parent hpos hs
          obtain rfl : p = q := Option.some.inj (hp.symm.trans hq)
          simpa [moved, hp] using ih p hlt n n' (by omega) (by omega)

/-- A name is found in the same scope. -/
theorem resolve? (name : String) : e.resolve? name = (a.resolve? name).map b.place := by
  unfold Environment.resolve?
  rw [h.current]
  have hbase := h.base
  have hcurrent := h.nested.current
  have htotal := h.total
  have hsize := h.size
  exact h.find? name _ _ _ (by unfold depth; omega) (by unfold depth; omega)

theorem get? (name : String) : e.get? name = a.get? name := by
  unfold Environment.get?
  rw [h.resolve? name]
  cases a.resolve? name with
  | none => rfl
  | some handle =>
    show (do let scope ← e.scopes[b.place handle]?; scope.get? name) =
      (do let scope ← a.scopes[handle]?; scope.get? name)
    rw [h.scope handle]
    cases a.scopes[handle]? <;> rfl

theorem bind (handle : Nat) (name : String) (value : Value) :
    Above b i (a.bind handle name value) (e.bind (b.place handle) name value) where
  base := h.base
  nested := h.nested.bind handle name value
  size := by rw [size_bind, h.size]
  total := by rw [size_bind, h.total]
  current := h.current
  scope g := by
    rw [getElem?_bind, getElem?_bind, h.scope g]
    by_cases hg : handle = g
    · rw [if_pos ((place_inj h.base).2 hg), if_pos hg]
      cases a.scopes[g]? <;> rfl
    · rw [if_neg fun hp => hg ((place_inj h.base).1 hp), if_neg hg]
  locals g hpos hlt := by
    rw [getElem?_bind, if_neg (place_ne_local hpos hlt)]
    exact h.locals g hpos hlt

theorem push {parent : Nat} (hp : parent < a.scopes.size) :
    Above b (i + 1) (a.push parent) (e.push (b.place parent)) := by
  have hsize := h.size
  have htotal := h.total
  have hplace : b.place a.scopes.size = e.scopes.size := by
    rw [h.size, h.total]
    rfl
  refine ⟨h.base, h.nested.push hp, ?_, ?_, hplace.symm, ?_, ?_⟩
  · rw [size_push, h.size]
  · rw [size_push, h.total]
    rfl
  · intro g
    rw [getElem?_push, getElem?_push, h.scope g, ← hplace]
    by_cases hg : g = a.scopes.size
    · rw [if_pos ((place_inj h.base).2 hg), if_pos hg]
      rfl
    · rw [if_neg fun hp => hg ((place_inj h.base).1 hp), if_neg hg]
  · intro g hpos hlt
    rw [getElem?_push, if_neg (by omega)]
    exact h.locals g hpos hlt

omit h in
theorem pop (h : Above b (i + 1) a e) {previous : Nat} (hp : a.scopes.size = previous + 2) :
    Above b i (a.pop previous) (e.pop (b.place previous)) := by
  have hbase := h.base
  have hsize := h.size
  have htotal := h.total
  have hmany : 1 < e.scopes.size := by omega
  have hmany' : 1 < a.scopes.size := by omega
  refine ⟨h.base, h.nested.pop hp, ?_, ?_, rfl, ?_, ?_⟩
  · rw [size_pop hmany']
    omega
  · rw [size_pop hmany]
    omega
  · intro g
    have hrange : b.place g < e.scopes.size - 1 ↔ g < a.scopes.size - 1 := by
      cases g <;> simp only [place] <;> omega
    rw [getElem?_pop hmany, getElem?_pop hmany', h.scope g]
    by_cases hg : g < a.scopes.size - 1
    · rw [if_pos (hrange.2 hg), if_pos hg]
    · rw [if_neg fun hlt => hg (hrange.1 hlt), if_neg hg]
      rfl
  · intro g hpos hlt
    rw [getElem?_pop hmany, if_pos (by omega)]
    exact h.locals g hpos hlt

end Above

/-- The global scope alone. -/
def globals (b : Environment) : Environment := ⟨b.scopes.extract 0 1, 0⟩

theorem getElem?_globals (b : Environment) (h : Nat) :
    b.globals.scopes[h]? = if h = 0 then b.scopes[0]? else none := by
  unfold globals
  rw [Array.getElem?_extract]
  by_cases h0 : h = 0
  · subst h0
    by_cases hb : b.scopes.size = 0
    · simp [hb]
    · rw [if_pos (by omega)]
      rfl
  · rw [if_neg (by omega), if_neg h0]

section
variable {b : Environment} (hb : b.Nested)

include hb

theorem globals_nested : b.globals.Nested := by
  obtain ⟨s, hs, hnone⟩ := hb.global
  refine ⟨⟨s, ?_, hnone⟩, ?_, ?_⟩
  · rw [getElem?_globals, if_pos rfl, hs]
  · intro h s' hpos hs'
    rw [getElem?_globals, if_neg (by omega)] at hs'
    cases hs'
  · have hpos := hb.size_pos
    show (b.scopes.extract 0 1).size = 0 + 1
    rw [Array.size_extract]
    omega

theorem size_globals : b.globals.scopes.size = 1 := (globals_nested hb).current

/-- The first scope that a call opens. -/
theorem above_push : Above b 0 (b.globals.push 0) (b.push 0) := by
  have hpos := hb.size_pos
  have hsize := size_globals hb
  refine ⟨hpos, (globals_nested hb).push (by omega), ?_, size_push b 0, ?_, ?_, ?_⟩
  · rw [size_push, hsize]
  · show b.scopes.size = b.place b.globals.scopes.size
    rw [hsize]
    rfl
  · intro g
    rw [getElem?_push, getElem?_push, hsize, getElem?_globals]
    match g with
    | 0 =>
      obtain ⟨s, hs, hnone⟩ := hb.global
      have hne : 0 ≠ b.scopes.size := by omega
      simp [place, hne, hs, b.moved_global hnone]
    | 1 => simp [place, moved]
    | g + 2 => simp [place]
  · intro g hlt hlt'
    rw [getElem?_push, if_neg (by omega)]

end

/-- What is left when the last scope of a call is closed again. -/
theorem Above.returned {b a e : Environment} (h : Above b 0 a e) :
    (e.pop b.current).scopes[0]? = (a.pop 0).scopes[0]? ∧
      ∀ g : Nat, 0 < g → (e.pop b.current).scopes[g]? = b.scopes[g]? := by
  have hbase := h.base
  have hsize := h.size
  have htotal := h.total
  have hmany : 1 < e.scopes.size := by omega
  have hmany' : 1 < a.scopes.size := by omega
  constructor
  · obtain ⟨s, hs, hnone⟩ := h.nested.global
    have hscope := h.scope 0
    rw [getElem?_pop hmany, getElem?_pop hmany', if_pos (by omega), if_pos (by omega), hs]
    rwa [hs, Option.map_some, b.moved_global hnone] at hscope
  · intro g hpos
    rw [getElem?_pop hmany]
    by_cases hg : g < b.scopes.size
    · rw [if_pos (by omega)]
      exact h.locals g hpos hg
    · rw [if_neg (by omega), Array.getElem?_eq_none (by omega)]

end Environment

namespace Machine

/-- The machine `m` is as `a`, apart from the scopes, after what `b` logged and asked before. -/
structure Follows (b a m : Machine) : Prop where
  depth : m.depth = a.depth
  sink : m.sink = a.sink
  fresh : m.fresh = a.fresh
  log : m.log = b.log ++ a.log
  clock : m.clock = ⟨b.clock.reading, b.clock.asked + a.clock.asked⟩
  reading : ∀ t, a.clock.reading t = b.clock.reading (b.clock.asked + t)

/-- Inside a call: the scopes of `a` are moved behind those of the caller. -/
structure Above (b : Machine) (i : Nat) (a m : Machine) : Prop extends Follows b a m where
  env : b.env.Above i a.env m.env

theorem Above.withEnv {b a m : Machine} {i j : Nat} (h : Above b i a m) {x y : Environment}
    (hxy : b.env.Above j x y) : Above b j { a with env := x } { m with env := y } :=
  { h with env := hxy }

end Machine

open Eval

/-- A scope that is opened for a run on both machines, each in its own place. -/
theorem Machine.Above.within {b a m : Machine} {i : Nat} (h : Above b i a m) {parent : Nat}
    (hp : parent < a.env.scopes.size) {x : Eval Unit} (hx : ∀ j, Respects (b.Above j) x) :
    (within parent x a).Alike (b.Above i) (within (b.env.place parent) x m) := by
  have hrun := hx (i + 1) _ _ (h.withEnv (h.env.push hp))
  refine hrun.mapMachine fun out out' hout => hout.withEnv ?_
  rw [h.env.current]
  refine hout.env.pop ?_
  have hcurrent := h.env.nested.current
  have hbefore := h.env.size
  have hafter := hout.env.size
  omega

/-- No run inside a call can tell on which of the two machines it goes. -/
theorem above_simulation (b : Machine) : Simulation (fun _ => true) b.Above where
  get i name := by
    intro a m h
    have hread : m.env.read name = a.env.read name := by
      unfold Environment.read
      rw [h.env.get?]
    show (lift (a.env.read name) a).Alike _ (lift (m.env.read name) m)
    rw [hread]
    exact respects_lift _ a m h
  assign i name value := by
    intro a m h
    show ((lift (a.env.write name value) >>= fun env => modify fun m => { m with env }) a).Alike _
      ((lift (m.env.write name value) >>= fun env => modify fun m => { m with env }) m)
    unfold Environment.write
    rw [Environment.assign?_eq_map, Environment.assign?_eq_map, h.env.resolve?]
    cases a.env.resolve? name.lexeme with
    | none => exact .failed h
    | some handle => exact .done (h.withEnv (h.env.bind handle _ value))
  define i _ name value := by
    intro a m h
    refine .done (h.withEnv ?_)
    rw [Environment.define_eq_bind, Environment.define_eq_bind, h.env.current]
    exact h.env.bind _ name value
  defineFunction i _ f := by
    intro a m h
    have henv : b.env.Above i (a.env.define f.name.lexeme (.callable ⟨a.fresh, .function f⟩))
        (m.env.define f.name.lexeme (.callable ⟨m.fresh, .function f⟩)) := by
      rw [Environment.define_eq_bind, Environment.define_eq_bind, h.env.current, h.fresh]
      exact h.env.bind _ _ _
    exact .done { h with fresh := congrArg (· + 1) h.fresh, env := henv }
  print i line value := by
    intro a m h
    unfold Eval.print
    rw [h.sink]
    rcases a.sink.write (value.shown ++ "\n").toUTF8 with ⟨sink, _ | _⟩
    · exact .failed { h with sink := rfl }
    · exact .done { h with sink := rfl }
  clock i a m h := by
    have hcoming : a.clock.coming = m.clock.coming := by
      funext t
      have hthere : m.clock.coming t = b.clock.reading (b.clock.asked + a.clock.asked + t) := by
        rw [h.clock]
        rfl
      rw [hthere, Nat.add_assoc]
      exact h.reading _
    refine ⟨hcoming, fun count => { h with clock := ?_, reading := h.reading }⟩
    rw [h.clock]
    exact congrArg (Clock.mk _) (Nat.add_assoc ..)
  counted i line name arguments x hx := by
    intro a m h
    unfold Eval.counted
    rw [h.depth]
    split
    · exact .failed h
    · have hlog : m.log.push ⟨name, arguments, a.depth⟩ =
          b.log ++ a.log.push ⟨name, arguments, a.depth⟩ := by
        rw [h.log, Array.append_push]
      have hinner : b.Above i
          { a with depth := a.depth + 1, log := a.log.push ⟨name, arguments, a.depth⟩ }
          { m with depth := a.depth + 1, log := m.log.push ⟨name, arguments, a.depth⟩ } :=
        { h with depth := rfl, log := hlog }
      exact (hx _ _ hinner).mapMachine fun out out' hout =>
        { hout with depth := congrArg (· - 1) hout.depth }
  block i x hx := by
    intro a m h
    have hcurrent := h.env.nested.current
    show (within a.env.current x a).Alike _ (within m.env.current x m)
    rw [h.env.current]
    exact h.within (by omega) fun j => hx j rfl
  body i x hx := by
    intro a m h
    exact h.within h.env.nested.size_pos fun j => hx j rfl

namespace Machine

/-- The machine with the global scope alone, and with nothing logged or asked yet. -/
def bare (m : Machine) : Machine where
  env := m.env.globals
  depth := m.depth
  sink := m.sink
  log := #[]
  clock := ⟨fun t => m.clock.reading (m.clock.asked + t), 0⟩
  fresh := m.fresh

/-- After a call: what is global is as on `a`, what is local as on the machine `b` of the caller. -/
structure Returned (b a m : Machine) : Prop extends Follows b a m where
  current : m.env.current = b.env.current
  global : m.env.scopes[0]? = a.env.scopes[0]?
  locals : ∀ h : Nat, 0 < h → m.env.scopes[h]? = b.env.scopes[h]?

end Machine

/-- A call of a declared function gives what it gives on the bare machine. -/
theorem call_bare {host : Host} (hhost : host.Aloof) {m : Machine} (hm : m.env.Nested)
    (n identity : Nat) (f : Function) (args : List Value) :
    (Session.call host n ⟨identity, .function f⟩ args m.bare).Alike m.Returned
      (Session.call host n ⟨identity, .function f⟩ args m) := by
  cases n with
  | zero => exact .exhausted
  | succ n =>
    have hstart : m.Above 0 { m.bare with env := m.env.globals.push 0 }
        { m with env := m.env.push 0 } :=
      { depth := rfl, sink := rfl, fresh := rfl, log := by simp [Machine.bare], clock := rfl,
        reading := fun _ => rfl, env := Environment.above_push hm }
    have hbody := (above_simulation m).functionBody hhost n n f args (i := 0) rfl _ _ hstart
    refine alike_bind (hbody.mapMachine fun out out' hout => ?_) fun _ => respects_pure _
    obtain ⟨hglobal, hlocals⟩ := hout.env.returned
    exact { hout with current := rfl, global := hglobal, locals := hlocals }

/-- The machines `m` and `m'` after one call on each of `b` and `b'`: what is global is the same,
the two calls did the same, and what is local is as it was. -/
structure Machine.Isolated (b b' m m' : Machine) : Prop where
  global : m.env.scopes[0]? = m'.env.scopes[0]?
  depth : m.depth = m'.depth
  sink : m.sink = m'.sink
  fresh : m.fresh = m'.fresh
  /-- The same calls were made. -/
  log : ∃ calls, m.log = b.log ++ calls ∧ m'.log = b'.log ++ calls
  /-- The clock was asked equally often. -/
  clock : ∃ count, m.clock = ⟨b.clock.reading, b.clock.asked + count⟩ ∧
    m'.clock = ⟨b'.clock.reading, b'.clock.asked + count⟩
  current : m.env.current = b.env.current ∧ m'.env.current = b'.env.current
  locals : ∀ h : Nat, 0 < h → m.env.scopes[h]? = b.env.scopes[h]? ∧
    m'.env.scopes[h]? = b'.env.scopes[h]?

/-- Machines that share what is global, and the times to come, have the same bare machine. -/
theorem bare_eq_bare {m m' : Machine} (hglobal : m.env.scopes[0]? = m'.env.scopes[0]?)
    (hdepth : m.depth = m'.depth) (hsink : m.sink = m'.sink) (hfresh : m.fresh = m'.fresh)
    (hclock : ∀ t, m.clock.reading (m.clock.asked + t) = m'.clock.reading (m'.clock.asked + t)) :
    m.bare = m'.bare := by
  have hscopes : m.env.globals.scopes = m'.env.globals.scopes := by
    apply Array.ext_getElem?
    intro h
    rw [Environment.getElem?_globals, Environment.getElem?_globals, hglobal]
  have henv : m.env.globals = m'.env.globals := congrArg (Environment.mk · 0) hscopes
  unfold Machine.bare
  rw [henv, hdepth, hsink, hfresh, funext hclock]

/-- A call of a declared function neither sees nor changes the local scopes of its caller: on any
two machines that share what is global, and the answers of the clock to come, it ends in the same
way, with the same value or fault, the same text written and the same calls, and it leaves the local
scopes of both as they were. The host has to stay outside. -/
theorem call_isolated {host : Host} (hhost : host.Aloof) {m m' : Machine} (hm : m.env.Nested)
    (hm' : m'.env.Nested)
    (hglobal : m.env.scopes[0]? = m'.env.scopes[0]?) (hdepth : m.depth = m'.depth)
    (hsink : m.sink = m'.sink) (hfresh : m.fresh = m'.fresh)
    (hclock : ∀ t, m.clock.reading (m.clock.asked + t) = m'.clock.reading (m'.clock.asked + t))
    (n identity : Nat) (f : Function) (args : List Value) :
    (Session.call host n ⟨identity, .function f⟩ args m).Alike (m.Isolated m')
      (Session.call host n ⟨identity, .function f⟩ args m') := by
  have hbare := call_bare hhost hm n identity f args
  rw [bare_eq_bare hglobal hdepth hsink hfresh hclock] at hbare
  refine (hbare.join (call_bare hhost hm' n identity f args)).mono ?_
  rintro out out' ⟨a, h, h'⟩
  exact {
    global := h.global.trans h'.global.symm
    depth := h.depth.trans h'.depth.symm
    sink := h.sink.trans h'.sink.symm
    fresh := h.fresh.trans h'.fresh.symm
    log := ⟨a.log, h.log, h'.log⟩
    clock := ⟨a.clock.asked, h.clock, h'.clock⟩
    current := ⟨h.current, h'.current⟩
    locals := fun g hg => ⟨h.locals g hg, h'.locals g hg⟩ }

/-- A caller with one local scope, which binds `x`. -/
def shallowCaller : Machine :=
  { Machine.start (.fixed 0) none with
    env := ((Environment.empty.define "g" .nil).push 0).define "x" (.bool true) }

/-- A caller with the same global scope and two local ones, of which the inner one binds `x`. -/
def deepCaller : Machine :=
  { Machine.start (.fixed 0) none with
    env := ((((Environment.empty.define "g" .nil).push 0).define "g" .nil).push 1).define "x" .nil }

/-- The function `gøremål f(a)` that gives its argument to the global `g`, prints that, and then
asks for an `x` that is not there. -/
def asksForX : Function where
  name := ⟨.identifier, "f", none, 1⟩
  parameters := [⟨.identifier, "a", none, 1⟩]
  body := [
    .expr (.assign ⟨.identifier, "g", none, 2⟩ (.var ⟨.identifier, "a", none, 2⟩)),
    .print ⟨.printKw, "skriv", none, 3⟩ (.var ⟨.identifier, "g", none, 3⟩),
    .expr (.var ⟨.identifier, "x", none, 4⟩)]

theorem asksForX_isolated :
    (∃ out, Session.call .bare 1 ⟨7, .function asksForX⟩ [.text "hej"] shallowCaller =
      .failed (.undefinedVariable ⟨.identifier, "x", none, 4⟩) out) ∧
    (Session.call .bare 1 ⟨7, .function asksForX⟩ [.text "hej"] shallowCaller).Alike
      (shallowCaller.Isolated deepCaller)
      (Session.call .bare 1 ⟨7, .function asksForX⟩ [.text "hej"] deepCaller) := by
  have hempty := Environment.nested_empty.bind 0 "g" .nil
  have hshallow : shallowCaller.env.Nested := (hempty.push (by decide)).bind 1 "x" (.bool true)
  have hdeep : deepCaller.env.Nested :=
    (((hempty.push (by decide)).bind 1 "g" .nil).push (by decide)).bind 2 "x" .nil
  exact ⟨⟨_, rfl⟩, call_isolated Host.aloof_bare hshallow hdeep rfl rfl rfl rfl (fun _ => rfl) 1 7
    asksForX _⟩

end Sprog
