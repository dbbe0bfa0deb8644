import Sprog.Proofs.Discipline
import Sprog.Proofs.Seam

/-!
# A sink that fills up

A run on a sink with little room follows the run on a sink without limits up to the first print that
does not fit, and stops there. The prints are those that a watched run notes, each with the machine
that it found. What the host does, has to be truncated in the same way.

* `Event.prints`, `printed`: the prints among events, and their bytes one after the other.
* `Print.stopped`: the machine that a run is left on when a print fails. What was opened since its
  start is closed, the sink is full, and all else is as the print found it.
* `Watched.Truncates`: the run with little room ends as the other one if all prints fit, and is
  stopped at the first one that does not.
* `truncates_traversal`: this holds of all parts of runs.
* `run_truncated`: what follows for the steps of a session.
-/
namespace Sprog

open Event

theorem extract_of_size_le {bytes : ByteArray} {n : Nat} (h : bytes.size ≤ n) :
    bytes.extract 0 n = bytes := by
  apply ByteArray.ext
  rw [ByteArray.data_extract]
  exact Array.extract_eq_self_of_le h

/-- One print: the line of its statement, what is to be written, and the machine it finds. -/
structure Print where
  line : Nat
  bytes : ByteArray
  before : Machine

/-- What the prints write, one after the other. -/
def printed (ps : List Print) : ByteArray :=
  ps.foldr (fun p bytes => p.bytes ++ bytes) .empty

theorem printed_cons (p : Print) (ps : List Print) : printed (p :: ps) = p.bytes ++ printed ps :=
  rfl

@[simp] theorem printed_append (ps qs : List Print) :
    printed (ps ++ qs) = printed ps ++ printed qs := by
  induction ps with
  | nil => exact ByteArray.empty_append.symm
  | cons p ps ih => rw [List.cons_append, printed_cons, printed_cons, ih, ByteArray.append_assoc]

/-- The prints among the events. -/
def Event.prints (es : List Event) : List Print :=
  es.filterMap fun e => match e.act with
    | .print line bytes => some ⟨line, bytes, e.found⟩
    | .access _ | .call _ => none

@[simp] theorem Event.prints_append (es es' : List Event) :
    prints (es ++ es') = prints es ++ prints es' :=
  List.filterMap_append

/-! ## Machines with little room -/

/-- The machine with room for as many more bytes, or without a limit. -/
def Machine.withRoom (m : Machine) (room : Option Nat) : Machine :=
  { m with sink := { m.sink with room } }

/-- The scopes when those behind the first `size` are closed, of which the global one never is. -/
def Environment.backTo (e : Environment) (size : Nat) (current : Handle) : Environment :=
  ⟨e.scopes.extract 0 (max 1 size), current⟩

theorem Environment.backTo_self (e : Environment) : e.backTo e.scopes.size e.current = e := by
  have hall : e.scopes.extract 0 (max 1 e.scopes.size) = e.scopes :=
    Array.extract_eq_self_of_le (by omega)
  exact congrArg (Environment.mk · e.current) hall

/-- Closing one scope after those behind it. -/
theorem Environment.pop_backTo {e : Environment} {size : Nat} (h : size + 1 ≤ e.scopes.size)
    (inner outer : Handle) :
    (e.backTo (size + 1) inner).pop outer = e.backTo size outer := by
  have hsize : (e.backTo (size + 1) inner).scopes.size = size + 1 := by
    simp only [backTo, Array.size_extract]
    omega
  cases size with
  | zero =>
    -- only the global scope is left, which stays
    unfold pop
    rw [if_neg (by omega)]
    rfl
  | succ size =>
    refine congrArg (Environment.mk · outer) (Array.ext_getElem? fun h => ?_)
    rw [if_pos (by omega), Array.getElem?_pop, hsize]
    simp only [backTo, Array.getElem?_extract]
    grind

/-- The machine that a run from `m` is left on when this print fails and so much is written: all
that was opened is closed again, the sink is full, and all else is as the print found it. -/
def Print.stopped (p : Print) (m : Machine) (written : ByteArray) : Machine :=
  { p.before with
    env := p.before.env.backTo m.env.scopes.size m.env.current
    depth := m.depth
    sink := ⟨written, some 0⟩ }

/-- Between two machines of a run without limits the prints happened, and all that was opened was
closed again. -/
structure Machine.Prints (m : Machine) (ps : List Print) (m₁ : Machine) : Prop where
  sink : m₁.sink = ⟨m.sink.written ++ printed ps, none⟩
  depth : m₁.depth = m.depth
  current : m₁.env.current = m.env.current
  least : m.env.scopes.size ≤ m₁.env.scopes.size
  most : m₁.env.scopes.size ≤ max 1 m.env.scopes.size
  above : ∀ p ∈ ps, m.env.scopes.size ≤ p.before.env.scopes.size

section
variable {m m₁ m₂ : Machine} {ps qs : List Print}

theorem Machine.Prints.silent (hm : m.sink.room = none) (hsink : m₁.sink = m.sink)
    (hdepth : m₁.depth = m.depth) (hcurrent : m₁.env.current = m.env.current)
    (hsize : m₁.env.scopes.size = m.env.scopes.size) : m.Prints [] m₁ where
  sink := by
    rw [hsink, ← hm]
    exact congrArg (Sink.mk · m.sink.room) ByteArray.append_empty.symm
  depth := hdepth
  current := hcurrent
  least := Nat.le_of_eq hsize.symm
  most := by omega
  above := nofun

theorem Machine.Prints.trans (h : m.Prints ps m₁) (h' : m₁.Prints qs m₂) :
    m.Prints (ps ++ qs) m₂ where
  sink := by rw [h'.sink, h.sink, printed_append, ByteArray.append_assoc]
  depth := h'.depth.trans h.depth
  current := h'.current.trans h.current
  least := Nat.le_trans h.least h'.least
  most := by
    have hfirst := h.most
    have hsecond := h'.most
    omega
  above := List.forall_mem_append.2
    ⟨h.above, fun p hp => Nat.le_trans h.least (h'.above p hp)⟩

/-- It does not matter from which of two machines a run is stopped. -/
theorem Machine.Prints.stopped (h : m.Prints ps m₁) (p : Print) (written : ByteArray) :
    p.stopped m₁ written = p.stopped m written := by
  have hsize : max 1 m₁.env.scopes.size = max 1 m.env.scopes.size := by
    have hleast := h.least
    have hmost := h.most
    omega
  unfold Print.stopped Environment.backTo
  rw [hsize, h.depth, h.current]

/-- The prints inside a scope. -/
theorem Machine.Prints.within {parent : Handle}
    (h : Machine.Prints { m with env := m.env.push parent } ps m₁) :
    m.Prints ps { m₁ with env := m₁.env.pop m.env.current } := by
  obtain ⟨hsink, hdepth, -, hleast, hmost, habove⟩ := h
  simp only [Environment.size_push] at hleast hmost habove
  have hsize : m₁.env.scopes.size = m.env.scopes.size + 1 := by omega
  have hclosed : (m₁.env.pop m.env.current).scopes.size = max 1 m.env.scopes.size := by
    unfold Environment.pop
    dsimp only
    split
    · rw [Array.size_pop]
      omega
    · omega
  refine ⟨hsink, hdepth, rfl, ?_, Nat.le_of_eq hclosed, ?_⟩
  · dsimp only
    omega
  · exact fun p hp => Nat.le_of_succ_le (habove p hp)

end

/-- How a run from `m` ends that has so much room. The first outcome is that of the run without
limits, which makes the prints. If they fit, both end in the same way. If not, the run is stopped at
the first one that does not. -/
inductive Outcome.Truncated {α : Type} (m : Machine) (room : Nat) (ps : List Print) :
    Outcome Fault α → Outcome Fault α → Prop where
  | fits {o : Outcome Fault α} {m₁ : Machine} : o.machine? = some m₁ → m.Prints ps m₁ →
      (printed ps).size ≤ room →
      Truncated m room ps o (o.mapMachine (·.withRoom (some (room - (printed ps).size))))
  | cut {o : Outcome Fault α} {m₁ : Machine} {before after : List Print} {p : Print} :
      o.machine? = some m₁ → m.Prints ps m₁ → ps = before ++ p :: after →
      (printed before).size ≤ room → room < (printed before).size + p.bytes.size →
      Truncated m room ps o (.failed (.sinkFull p.line)
        (p.stopped m (m.sink.written ++ (printed ps).extract 0 room)))
  | exhausted {o : Outcome Fault α} : Truncated m room ps .exhausted o

/-- The watched run notes the prints of the run, which is only truncated with little room. -/
def Watched.Truncates {α : Type} (x : Watched α) (y : Eval α) : Prop :=
  ∀ m room, m.sink.room = none →
    (x m).outcome.Truncated m room (prints (x m).events) (y (m.withRoom (some room)))

/-- What the routines of the host print is noted, and with little room they are only truncated. -/
def Watched.Host.Truncates (w : Watched.Host) : Prop :=
  ∀ key args, (w key args).Truncates (w.host key args)

/-! ## Runs that print nothing, and prints -/

open Eval

section
variable {α β : Type}

theorem Outcome.Truncated.silent {m m₁ : Machine} {o : Outcome Fault α} (room : Nat)
    (ho : o.machine? = some m₁) (h : m.Prints [] m₁) :
    o.Truncated m room [] (o.mapMachine (·.withRoom (some room))) :=
  .fits ho h (Nat.zero_le _)

namespace Watched

theorem truncates_lift (r : Except Fault α) : (silent (lift r)).Truncates (lift r) := by
  intro m room hm
  cases r <;> exact .silent room rfl (.silent hm rfl rfl rfl rfl)

theorem truncates_pure (a : α) : (pure a : Watched α).Truncates (pure a) := truncates_lift (.ok a)

theorem truncates_time : (silent time).Truncates time :=
  fun _ room hm => .silent room rfl (.silent hm rfl rfl rfl rfl)

theorem truncates_get (name : Token) : (Watched.get name).Truncates (Eval.get name) :=
  fun m room hm => truncates_lift (m.env.read name) m room hm

theorem truncates_define (name : String) (v : Value) :
    (Watched.define name v).Truncates (Eval.define name v) :=
  fun _ room hm => .silent room rfl (.silent hm rfl rfl rfl (Environment.size_bind ..))

theorem truncates_defineFunction (f : Function) :
    (Watched.defineFunction f).Truncates (Eval.defineFunction f) :=
  fun _ room hm => .silent room rfl (.silent hm rfl rfl rfl (Environment.size_bind ..))

theorem truncates_assign (name : Token) (v : Value) :
    (Watched.assign name v).Truncates (Eval.assign name v) := by
  intro m room hm
  show ((lift (m.env.write name v) >>= fun env => modify fun m => { m with env }) m).Truncated _ _
    [] ((lift (m.env.write name v) >>= fun env => modify fun m => { m with env })
      (m.withRoom (some room)))
  rw [Environment.write_eq]
  cases m.env.resolve? name.lexeme with
  | none => exact .silent room rfl (.silent hm rfl rfl rfl rfl)
  | some handle => exact .silent room rfl (.silent hm rfl rfl rfl (Environment.size_bind ..))

/-- A reply from outside does not depend on the room. -/
theorem truncates_outside (reply : Reply) : (silent (outside reply)).Truncates (outside reply) := by
  intro m room hm
  show (outside reply m).Truncated m room [] (outside reply (m.withRoom (some room)))
  unfold outside
  dsimp only [Machine.withRoom]
  cases reply m.clock.coming with
  | none => exact .exhausted
  | some x =>
    obtain ⟨_ | _, _⟩ := x <;> exact .silent room rfl (.silent hm rfl rfl rfl rfl)

/-- A print takes what fits, and fails if that is not all. -/
theorem truncates_print (line : Nat) (v : Value) :
    (Watched.print line v).Truncates (Eval.print line v) := by
  intro m room hm
  show (Eval.print line v m).Truncated m room [⟨line, (v.shown ++ "\n").toUTF8, m⟩]
    (Eval.print line v (m.withRoom (some room)))
  unfold Eval.print
  generalize (v.shown ++ "\n").toUTF8 = bytes
  have hall : printed [⟨line, bytes, m⟩] = bytes := ByteArray.append_empty
  have hprints : m.Prints [⟨line, bytes, m⟩] { m with sink := ⟨m.sink.written ++ bytes, none⟩ } :=
    ⟨by rw [hall], rfl, rfl, Nat.le_refl _, Nat.le_max_right .., by simp⟩
  simp only [Sink.write, hm, Machine.withRoom]
  by_cases hfits : bytes.size ≤ room
  · have htaken : bytes.extract 0 room = bytes := extract_of_size_le hfits
    simp only [hfits, decide_true, htaken]
    have h := @Outcome.Truncated.fits Unit m room _ (.done () _) _ rfl hprints (by rwa [hall])
    rwa [hall] at h
  · simp only [hfits, decide_false]
    have h := @Outcome.Truncated.cut Unit m room _ (.done () _) _ [] [] _ rfl hprints rfl
      (Nat.zero_le _) (by simpa [printed] using hfits)
    rw [hall, Print.stopped, Environment.backTo_self] at h
    rwa [show room - bytes.size = 0 by omega]

end Watched

/-! ## Runs put together -/

/-- A run behind one whose prints fit. -/
theorem Outcome.Truncated.behind {m m₁ : Machine} {room : Nat} {ps qs : List Print}
    {o o' : Outcome Fault α} (h : o.Truncated m₁ (room - (printed ps).size) qs o')
    (hfirst : m.Prints ps m₁) (hfits : (printed ps).size ≤ room) :
    o.Truncated m room (ps ++ qs) o' := by
  have hsize : (printed (ps ++ qs)).size = (printed ps).size + (printed qs).size := by
    rw [printed_append, ByteArray.size_append]
  cases h with
  | fits hends hprints hle =>
    rw [Nat.sub_sub, ← hsize]
    exact .fits hends (hfirst.trans hprints) (by omega)
  | @cut _ _ before after p hends hprints hsplit hle hlt =>
    have hwritten : m₁.sink.written ++ (printed qs).extract 0 (room - (printed ps).size) =
        m.sink.written ++ (printed (ps ++ qs)).extract 0 room := by
      rw [hfirst.sink, printed_append, ByteArray.extract_append, ByteArray.append_assoc,
        extract_of_size_le hfits, Nat.zero_sub]
    rw [hfirst.stopped, hwritten]
    have hall : ps ++ qs = (ps ++ before) ++ p :: after := by rw [hsplit, List.append_assoc]
    refine .cut hends (hfirst.trans hprints) hall ?_ ?_
    · rw [printed_append, ByteArray.size_append]
      omega
    · rw [printed_append, ByteArray.size_append]
      omega
  | exhausted => exact .exhausted

/-- A run behind one that was stopped has no effect. -/
theorem Outcome.Truncated.after {m m₁ m₂ : Machine} {room : Nat} {ps qs before behind : List Print}
    {p : Print} {o : Outcome Fault α} (ho : o.machine? = some m₂) (hfirst : m.Prints ps m₁)
    (hsecond : m₁.Prints qs m₂) (hsplit : ps = before ++ p :: behind)
    (hle : (printed before).size ≤ room) (hlt : room < (printed before).size + p.bytes.size) :
    o.Truncated m room (ps ++ qs) (.failed (.sinkFull p.line)
      (p.stopped m (m.sink.written ++ (printed ps).extract 0 room))) := by
  have hsize : room ≤ (printed ps).size := by
    rw [hsplit, printed_append, printed_cons, ByteArray.size_append, ByteArray.size_append]
    omega
  have hwritten : (printed ps).extract 0 room = (printed (ps ++ qs)).extract 0 room := by
    rw [printed_append, ByteArray.extract_append, Nat.sub_eq_zero_of_le hsize, Nat.zero_sub,
      ByteArray.extract_same, ByteArray.append_empty]
  rw [hwritten]
  have hall : ps ++ qs = before ++ p :: (behind ++ qs) := by
    rw [hsplit, List.append_assoc, List.cons_append]
  exact .cut ho (hfirst.trans hsecond) hall hle hlt

theorem Outcome.machine?_mapMachine (o : Outcome Fault α) (f : Machine → Machine) :
    (o.mapMachine f).machine? = o.machine?.map f := by
  cases o <;> rfl

/-- Something is closed behind a run, whether that was stopped or not. -/
theorem Outcome.Truncated.mapMachine {m inside : Machine} {room : Nat} {ps : List Print}
    {o o' : Outcome Fault α} (h : o.Truncated inside room ps o') {close : Machine → Machine}
    (hwritten : inside.sink.written = m.sink.written)
    (hprints : ∀ m₁, inside.Prints ps m₁ → m.Prints ps (close m₁))
    (hroom : ∀ m₁ r, close (m₁.withRoom r) = (close m₁).withRoom r)
    (hstopped : ∀ p ∈ ps, inside.env.scopes.size ≤ p.before.env.scopes.size → ∀ written,
      close (p.stopped inside written) = p.stopped m written) :
    (o.mapMachine close).Truncated m room ps (o'.mapMachine close) := by
  cases h with
  | exhausted => exact .exhausted
  | @fits _ m₁ hends hinside hle =>
    have hends' : (o.mapMachine close).machine? = some (close m₁) := by
      rw [machine?_mapMachine, hends]
      rfl
    have hswap : (o.mapMachine (·.withRoom (some (room - (printed ps).size)))).mapMachine close =
        (o.mapMachine close).mapMachine (·.withRoom (some (room - (printed ps).size))) := by
      cases o <;> simp only [Outcome.mapMachine, hroom]
    rw [hswap]
    exact .fits hends' (hprints m₁ hinside) hle
  | @cut _ m₁ before after p hends hinside hsplit hle hlt =>
    have hends' : (o.mapMachine close).machine? = some (close m₁) := by
      rw [machine?_mapMachine, hends]
      rfl
    have hp : p ∈ ps := by simp [hsplit]
    rw [Outcome.mapMachine, hstopped p hp (hinside.above p hp), hwritten]
    exact .cut hends' (hprints m₁ hinside) hsplit hle hlt

namespace Watched

/-- The prints of a second run come behind those of the first one. -/
theorem Truncates.bind {x : Watched α} {y : Eval α} {f : α → Watched β} {g : α → Eval β}
    (hx : x.Truncates y) (hf : ∀ a, (f a).Truncates (g a)) : (x >>= f).Truncates (y >>= g) := by
  intro m room hm
  have hfirst := hx m room hm
  show (Watched.bind x f m).outcome.Truncated m room (prints (Watched.bind x f m).events)
    (Eval.bind y g (m.withRoom (some room)))
  unfold Watched.bind Eval.bind
  generalize (x m).events = es, (x m).outcome = first,
    y (m.withRoom (some room)) = limited at hfirst
  cases hfirst with
  | exhausted => exact .exhausted
  | @fits _ m₁ hends hprints hle =>
    cases first with
    | done a m =>
      cases hends
      rw [prints_append]
      exact (hf a m₁ _ (by rw [hprints.sink])).behind hprints hle
    | failed f m => exact .fits hends hprints hle
    | exhausted => cases hends
  | @cut _ m₁ before after p hends hprints hsplit hle hlt =>
    cases first with
    | done a m =>
      cases hends
      -- how much room the second run would have does not matter any more
      have hsecond := hf a m₁ 0 (by rw [hprints.sink])
      dsimp only
      rw [prints_append]
      generalize (f a m₁).events = es', (f a m₁).outcome = second,
        g a (m₁.withRoom _) = limited at hsecond
      cases hsecond with
      | exhausted => exact .exhausted
      | fits hends' hprints' | cut hends' hprints' =>
        exact .after hends' hprints hprints' hsplit hle hlt
    | failed f m => exact .cut hends hprints hsplit hle hlt
    | exhausted => cases hends

theorem Truncates.within {x : Watched α} {y : Eval α} (h : x.Truncates y) (parent : Handle) :
    (Watched.within parent x).Truncates (Eval.within parent y) := by
  intro m room hm
  have hinside := h { m with env := m.env.push parent } room hm
  unfold Watched.within
  dsimp only
  generalize x { m with env := m.env.push parent } = c at hinside
  obtain ⟨events, o⟩ := c
  have hsame : prints (⟨.access (.push parent), m⟩ :: events ++
      behind (.access (.pop m.env.current)) o) = prints events := by
    cases o <;> simp [behind, prints]
  rw [hsame]
  refine hinside.mapMachine rfl (fun m₁ h => h.within) (fun _ _ => rfl)
    fun p hp habove written => ?_
  have hclosed : (p.before.env.backTo (m.env.push parent).scopes.size
      (m.env.push parent).current).pop m.env.current =
        p.before.env.backTo m.env.scopes.size m.env.current := by
    rw [Environment.size_push] at habove ⊢
    exact Environment.pop_backTo habove _ _
  unfold Print.stopped
  dsimp only
  rw [hclosed]

theorem Truncates.counted {x : Watched α} {y : Eval α} (h : x.Truncates y) (closing : Token)
    (name : String) (arguments : Nat) :
    (Watched.counted closing name arguments x).Truncates
      (Eval.counted closing.line name arguments y) := by
  intro m room hm
  have hdepth : (m.withRoom (some room)).depth = m.depth := rfl
  unfold Watched.counted Eval.counted
  rw [hdepth]
  split
  · exact .silent room rfl (.silent hm rfl rfl rfl rfl)
  · have hinside := h { m with
      depth := m.depth + 1, log := m.log.push ⟨name, arguments, m.depth⟩ } room hm
    dsimp only
    generalize x _ = c at hinside
    obtain ⟨events, o⟩ := c
    have hsame : prints (⟨.call (.enter name arguments), m⟩ :: events ++
        behind (.call .leave) o) = prints events := by
      cases o <;> simp [behind, prints]
    rw [hsame]
    refine hinside.mapMachine rfl (fun m₁ h => ?_) (fun _ _ => rfl) fun _ _ _ _ => rfl
    exact { h with depth := congrArg (· - 1) h.depth }

end Watched

end

open Watched

theorem truncates_traversal {w : Watched.Host} (hw : w.Truncates) :
    Traversal .everything (fun _ : Unit => true) w w.host 0 (fun _ _ => Watched.Truncates)
      fun _ _ => Watched.Truncates where
  lift _ _ x _ _ := truncates_lift x
  bind hx hf := hx.bind fun a => hf a (Ruled.of_lax lax_everything rfl a)
  get _ _ name _ := truncates_get name
  assign _ _ name v _ _ := truncates_assign name v
  define _ _ name v _ _ := truncates_define name.lexeme v
  defineFunction _ _ f _ _ := truncates_defineFunction f
  print _ _ keyword v _ := truncates_print keyword.line v
  counted _ _ _ _ _ hx := (hx ()).counted _ _ _
  block hx := fun m => (hx () rfl).within m.env.current m
  stop _ _ _ _ _ := fun _ _ _ => .exhausted
  native _ _ f args _ _ := by
    unfold Watched.native Native.invoke
    cases f.routine with
    | clock => exact truncates_time
    | foreign key => exact hw key args
  body hx := ((hx () rfl).within 0).bind fun _ => truncates_pure Value.nil
  zero _ _ _ := fun _ _ _ => .exhausted

/-- A host that stays outside prints nothing. -/
theorem Host.Aloof.truncates {host : Host} (hhost : host.Aloof) : host.unwatched.Truncates := by
  intro key args
  obtain ⟨reply, hreply⟩ := hhost key args
  rw [Host.host_unwatched, Host.unwatched, hreply]
  exact truncates_outside reply

/-! ## Steps of a session -/

theorem Outcome.mapError_mapMachine {ε ε' α : Type} (o : Outcome ε α) (f : ε → ε')
    (g : Machine → Machine) : (o.mapMachine g).mapError f = (o.mapError f).mapMachine g := by
  cases o <;> rfl

/-- A sink that fills up only truncates. Suppose that the run of a source text ends on a sink
without limits, where it makes the prints `ps`. On a sink with room for so many more bytes it ends
too. If all that is printed fits, it ends in the same way. If not, it writes as much as fits and
fails on the line of the statement that prints the next byte. The machine is then as that statement
found it, apart from the sink, with the scopes and calls closed that were opened since the start: so
nothing behind that statement has an effect. -/
theorem run_truncated {w : Watched.Host} (hw : w.Truncates) {source : String} {ss : List Stmt}
    (hsource : Program.ofSource source = .ok ss) {n : Nat} {m m₁ : Machine}
    (hends : (Session.run w.host n source (m.withRoom none)).machine? = some m₁) (room : Nat)
    {ps : List Print} (hps : prints (Watched.eventsOf w n source (m.withRoom none)) = ps) :
    m₁.sink = ⟨m.sink.written ++ printed ps, none⟩ ∧
    ((printed ps).size ≤ room →
      Session.run w.host n source (m.withRoom (some room)) =
        (Session.run w.host n source (m.withRoom none)).mapMachine
          (·.withRoom (some (room - (printed ps).size)))) ∧
    (room < (printed ps).size → ∃ before p after, ps = before ++ p :: after ∧
      (printed before).size ≤ room ∧ room < (printed before).size + p.bytes.size ∧
      Session.run w.host n source (m.withRoom (some room)) =
        .failed (.runtime (.sinkFull p.line))
          (p.stopped m (m.sink.written ++ (printed ps).extract 0 room))) := by
  have hrun := (truncates_traversal hw).execute n () (Stmt.obeysAll_everything true ss)
    (m.withRoom none) room rfl
  simp only [Watched.eventsOf, hsource] at hps
  rw [outcome_execute, hps] at hrun
  simp only [Session.run, hsource, Outcome.machine?_mapError] at hends ⊢
  change Outcome.Truncated _ _ _ _ (Session.execute w.host n ss (m.withRoom (some room))) at hrun
  generalize Session.execute w.host n ss (m.withRoom none) = o,
    Session.execute w.host n ss (m.withRoom (some room)) = limited at hrun hends
  cases hrun with
  | exhausted => cases hends
  | fits hends' hprints hle =>
    cases hends.symm.trans hends'
    refine ⟨hprints.sink, fun _ => Outcome.mapError_mapMachine .., fun hlt => ?_⟩
    omega
  | cut hends' hprints hsplit hle hlt =>
    cases hends.symm.trans hends'
    refine ⟨hprints.sink, fun hfits => ?_, fun _ => ⟨_, _, _, hsplit, hle, hlt, rfl⟩⟩
    rw [hsplit, printed_append, printed_cons, ByteArray.size_append, ByteArray.size_append] at hfits
    omega

/-- Two calls of a function inside a block, each of which prints a letter of two bytes. -/
def greetsTwice : String :=
  "gøremål hils(hvem) \x7b\n  skriv hvem;\n\x7d\n\x7b hils(\"å\"); hils(\"ø\"); \x7d skriv \"z\";"

/-- There is room for the first line and for half of the letter behind it. -/
theorem greetsTwice_truncated :
    ∃ ps before p after,
      prints (Watched.eventsOf Host.bare.unwatched 1 greetsTwice (.start (.fixed 0) none)) = ps ∧
      ps = before ++ p :: after ∧
      (printed before).size ≤ 4 ∧ 4 < (printed before).size + p.bytes.size ∧
      Session.run .bare 1 greetsTwice (.start (.fixed 0) (some 4)) =
        .failed (.runtime (.sinkFull p.line))
          (p.stopped (.start (.fixed 0) none) (.empty ++ (printed ps).extract 0 4)) ∧
      p.line = 2 := by
  obtain ⟨ss, hsource⟩ : ∃ ss, Program.ofSource greetsTwice = .ok ss :=
    exists_of_toBool (by decide +kernel)
  have hsome : (Session.run .bare 1 greetsTwice (.start (.fixed 0) none)).machine?.isSome := by
    decide +kernel
  obtain ⟨m₁, hends⟩ := Option.isSome_iff_exists.1 hsome
  have hlong : 4 < (printed (prints (Watched.eventsOf Host.bare.unwatched 1 greetsTwice
      (.start (.fixed 0) none)))).size := by
    decide +kernel
  have hall := run_truncated Host.aloof_bare.truncates (m := .start (.fixed 0) none) hsource hends 4
    rfl
  have hcut := hall.2.2 hlong
  obtain ⟨before, p, after, hsplit, hle, hlt, hrun⟩ := hcut
  have hline :
      (Session.run .bare 1 greetsTwice (.start (.fixed 0) (some 4))).fault?.map Fault.line =
        some 2 := by
    decide +kernel
  refine ⟨_, before, p, after, rfl, hsplit, hle, hlt, hrun, ?_⟩
  have hwhere : Machine.start (.fixed 0) (some 4) =
    (Machine.start (.fixed 0) none).withRoom (some 4) := rfl
  rw [hwhere, ← Host.host_unwatched .bare, hrun] at hline
  exact Option.some.inj hline

end Sprog
