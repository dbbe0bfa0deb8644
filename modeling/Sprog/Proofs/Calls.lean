import Sprog.Proofs.Allowance
import Sprog.Proofs.Discipline

/-!
# How deep calls go

A watched run notes what happens to calls. The calls of every run nest, and the number of active
calls that a machine carries is the number of calls that were entered and not left. So is the depth
of every call in its log. A run that ends, with a value or with a fault, has left every call that it
entered. It overflows if and only if it is refused a call, and then it fails at once.

The routines of the host may call callables as well, in whatever way. What they call has to be
counted like any other call, and they have to hand on the fault if they are refused one and must not
make one up (`Watched.Host.Counted`). A routine that makes no calls only must not overflow.

* `Watched.Called`: the events nest and account for the depth and the log.
* `called_traversal`: this holds of all parts of runs.
* `run_callDepth`: what follows for the steps of a session.
-/
namespace Sprog

open CallEvent Event

/-! ## What events account for -/

/-- No call is refused. -/
def CallEvent.Quiet (es : List CallEvent) : Prop := ∀ e ∈ es, e.isRefuse = false

/-- How the events of a run end that fails: no call was refused and the fault is no overflow, or the
last call was refused, which is the fault, and only calls were left behind it. -/
inductive CallEvent.Fails : Fault → List CallEvent → Prop where
  | otherwise {f : Fault} {es : List CallEvent} : Quiet es → f.isOverflow = false → Fails f es
  | refused {before : List CallEvent} {closing : Token} {name : String} {arguments k : Nat} :
      Quiet before → Fails (.stackOverflow closing.line)
        (before ++ .refuse closing name arguments :: List.replicate k .leave)

/-- Between two machines of a run the events happened, and all calls that were entered were left. -/
structure Machine.Counts (m : Machine) (es : List CallEvent) (m' : Machine) : Prop where
  nests : Nests m.depth es m.depth
  depth : m'.depth = m.depth
  log : m'.log.toList = m.log.toList ++ records m.depth es

/-- How a run on `m` may end when the events happened. -/
inductive Outcome.Called {α : Type} (m : Machine) (es : List CallEvent) :
    Outcome Fault α → Prop where
  | done {a : α} {m' : Machine} : m.Counts es m' → Quiet es → Called m es (.done a m')
  | failed {f : Fault} {m' : Machine} : m.Counts es m' → Fails f es → Called m es (.failed f m')
  | exhausted {d : Nat} : Nests m.depth es d → Quiet es → Called m es .exhausted

/-- What happens to calls in the run accounts for the depth and the log. -/
def Watched.Called {α : Type} (x : Watched α) : Prop :=
  ∀ m, m.depth ≤ Eval.callLimit → (x m).outcome.Called m (calls (x m).events)

/-- What the routines of the host call is counted, and no routine overflows but by a call. -/
def Watched.Host.Counted (w : Watched.Host) : Prop :=
  ∀ key args, (w key args).Called

theorem CallEvent.quiet_nil : Quiet [] := by simp [Quiet]

theorem CallEvent.Quiet.append {es es' : List CallEvent} (h : Quiet es) (h' : Quiet es') :
    Quiet (es ++ es') :=
  List.forall_mem_append.2 ⟨h, h'⟩

theorem CallEvent.Fails.behind {f : Fault} {es es' : List CallEvent} (h : Fails f es')
    (hes : Quiet es) : Fails f (es ++ es') := by
  cases h with
  | otherwise h hf => exact .otherwise (hes.append h) hf
  | refused h =>
    rw [← List.append_assoc]
    exact .refused (hes.append h)

/-- A call that is left because what it called has failed. -/
theorem CallEvent.Fails.leave {f : Fault} {es : List CallEvent} (h : Fails f es) :
    Fails f (es ++ [.leave]) := by
  cases h with
  | otherwise h hf => exact .otherwise (h.append (by simp [Quiet, isRefuse])) hf
  | refused h =>
    rw [List.append_assoc, List.cons_append, ← List.replicate_succ']
    exact .refused h

theorem Machine.Counts.silent {m m' : Machine} (hdepth : m'.depth = m.depth)
    (hlog : m'.log = m.log) : m.Counts [] m' :=
  ⟨.nil, hdepth, by simp [hlog, records]⟩

theorem Machine.Counts.trans {m m₁ m₂ : Machine} {es es' : List CallEvent} (h : m.Counts es m₁)
    (h' : m₁.Counts es' m₂) : m.Counts (es ++ es') m₂ := by
  obtain ⟨hnests, hdepth, hlog⟩ := h'
  rw [h.depth] at hnests hdepth hlog
  refine ⟨h.nests.append hnests, hdepth, ?_⟩
  rw [hlog, h.log, h.nests.records_append, List.append_assoc]

/-! ## Parts of runs -/

section
variable {α β : Type}

theorem Outcome.Called.behind {m m₁ : Machine} {es es' : List CallEvent} {o : Outcome Fault α}
    (h : o.Called m₁ es') (hfirst : m.Counts es m₁) (hquiet : Quiet es) :
    o.Called m (es ++ es') := by
  cases h with
  | done hcounts h => exact .done (hfirst.trans hcounts) (hquiet.append h)
  | failed hcounts hf => exact .failed (hfirst.trans hcounts) (hf.behind hquiet)
  | exhausted hnests h =>
    rw [hfirst.depth] at hnests
    exact .exhausted (hfirst.nests.append hnests) (hquiet.append h)

/-- A call that is entered is logged, and left behind what happens in it. -/
theorem Machine.Counts.entered {m m' : Machine} {es : List CallEvent} {name : String}
    {arguments : Nat} (hlt : m.depth < Eval.callLimit)
    (h : Machine.Counts { m with
      depth := m.depth + 1, log := m.log.push ⟨name, arguments, m.depth⟩ } es m') :
    m.Counts (.enter name arguments :: es ++ [.leave]) { m' with depth := m'.depth - 1 } := by
  refine ⟨.enter hlt (h.nests.append (.leave .nil)), ?_, ?_⟩
  · have hdepth := h.depth
    dsimp only at hdepth ⊢
    omega
  · have hrecords := h.nests.records_append [.leave]
    have hlog := h.log
    dsimp only at hrecords hlog ⊢
    rw [List.cons_append, records, hrecords, hlog]
    simp [records]

/-- How a run may end that makes no calls: the depth and the log are as before, and it does not
overflow. -/
inductive Outcome.Uncalled (m : Machine) : Outcome Fault α → Prop where
  | done {a : α} {m' : Machine} : m'.depth = m.depth → m'.log = m.log → Uncalled m (.done a m')
  | failed {f : Fault} {m' : Machine} : m'.depth = m.depth → m'.log = m.log →
      f.isOverflow = false → Uncalled m (.failed f m')
  | exhausted : Uncalled m .exhausted

theorem Outcome.Uncalled.called {m : Machine} {o : Outcome Fault α} (h : o.Uncalled m) :
    o.Called m [] := by
  cases h with
  | done hdepth hlog => exact .done (.silent hdepth hlog) quiet_nil
  | failed hdepth hlog hf => exact .failed (.silent hdepth hlog) (.otherwise quiet_nil hf)
  | exhausted => exact .exhausted .nil quiet_nil

namespace Watched

theorem called_silent {x : Eval α} (hx : ∀ m, (x m).Uncalled m) : (silent x).Called :=
  fun m _ => (hx m).called

theorem called_lift {x : Except Fault α} (hx : ∀ f, x = .error f → f.isOverflow = false) :
    (silent (.lift x)).Called := by
  refine called_silent fun m => ?_
  cases x with
  | ok a => exact .done rfl rfl
  | error f => exact .failed rfl rfl (hx f rfl)

theorem called_get (name : Token) : (Watched.get name).Called := by
  refine fun m _ => Outcome.Uncalled.called ?_
  show (Eval.lift (m.env.read name) m).Uncalled m
  unfold Environment.read
  cases m.env.get? name.lexeme with
  | some v => exact .done rfl rfl
  | none => exact .failed rfl rfl rfl

theorem called_assign (name : Token) (v : Value) : (Watched.assign name v).Called := by
  refine fun m _ => Outcome.Uncalled.called ?_
  show ((Eval.lift (m.env.write name v) >>= fun env => Eval.modify fun m => { m with env })
    m).Uncalled m
  unfold Environment.write
  cases m.env.assign? name.lexeme v with
  | some e => exact .done rfl rfl
  | none => exact .failed rfl rfl rfl

theorem called_print (line : Nat) (v : Value) : (Watched.print line v).Called := by
  refine fun m _ => Outcome.Uncalled.called ?_
  show (Eval.print line v m).Uncalled m
  unfold Eval.print
  rcases m.sink.write (v.shown ++ "\n").toUTF8 with ⟨sink, _ | _⟩
  · exact .failed rfl rfl rfl
  · exact .done rfl rfl

/-- The events of a second run happen behind those of the first one. -/
theorem Called.bind {x : Watched α} {f : α → Watched β} (hx : x.Called)
    (hf : ∀ a, (f a).Called) : (x >>= f).Called := by
  intro m hm
  have hfirst := hx m hm
  show (Watched.bind x f m).outcome.Called m (calls (Watched.bind x f m).events)
  unfold Watched.bind
  generalize (x m).outcome = o at hfirst
  cases hfirst with
  | done hcounts hquiet =>
    rw [calls_append]
    exact (hf _ _ (hcounts.depth.symm ▸ hm)).behind hcounts hquiet
  | failed hcounts hfails => exact .failed hcounts hfails
  | exhausted hnests hquiet => exact .exhausted hnests hquiet

/-- A scope of its own has nothing to do with calls. -/
theorem Called.within {x : Watched α} (hx : x.Called) (parent : Handle) :
    (Watched.within parent x).Called := by
  intro m hm
  have hinside := hx { m with env := m.env.push parent } hm
  unfold Watched.within
  dsimp only
  generalize x { m with env := m.env.push parent } = c at hinside
  obtain ⟨events, o⟩ := c
  have hsame : calls (⟨.access (.push parent), m⟩ :: events ++
      behind (.access (.pop m.env.current)) o) = calls events := by
    cases o <;> simp [behind, calls]
  rw [hsame]
  cases hinside with
  | done h hquiet => exact .done ⟨h.nests, h.depth, h.log⟩ hquiet
  | failed h hf => exact .failed ⟨h.nests, h.depth, h.log⟩ hf
  | exhausted hnests hquiet => exact .exhausted hnests hquiet

/-- A call is refused at the limit. Below it, it is entered, and left however it ends. -/
theorem Called.counted {x : Watched α} (hx : x.Called) (closing : Token) (name : String)
    (arguments : Nat) : (Watched.counted closing name arguments x).Called := by
  intro m hm
  unfold Watched.counted
  split
  · rename_i hlimit
    -- `hm` is what makes the number of active calls exactly the limit
    have hnests : Nests m.depth [.refuse closing name arguments] m.depth :=
      .refuse (Nat.le_antisymm hm hlimit) .nil
    have hfails : Fails (.stackOverflow closing.line)
      ([] ++ .refuse closing name arguments :: List.replicate 0 .leave) := .refused quiet_nil
    exact .failed ⟨hnests, rfl, by simp [calls, records]⟩ hfails
  · rename_i hlimit
    have hlt : m.depth < Eval.callLimit := Nat.lt_of_not_le hlimit
    have hinside := hx { m with
      depth := m.depth + 1, log := m.log.push ⟨name, arguments, m.depth⟩ } hlt
    have henter : Quiet [.enter name arguments] := by simp [Quiet, isRefuse]
    have hleave : Quiet [.leave] := by simp [Quiet, isRefuse]
    dsimp only
    generalize x _ = c at hinside
    obtain ⟨events, o⟩ := c
    have hlast (m' : Machine) : calls (⟨.call (.enter name arguments), m⟩ :: events ++
        [⟨.call .leave, m'⟩]) = .enter name arguments :: calls events ++ [.leave] :=
      calls_append (⟨.call (.enter name arguments), m⟩ :: events) [⟨.call .leave, m'⟩]
    cases hinside with
    | done h hquiet =>
      rw [behind, hlast]
      exact .done (h.entered hlt) ((henter.append hquiet).append hleave)
    | failed h hf =>
      rw [behind, hlast]
      exact .failed (h.entered hlt) (hf.behind henter).leave
    | exhausted hnests hquiet =>
      rw [behind, List.append_nil]
      exact .exhausted (.enter hlt hnests) (henter.append hquiet)

end Watched

end

open Watched

theorem called_traversal {w : Watched.Host} (hw : w.Counted) :
    Traversal .everything (fun _ : Unit => true) w w.host 0 (fun _ _ x _ => x.Called)
      fun _ _ x _ => x.Called where
  lift _ _ _ _ herror := called_lift fun f hf => (herror f hf).not_overflow
  bind hx hf := hx.bind fun a => hf a (Ruled.of_lax lax_everything rfl a)
  get _ _ name _ := called_get name
  assign _ _ name v _ _ := called_assign name v
  define _ _ _ _ _ _ := fun _ _ => .done (.silent rfl rfl) quiet_nil
  defineFunction _ _ _ _ _ := fun _ _ => .done (.silent rfl rfl) quiet_nil
  print _ _ keyword v _ := called_print keyword.line v
  counted _ _ _ _ _ hx := (hx ()).counted _ _ _
  block hx := fun m => (hx () rfl).within m.env.current m
  stop _ _ _ _ _ := called_silent fun _ => .exhausted
  native _ _ f args _ _ := by
    unfold Watched.native
    cases f.routine with
    | clock => exact called_silent fun _ => .done rfl rfl
    | foreign key => exact hw key args
  body hx := ((hx () rfl).within 0).bind fun _ => called_silent fun _ => .done rfl rfl
  zero _ _ _ := called_silent fun _ => .exhausted

theorem called_invoke {w : Watched.Host} (hw : w.Counted) (n : Nat) (c : Callable)
    (args : List Value) : (Watched.invoke w n c args).Called :=
  (called_traversal hw).invoke n () c args ((Value.callable c).obeys_of_lax lax_everything rfl)
    (Ruled.of_lax lax_everything rfl args)

/-- A host whose routines make no calls and do not overflow. -/
theorem Host.counted_unwatched {host : Host}
    (h : ∀ key args m, (host key args m).Uncalled m) : host.unwatched.Counted :=
  fun key args => called_silent (h key args)

/-! ## Steps of a session -/

/-- The calls of a step that starts with no call active, by the events and by how it ended. -/
structure Outcome.CountsCalls (m : Machine) (es : List CallEvent) (o : Outcome Failure Unit) :
    Prop where
  /-- The first call is entered when none is active. -/
  first : ∀ r ∈ (records 0 es).head?, r.depth = 0
  /-- A call is at most one deeper than the call before it. -/
  steps : (records 0 es).IsChain fun r r' => r'.depth ≤ r.depth + 1
  /-- No call is deeper than this. -/
  bounded : ∀ r ∈ records 0 es, r.depth ≤ 254
  /-- The depth of a call is the number of calls that were entered and not left. -/
  entered : ∀ before name arguments after, es = before ++ .enter name arguments :: after →
    active before < 255 ∧
      ∃ rest, records 0 es = records 0 before ++ ⟨name, arguments, active before⟩ :: rest
  /-- However the step ends, no call is active, and the log has grown by the calls entered. -/
  ended : ∀ m', o.machine? = some m' →
    m'.depth = 0 ∧ m'.log.toList = m.log.toList ++ records 0 es
  /-- A call is refused only when 255 are active, one of each depth, and the step fails there. -/
  refused : ∀ before closing name arguments after,
    es = before ++ .refuse closing name arguments :: after →
      active before = 255 ∧
      (List.range 255).Sublist ((records 0 before).map CallRecord.depth) ∧
      ∃ m', o = .failed (.runtime (.stackOverflow closing.line)) m'
  /-- The step overflows only if it is refused a call. -/
  overflow : ∀ line m', o = .failed (.runtime (.stackOverflow line)) m' →
    ∃ before closing name arguments after,
      es = before ++ .refuse closing name arguments :: after ∧ closing.line = line

section
variable {es before after : List CallEvent} {d : Nat}

/-- A call is entered with the number of active calls as its depth. -/
theorem CallEvent.Nests.entered (h : Nests 0 es d) {name : String} {arguments : Nat}
    (hsplit : es = before ++ .enter name arguments :: after) :
    active before < 255 ∧
      ∃ rest, records 0 es = records 0 before ++ ⟨name, arguments, active before⟩ :: rest := by
  subst hsplit
  obtain ⟨d', hbefore, hafter⟩ := h.of_append
  rw [hbefore.active_eq, hbefore.records_append]
  cases hafter with
  | enter hlt _ => exact ⟨hlt, _, rfl⟩

/-- A call is refused with as many active calls as there may be. -/
theorem CallEvent.Nests.refused (h : Nests 0 es d) {closing : Token} {name : String}
    {arguments : Nat} (hsplit : es = before ++ .refuse closing name arguments :: after) :
    active before = 255 ∧
      (List.range 255).Sublist ((records 0 before).map CallRecord.depth) := by
  subst hsplit
  obtain ⟨d', hbefore, hafter⟩ := h.of_append
  cases hafter with
  | refuse hd _ =>
    subst hd
    have hrange := hbefore.range_sublist
    rw [Nat.sub_zero, ← List.range_eq_range'] at hrange
    exact ⟨hbefore.active_eq, hrange⟩

/-- The fault of a run in which a call was refused. -/
theorem CallEvent.Fails.eq_of_mem {f : Fault} (h : Fails f es) {closing : Token} {name : String}
    {arguments : Nat} (hmem : .refuse closing name arguments ∈ es) :
    f = .stackOverflow closing.line := by
  cases h with
  | otherwise hquiet _ => cases hquiet _ hmem
  | refused hquiet =>
    rcases List.mem_append.1 hmem with hmem | hmem
    · cases hquiet _ hmem
    · rcases List.mem_cons.1 hmem with heq | hmem
      · cases heq
        rfl
      · cases List.eq_of_mem_replicate hmem

end

/-- The calls of a program, if no call is active before it. -/
theorem Outcome.Called.countsCalls {m : Machine} {es : List CallEvent} {o : Outcome Fault Unit}
    (h : o.Called m es) (hm : m.depth = 0) :
    (o.mapError Failure.runtime).CountsCalls m es := by
  obtain ⟨d, hnests⟩ : ∃ d, Nests 0 es d := by
    cases h with
    | done h _ | failed h _ => exact ⟨_, hm ▸ h.nests⟩
    | exhausted h _ => exact ⟨_, hm ▸ h⟩
  refine ⟨fun r hr => Nat.le_zero.1 (hnests.head_le r hr), hnests.isChain_records,
    fun r hr => Nat.le_of_lt_succ (hnests.depth_lt r hr), ?_, ?_, ?_, ?_⟩
  · intro before name arguments after hsplit
    exact hnests.entered hsplit
  · intro m' hm'
    cases h with
    | done h _ | failed h _ =>
      cases hm'
      exact ⟨h.depth.trans hm, hm ▸ h.log⟩
    | exhausted => cases hm'
  · intro before closing name arguments after hsplit
    have hmem : .refuse closing name arguments ∈ es := by simp [hsplit]
    obtain ⟨hactive, hrange⟩ := hnests.refused hsplit
    refine ⟨hactive, hrange, ?_⟩
    cases h with
    | done _ hquiet | exhausted _ hquiet => cases hquiet _ hmem
    | failed _ hf =>
      rw [hf.eq_of_mem hmem]
      exact ⟨_, rfl⟩
  · intro line m' hline
    cases h with
    | done | exhausted => cases hline
    | failed _ hf =>
      cases hline
      cases hf with
      | otherwise _ hf => cases hf
      | refused _ => exact ⟨_, _, _, _, _, rfl, rfl⟩

/-- The depth of calls is counted exactly, in every step of a session that starts with no call
active, whatever functions are stored and however the step ends, or does not. What the routines of
the host call has to be counted, and they must not overflow but by a call. -/
theorem run_callDepth {w : Watched.Host} (hw : w.Counted) {m : Machine} (hm : m.depth = 0) (n : Nat)
    (source : String) :
    (Session.run w.host n source m).CountsCalls m (calls (Watched.eventsOf w n source m)) := by
  unfold Session.run Watched.eventsOf
  cases Program.ofSource source with
  | error errors =>
    -- nothing happens at all
    have hnone {before after : List CallEvent} {e : CallEvent} :
        [] ≠ before ++ e :: after := by simp
    refine ⟨nofun, .nil, nofun, fun _ _ _ _ h => (hnone h).elim, ?_,
      fun _ _ _ _ _ h => (hnone h).elim, nofun⟩
    rintro m' ⟨rfl⟩
    exact ⟨hm, (List.append_nil _).symm⟩
  | ok ss =>
    have hcalled := (called_traversal hw).execute n () (Stmt.obeysAll_everything true ss) m
      (by rw [hm]; exact Nat.zero_le _)
    rw [outcome_execute] at hcalled
    exact hcalled.countsCalls hm

theorem counted_calling : Watched.Host.calling.Counted := by
  have hbare : Host.bare.unwatched.Counted :=
    Host.counted_unwatched fun _ _ _ => .done rfl rfl
  intro key args
  unfold Watched.Host.calling
  split
  · exact called_invoke hbare 256 _ _
  · exact called_silent fun _ => .done rfl rfl

/-- A function that calls itself, on the second line, and is called by the host. -/
def callsItself : String := "gøremål f() \x7b\nf(); \x7d\nKald(f);"

/-- A machine with that function of the host. -/
def providesCalling : Machine := (Machine.start (.fixed 0) none).provide ⟨"Kald", 1, .foreign 0⟩

theorem callsItself_callDepth :
    ∃ m', Session.run Watched.Host.calling.host 1 callsItself providesCalling =
        .failed (.runtime (.stackOverflow 2)) m' ∧ m'.depth = 0 ∧
      ∃ before closing name arguments after,
        calls (Watched.eventsOf .calling 1 callsItself providesCalling) =
          before ++ .refuse closing name arguments :: after ∧ closing.line = 2 ∧
        active before = 255 ∧
        (List.range 255).Sublist ((records 0 before).map CallRecord.depth) := by
  have hoverflows : (Session.run Watched.Host.calling.host 1 callsItself providesCalling).fault?.map
      (fun f => (f.isOverflow, f.line)) = some (true, 2) := by
    decide +kernel
  obtain ⟨f, hfault, hf⟩ := Option.map_eq_some_iff.1 hoverflows
  obtain ⟨m', hrun⟩ := Outcome.exists_of_fault? hfault
  obtain rfl : f = .stackOverflow 2 := by
    cases f <;> cases hf
    rfl
  have hcounts := run_callDepth counted_calling (m := providesCalling) rfl 1 callsItself
  have hdepth := (hcounts.ended m' (by rw [hrun]; rfl)).1
  obtain ⟨before, closing, name, arguments, after, hsplit, hline⟩ := hcounts.overflow 2 m' hrun
  obtain ⟨hactive, hrange, -⟩ := hcounts.refused _ _ _ _ _ hsplit
  exact ⟨m', hrun, hdepth, before, closing, name, arguments, after, hsplit, hline, hactive, hrange⟩

end Sprog
