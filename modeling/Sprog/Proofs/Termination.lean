import Sprog.Proofs.Upheld

/-!
# Programs without loops end

Only a loop can make a run go on for ever. Statements are run by recursion on their trees, and every
call counts as one more active call until there are too many. So a run without loops ends if no body
that it may call has a loop either; and since functions can be bound to any name and handed to any
call, this has to hold of all functions in all scopes, those defined on the way included.

The number of calls that may still become active bounds what the run has to be allowed: it falls
with every call, and between two calls the tree gets smaller.

The routines of the host may do what they like with the machine, and call the functions that they
get hold of, but they have to end, and must not bring in loops (`Host.LoopFree`).

* `Stmt.loopFree`: no loop stands in the statement.
* `Rules.noLoops`: everything is allowed but a loop.
* `execute_terminates`: statements without loops end.
* `execute_forever`: a loop need not.
-/
namespace Sprog

mutual

/-- No loop stands anywhere in the statement, nor in the functions that it declares. -/
def Stmt.loopFree : Stmt → Bool
  | .expr _ | .print .. | .declare .. => true
  | .block body => loopFreeAll body
  | .branch _ yes none => yes.loopFree
  | .branch _ yes (some no) => yes.loopFree && no.loopFree
  | .loop .. => false
  | .function _ _ body => loopFreeAll body

/-- No loop stands anywhere in the statements. -/
def Stmt.loopFreeAll : List Stmt → Bool
  | [] => true
  | s :: ss => s.loopFree && loopFreeAll ss

end

/-- No loop stands in the body. -/
def Function.loopFree (f : Function) : Bool := Stmt.loopFreeAll f.body

open Eval

/-! ## Everything but loops -/

/-- Everything is allowed but a loop. -/
def Rules.noLoops : Rules := { Rules.everything with loops := false }

theorem lax_noLoops : Rules.noLoops.Lax :=
  ⟨⟨fun _ => rfl, fun _ => rfl, fun _ => rfl, fun _ => rfl⟩, fun _ => rfl, fun _ => rfl⟩

mutual

theorem Stmt.obeys_noLoops (inside : Bool) : ∀ s : Stmt, s.obeys .noLoops inside = s.loopFree
  | .expr e | .print _ e => e.obeys_of_lax lax_noLoops
  | .declare name none => Bool.or_true inside
  | .declare name (some e) =>
    Bool.and_eq_true_iff.2 ⟨Bool.or_true inside, e.obeys_of_lax lax_noLoops⟩
  | .block body => Stmt.obeysAll_noLoops true body
  | .branch test yes none => by
    simp [Stmt.obeys, Stmt.loopFree, test.obeys_of_lax lax_noLoops, Stmt.obeys_noLoops inside yes]
  | .branch test yes (some no) => by
    simp [Stmt.obeys, Stmt.loopFree, test.obeys_of_lax lax_noLoops, Stmt.obeys_noLoops inside yes,
      Stmt.obeys_noLoops inside no]
  | .loop test body => by simp [Stmt.obeys, Stmt.loopFree, Rules.noLoops]
  | .function name _ body => by
    have hname : (inside || Rules.noLoops.declared name) = true := Bool.or_true inside
    simp [Stmt.obeys, Stmt.loopFree, hname, Stmt.obeysAll_noLoops true body]

theorem Stmt.obeysAll_noLoops (inside : Bool) :
    ∀ ss : List Stmt, Stmt.obeysAll .noLoops inside ss = Stmt.loopFreeAll ss
  | [] => rfl
  | s :: ss => by
    simp [Stmt.obeysAll, Stmt.loopFreeAll, Stmt.obeys_noLoops inside s,
      Stmt.obeysAll_noLoops inside ss]

end

theorem Value.obeys_noLoops (v : Value) : v.obeys .noLoops = v.allFunctions Function.loopFree := by
  cases v with
  | callable c =>
    rcases c with ⟨_, f | f⟩
    · exact Stmt.obeysAll_noLoops true f.body
    · rfl
  | nil | bool | number | text => rfl

theorem obeys_noLoops_iff {vs : List Value} :
    Ruled.Obeys .noLoops vs ↔ ∀ v ∈ vs, v.allFunctions Function.loopFree = true :=
  forall₂_congr fun v _ => by rw [v.obeys_noLoops]

/-- Whatever is allowed keeps the scopes nested. -/
theorem uphold_nested (r : Rules) : r.Uphold Environment.Nested where
  assign hn _ _ v := hn.bind _ _ v
  define hn name v _ := Environment.define_eq_bind .. ▸ hn.bind _ name v
  declare hn _ v := Environment.define_eq_bind .. ▸ hn.bind _ _ v
  push {e parent} hn hsize hparent := by
    refine hn.push ?_
    rcases hparent with rfl | rfl
    · exact hn.current ▸ Nat.lt_succ_self _
    · exact hsize
  pop {e e'} hn hn' hopened := by
    refine hn'.pop ?_
    rw [hn'.current, hopened, hn.current]

/-! ## Machines and hosts without loops -/

/-- The scopes are nested, and no function in them has a loop in its body. -/
structure Machine.LoopFree (m : Machine) : Prop where
  nested : m.env.Nested
  stored : m.env.allFunctions Function.loopFree = true

/-- What is asked of the routines of a host, on machines and with arguments without loops. -/
structure Host.LoopFree (host : Host) : Prop where
  /-- They end. -/
  ends : ∀ {key args m}, (∀ v ∈ args, v.allFunctions Function.loopFree = true) → m.LoopFree →
    m.depth ≤ callLimit → host key args m ≠ .exhausted
  /-- They leave a machine without loops, and as many open scopes and active calls as before. -/
  keeps : ∀ {key args m m'}, (∀ v ∈ args, v.allFunctions Function.loopFree = true) → m.LoopFree →
    m.depth ≤ callLimit → (host key args m).machine? = some m' →
      m'.LoopFree ∧ m'.env.current = m.env.current ∧ m'.depth = m.depth
  /-- They answer no function with a loop in its body. -/
  answers : ∀ {key args m v m'}, (∀ v ∈ args, v.allFunctions Function.loopFree = true) →
    m.LoopFree → m.depth ≤ callLimit → host key args m = .done v m' →
      v.allFunctions Function.loopFree = true

theorem Machine.LoopFree.obeys {m : Machine} (h : m.LoopFree) :
    m.Obeys .noLoops Environment.Nested ⟨m.env.current, m.depth⟩ := by
  have hvalues : m.env.allValues (Value.allFunctions Function.loopFree) = true := h.stored
  rw [← funext Value.obeys_noLoops] at hvalues
  exact ⟨hvalues, h.nested, rfl, rfl, h.nested.size_pos⟩

theorem Machine.Obeys.loopFree {m : Machine} {i : Site}
    (h : m.Obeys .noLoops Environment.Nested i) : m.LoopFree := by
  have hvalues := h.stored
  rw [funext Value.obeys_noLoops] at hvalues
  exact ⟨h.kept, hvalues⟩

theorem Host.LoopFree.obeys {host : Host} (h : host.LoopFree) :
    host.Obeys .noLoops Environment.Nested := by
  intro f args _ hargs i hdepth m hm
  unfold Native.invoke
  cases f.routine with
  | clock => exact .done rfl { hm with }
  | foreign key =>
    rw [← hm.depth] at hdepth
    rw [obeys_noLoops_iff] at hargs
    have hfree := hm.loopFree
    have hkept {m' : Machine} (hends : (host key args m).machine? = some m') :
        m'.Obeys .noLoops Environment.Nested i := by
      obtain ⟨hfree', hcurrent, hdepth'⟩ := h.keeps hargs hfree hdepth hends
      have hobeys := hfree'.obeys
      rwa [hcurrent, hdepth', hm.current, hm.depth] at hobeys
    dsimp only
    cases hrun : host key args m with
    | done v m' =>
      refine .done ?_ (hkept (by rw [hrun]; rfl))
      show v.obeys .noLoops = true
      rw [v.obeys_noLoops]
      exact h.answers hargs hfree hdepth hrun
    | failed f m' =>
      exact .failed (f.obeys_of_lenient lax_noLoops.toLenient) (hkept (by rw [hrun]; rfl))
    | exhausted => exact absurd hrun (h.ends hargs hfree hdepth)

/-- A host whose routines obey is one without loops. -/
theorem Host.LoopFree.of_obeys {host : Host}
    (h : ∀ key args m, (∀ v ∈ args, v.allFunctions Function.loopFree = true) → m.LoopFree →
      m.depth ≤ callLimit →
      (host key args m).Obeys .noLoops Environment.Nested ⟨m.env.current, m.depth⟩ False) :
    host.LoopFree where
  ends {key args m} hargs hfree hdepth hrun := by
    have hends := h key args m hargs hfree hdepth
    rw [hrun] at hends
    cases hends with
    | exhausted hfalse => exact hfalse
  keeps {key args m m'} hargs hfree hdepth hm' := by
    have hends := h key args m hargs hfree hdepth
    generalize host key args m = o at hends hm'
    cases hends with
    | done _ hm | failed _ hm =>
      cases hm'
      exact ⟨hm.loopFree, hm.current, hm.depth⟩
    | exhausted hfalse => exact hfalse.elim
  answers {key args m v m'} hargs hfree hdepth hrun := by
    have hends := h key args m hargs hfree hdepth
    rw [hrun] at hends
    cases hends with
    | done hv _ => exact v.obeys_noLoops ▸ hv

theorem loopFree_calling : Watched.Host.calling.host.LoopFree := by
  have hbare : Host.bare.Obeys .noLoops Environment.Nested :=
    (Host.LoopFree.of_obeys fun _ _ _ _ hm _ => .done rfl hm.obeys).obeys
  refine .of_obeys fun key args m hargs hm hdepth => ?_
  show (Watched.Host.calling key args m).outcome.Obeys .noLoops Environment.Nested _ False
  unfold Watched.Host.calling
  split
  · rename_i c rest
    obtain ⟨hc, hrest⟩ := List.forall_mem_cons.1 (obeys_noLoops_iff.2 hargs)
    have hends :=
      obeys_invoke (uphold_nested .noLoops) hbare (callLimit + 1) hm.obeys hdepth hc hrest
    rw [outcome_invoke]
    refine hends.mono fun htoo => ?_
    -- more calls are allowed than may become active
    rcases htoo with hloops | hmany
    · exact Bool.false_ne_true hloops
    · omega
  · exact .done rfl hm.obeys

/-- Statements that end, end with a value or with a fault. -/
theorem Outcome.done_or_failed {ε : Type} {o : Outcome ε Unit} (h : o ≠ .exhausted) :
    (∃ m, o = .done () m) ∨ ∃ e m, o = .failed e m := by
  cases o with
  | done _ m => exact .inl ⟨m, rfl⟩
  | failed e m => exact .inr ⟨e, m, rfl⟩
  | exhausted => exact absurd rfl h

/-! ## Runs that end -/

section
variable {host : Host} (hhost : host.LoopFree) {m : Machine} (hm : m.env.Nested)
  (hstored : m.env.allFunctions Function.loopFree) {ss : List Stmt} (hss : Stmt.loopFreeAll ss)

include hhost hm hstored hss

theorem execute_ne_exhausted {n : Nat} (hn : callLimit - m.depth ≤ n) :
    Session.execute host n ss m ≠ .exhausted := by
  have hfree := Machine.LoopFree.obeys ⟨hm, hstored⟩
  rw [← Stmt.obeysAll_noLoops (Site.inside ⟨m.env.current, m.depth⟩)] at hss
  have hends := obeys_execute (uphold_nested .noLoops) hhost.obeys n hfree hss
  intro hexhausted
  rw [hexhausted] at hends
  cases hends with
  | exhausted htoo =>
    -- there are no loops, so only a call with fewer than the missing calls allowed may stop
    rcases htoo with hloops | hfew
    · exact Bool.false_ne_true hloops
    · dsimp only at hfew
      omega

/-- The scopes are nested whenever something happens. -/
theorem execute_nested (n : Nat) :
    ∀ e ∈ (Watched.execute host.unwatched n ss m).events, e.found.env.Nested := by
  have hfree := Machine.LoopFree.obeys ⟨hm, hstored⟩
  rw [← Stmt.obeysAll_noLoops (Site.inside ⟨m.env.current, m.depth⟩)] at hss
  exact ((obeys_traversal (uphold_nested .noLoops) hhost.obeys).execute n _ hss m hfree).kept

/-- Statements without loops end, with or without a fault, if no function in any scope has a loop in
its body: whatever they call, directly or not, and under whatever name. The outcome is the same with
every allowance for as many calls as may still become active. On the way every search for a name
ends, since the scopes are nested whenever something happens: it goes along a finite way outwards
and nowhere else. -/
theorem execute_terminates :
    (∃ out, ((∃ m', out = .done () m') ∨ ∃ fault m', out = .failed fault m') ∧
      ∀ n, callLimit - m.depth ≤ n → Session.execute host n ss m = out) ∧
    ∀ n, ∀ e ∈ (Watched.execute host.unwatched n ss m).events, e.found.env.Nested ∧
      ∃ hs, e.found.env.Chain e.found.env.current hs ∧
        ∀ name, e.found.env.resolve? name = hs.find? (e.found.env.binds name) := by
  constructor
  · have hends := execute_ne_exhausted hhost hm hstored hss
      (Nat.le_refl (callLimit - m.depth))
    exact ⟨_, Outcome.done_or_failed hends, fun n hn => execute_of_le hn hends⟩
  · intro n e he
    have hn := execute_nested hhost hm hstored hss n e he
    exact ⟨hn, hn.resolve?_eq⟩

end

/-- The function `gøremål f(g)` that calls its argument and hands it on. -/
def handsOn : Function where
  name := ⟨.identifier, "f", none, 1⟩
  parameters := [⟨.identifier, "g", none, 1⟩]
  body := [.expr (.call (.var ⟨.identifier, "g", none, 2⟩) ⟨.rightParen, ")", none, 2⟩
    [.var ⟨.identifier, "g", none, 2⟩])]

/-- The declaration of the function, and a call by the host that hands it to itself. -/
def handedOn : List Stmt := [
  .function handsOn.name handsOn.parameters handsOn.body,
  .expr (.call (.var ⟨.identifier, "Kald", none, 3⟩) ⟨.rightParen, ")", none, 3⟩
    [.var ⟨.identifier, "f", none, 3⟩, .var ⟨.identifier, "f", none, 3⟩])]

/-- A machine with all but three of the calls active, and with that function of the host. -/
def nearlyFull : Machine :=
  { (Machine.start (.fixed 0) none).provide ⟨"Kald", 2, .foreign 0⟩ with depth := 252 }

theorem handedOn_terminates :
    ∃ m, ∀ n, 3 ≤ n →
      Session.execute Watched.Host.calling.host n handedOn nearlyFull =
        .failed (.stackOverflow 2) m := by
  have hfails : (match Session.execute Watched.Host.calling.host 3 handedOn nearlyFull with
    | .failed (.stackOverflow 2) _ => true
    | _ => false) = true := by decide +kernel
  have hstored : nearlyFull.env.allFunctions Function.loopFree = true := by decide +kernel
  have hnested : nearlyFull.env.Nested := by
    have hstart : (Machine.start (.fixed 0) none).env.Nested := Environment.nested_empty.bind 0 _ _
    exact hstart.bind 0 _ _
  have hloops : Stmt.loopFreeAll handedOn = true := by decide
  obtain ⟨⟨out, -, hout⟩, -⟩ :=
    execute_terminates loopFree_calling hnested hstored hloops
  split at hfails
  · rename_i m hrun
    exact ⟨m, fun n hn => by rw [hout n hn, ← hout 3 (Nat.le_refl _), hrun]⟩
  · cases hfails

/-- A loop whose test always holds and whose body does nothing goes on with every allowance. -/
theorem execute_forever (host : Host) (n : Nat) (m : Machine) :
    Session.execute host n [.loop (.constant (.bool true)) (.block [])] m = .exhausted := by
  have hloop (k : Nat) : ∀ m, loop (holds (invoke host n) (.constant (.bool true)))
      (exec (invoke host n) n (.block [])) k m = .exhausted := by
    induction k with
    | zero => exact fun _ => rfl
    | succ k ih =>
      intro m
      rw [loop_succ]
      exact ih _
  show Eval.bind (exec _ _ _) _ m = .exhausted
  unfold Eval.bind
  rw [exec, hloop]

end Sprog
