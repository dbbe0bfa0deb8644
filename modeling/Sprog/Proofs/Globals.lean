import Sprog.Proofs.Conformity
import Sprog.Proofs.Discipline
import Sprog.Proofs.Lexical
import Sprog.Proofs.Seam
import Sprog.Proofs.Upheld

/-!
# How names become global

The names in the global scope are those of the declarations that are elements of a program
themselves. A declaration in a block, in the header or the body of a loop, in a branch or in a
function adds none, because it runs in a scope of its own; a branch or a loop has no declaration for
its part that would not be in a block. No name is ever taken away.

* `uphold_noGlobals`: without declarations outside scopes the global names stay as they are.
* `globals_exec`: one statement of a program, `globals_execAll`: several of them.
* `run_globals`: the names that a source text makes global, up to where it fails.
-/
namespace Sprog

namespace Environment

variable {e : Environment}

/-! ## The global scope -/

theorem global_push (h : 0 < e.scopes.size) (parent : Handle) :
    (e.push parent).scopes[0]? = e.scopes[0]? := by
  rw [getElem?_push, if_neg (by omega)]

theorem global_pop (previous : Handle) : (e.pop previous).scopes[0]? = e.scopes[0]? := by
  by_cases hsize : 1 < e.scopes.size
  · rw [getElem?_pop hsize, if_pos (by omega)]
  · exact congrArg (·[0]?) (if_neg hsize)

theorem global_bind {handle : Nat} (h : handle ≠ 0) (name : String) (v : Value) :
    (e.bind handle name v).scopes[0]? = e.scopes[0]? := by
  rw [getElem?_bind, if_neg h]

theorem binds_eq_of_getElem? {e' : Environment} {h : Nat} (hs : e'.scopes[h]? = e.scopes[h]?)
    (name : String) : e'.binds name h = e.binds name h := by
  rw [binds, binds, hs]

/-- A value in a scope that is open binds its name there and no other. -/
theorem binds_bind {handle : Nat} (h : handle < e.scopes.size) (name : String) (v : Value)
    (x : String) :
    (e.bind handle name v).binds x handle = (decide (x = name) || e.binds x handle) := by
  have hscope := Array.getElem?_eq_getElem h
  rw [binds, binds, getElem?_bind, if_pos rfl, hscope]
  simp only [Option.map_some, Option.bind_some, get?_insert]
  by_cases hx : x = name <;> simp [hx]

theorem lt_size_of_binds {name : String} {h : Nat} (hb : e.binds name h = true) :
    h < e.scopes.size := by
  rcases Nat.lt_or_ge h e.scopes.size with hlt | hle
  · exact hlt
  · rw [binds, Array.getElem?_eq_none hle] at hb
    cases hb

/-- A name is found only in a scope that binds it. -/
theorem binds_of_find? {name : String} : ∀ {n handle h : Nat}, e.find? name n handle = some h →
    e.binds name h = true
  | n + 1, handle, h, hfind => by
    rw [find?] at hfind
    cases hscope : e.scopes[handle]? with
    | none => simp [hscope] at hfind
    | some s =>
      simp only [hscope] at hfind
      split at hfind
      · cases hfind
        rwa [binds_eq hscope]
      · split at hfind
        · cases hfind
        · exact binds_of_find? hfind

end Environment

/-! ## Everything but declarations -/

theorem allow_noGlobals (ts : List Token) : Rules.noGlobals.Allow ts :=
  ⟨fun _ _ _ => rfl, fun _ _ _ => rfl, fun _ _ _ => rfl, fun _ _ _ => rfl, fun _ _ _ => rfl, rfl⟩

/-- The same names are global in both. -/
def Environment.SameGlobals (e e' : Environment) : Prop := ∀ x, e'.binds x 0 = e.binds x 0

/-- Without declarations outside scopes the global names stay as they are. An assignment only finds
names that are bound. -/
theorem uphold_noGlobals (e₀ : Environment) : Rules.noGlobals.Uphold e₀.SameGlobals where
  assign {e name h} hsame _ hresolve v x := by
    have hbinds := Environment.binds_of_find? hresolve
    rw [← hsame x]
    by_cases hzero : h = 0
    · -- the name was found in the global scope, so it was global before
      subst hzero
      rw [Environment.binds_bind (Environment.lt_size_of_binds hbinds)]
      by_cases hx : x = name.lexeme <;> simp [hx, hbinds]
    · exact Environment.binds_eq_of_getElem? (Environment.global_bind hzero _ v) x
  define {e} hsame name v hpos x := by
    rw [← hsame x]
    have hne : e.current ≠ 0 := Nat.pos_iff_ne_zero.1 hpos
    exact Environment.binds_eq_of_getElem? (Environment.global_bind hne name v) x
  declare _ h := by cases h
  push {e parent} hsame hsize _ x := by
    rw [← hsame x]
    exact Environment.binds_eq_of_getElem? (Environment.global_push hsize parent) x
  pop {e e'} _ hsame _ x := by
    rw [← hsame x]
    exact Environment.binds_eq_of_getElem? (Environment.global_pop e.current) x

/-! ## Statements of a program -/

/-- The names that statements declare themselves, and not in a part of them. -/
def Stmt.declaredNames (ss : List Stmt) : List String :=
  (ss.filterMap Stmt.declares?).map Token.lexeme

theorem Stmt.declaredNames_append (xs ys : List Stmt) :
    Stmt.declaredNames (xs ++ ys) = Stmt.declaredNames xs ++ Stmt.declaredNames ys := by
  simp [Stmt.declaredNames, List.filterMap_append]

/-- The current scope is the global one. -/
structure Machine.AtTop (m : Machine) : Prop where
  current : m.env.current = 0
  size : 0 < m.env.scopes.size

/-- How a run on `m` may end if it makes the given names global, unless it fails. -/
inductive Outcome.Declares (m : Machine) (names : List String) : Outcome Fault Unit → Prop where
  | done {m' : Machine} : m'.AtTop →
      (∀ x, m'.env.binds x 0 = (decide (x ∈ names) || m.env.binds x 0)) →
      Declares m names (.done () m')
  | failed {f : Fault} {m' : Machine} : m.env.SameGlobals m'.env → Declares m names (.failed f m')
  | exhausted : Declares m names .exhausted

section
variable {n : Nat} {m : Machine}

theorem Machine.AtTop.obeys (hm : m.AtTop) :
    m.Obeys .noGlobals m.env.SameGlobals ⟨0, m.depth⟩ := by
  refine ⟨?_, fun _ => rfl, hm.current, rfl, hm.size⟩
  rw [Environment.allValues_iff]
  intro h s _
  exact List.all_eq_true.2 fun b _ => b.2.obeys_of_lax lax_noGlobals rfl

theorem Machine.Obeys.atTop {r : Rules} {J : Environment → Prop} {d : Nat}
    (hm : m.Obeys r J ⟨0, d⟩) : m.AtTop :=
  ⟨hm.current, hm.size⟩

theorem Host.Aloof.obeys_noGlobals {host : Host} (hhost : host.Aloof) (J : Environment → Prop) :
    host.Obeys .noGlobals J :=
  hhost.obeys lax_noGlobals.toLenient rfl fun _ _ _ _ v _ _ => v.obeys_of_lax lax_noGlobals rfl

/-- What is allowed without declarations makes no name global. -/
theorem Outcome.Obeys.declares {o : Outcome Fault Unit} {d : Nat} {X : Prop}
    (h : o.Obeys .noGlobals m.env.SameGlobals ⟨0, d⟩ X) : o.Declares m [] := by
  cases h with
  | done _ hm' => exact .done hm'.atTop fun x => by simpa using hm'.kept x
  | failed _ hm' => exact .failed hm'.kept
  | exhausted => exact .exhausted

/-- A definition in the global scope. -/
theorem Machine.AtTop.define (hm : m.AtTop) (name : String) (v : Value) :
    (Eval.define name v m).Declares m [name] := by
  refine .done ⟨hm.current, ?_⟩ fun x => ?_
  · exact (Environment.size_bind ..).symm ▸ hm.size
  · have hbinds := Environment.binds_bind hm.size name v x
    show (m.env.define name v).binds x 0 = _
    rw [Environment.define_eq_bind, hm.current, hbinds]
    simp

theorem Outcome.Declares.of_same {o : Outcome Fault Unit} {m₁ : Machine} {names : List String}
    (h : o.Declares m₁ names) (hsame : m.env.SameGlobals m₁.env) : o.Declares m names := by
  cases h with
  | done htop hnames => exact .done htop fun x => by rw [hnames x, hsame x]
  | failed h => exact .failed fun x => (h x).trans (hsame x)
  | exhausted => exact .exhausted

section
variable {host : Host} (hhost : host.Aloof)

include hhost

/-- A statement that a program may have as an element makes the name global that it declares, if it
declares one and does not fail. -/
theorem globals_exec (hm : m.AtTop) {s : Stmt}
    (hs : s.declares? = none → s.obeys .noGlobals false = true) :
    (exec (invoke host n) n s m).Declares m (Stmt.declaredNames [s]) := by
  have hJ := uphold_noGlobals m.env
  have hallowed := hhost.obeys_noGlobals m.env.SameGlobals
  cases s with
  | declare name initial =>
    cases initial with
    | none => exact hm.define name.lexeme .nil
    | some e =>
      -- the initial value may come from calls, but these make no name global
      have hfirst := obeys_eval hJ hallowed n hm.obeys (e.obeys_of_lax lax_noGlobals)
      show (Eval.bind (eval (invoke host n) e) (Eval.define name.lexeme) m).Declares m [name.lexeme]
      unfold Eval.bind
      generalize eval (invoke host n) e m = o at hfirst
      cases hfirst with
      | done _ hm₁ => exact (hm₁.atTop.define name.lexeme _).of_same hm₁.kept
      | failed _ hm₁ => exact .failed hm₁.kept
      | exhausted => exact .exhausted
  | function name parameters body =>
    have hfresh : { m with fresh := m.fresh + 1 }.AtTop := ⟨hm.current, hm.size⟩
    exact (hfresh.define name.lexeme _).of_same fun _ => rfl
  | expr | print | block | branch | loop =>
    exact (obeys_exec hJ hallowed n hm.obeys n (hs rfl)).declares

/-- Statements that do not fail make the names global that they declare. -/
theorem globals_execAll : ∀ {ss : List Stmt} {m m' : Machine}, m.AtTop →
    (∀ s ∈ ss, s.declares? = none → s.obeys .noGlobals false = true) →
    execAll (invoke host n) n ss m = .done () m' → m'.AtTop ∧
      ∀ x, m'.env.binds x 0 = (decide (x ∈ Stmt.declaredNames ss) || m.env.binds x 0)
  | [], m, m', hm, _, h => by
    cases h
    exact ⟨hm, fun x => by simp [Stmt.declaredNames]⟩
  | s :: ss, m, m', hm, hss, h => by
    obtain ⟨hs, hss⟩ := List.forall_mem_cons.1 hss
    have hfirst := globals_exec (n := n) hhost hm hs
    replace h : Eval.bind (exec (invoke host n) n s) (fun _ => execAll (invoke host n) n ss) m =
      .done () m' := h
    unfold Eval.bind at h
    generalize exec (invoke host n) n s m = o at h hfirst
    cases hfirst with
    | done htop hnames =>
      obtain ⟨htop', hnames'⟩ := globals_execAll htop hss h
      have hcons := Stmt.declaredNames_append [s] ss
      refine ⟨htop', fun x => ?_⟩
      rw [hnames' x, hnames x, show s :: ss = [s] ++ ss from rfl, hcons]
      simp [Bool.or_left_comm, Bool.or_assoc]
    | failed | exhausted => cases h

end

/-- Statements fail at the first one that does. -/
theorem exists_of_execAll_failed {invoke : Invoke} {rounds : Nat} {f : Fault} :
    ∀ {ss : List Stmt} {m m' : Machine}, execAll invoke rounds ss m = .failed f m' →
      ∃ before s after m₁, ss = before ++ s :: after ∧
        execAll invoke rounds before m = .done () m₁ ∧ exec invoke rounds s m₁ = .failed f m'
  | [], _, _, h => by cases h
  | s :: ss, m, m', h => by
    replace h : Eval.bind (exec invoke rounds s) (fun _ => execAll invoke rounds ss) m =
      .failed f m' := h
    unfold Eval.bind at h
    cases hfirst : exec invoke rounds s m with
    | done a m₁ =>
      rw [hfirst] at h
      obtain ⟨before, s', after, m₂, rfl, hbefore, hfails⟩ := exists_of_execAll_failed h
      refine ⟨s :: before, s', after, m₂, rfl, ?_, hfails⟩
      show Eval.bind (exec invoke rounds s) (fun _ => execAll invoke rounds before) m = _
      simp only [Eval.bind, hfirst, hbefore]
    | failed e m₁ =>
      rw [hfirst] at h
      cases h
      exact ⟨[], s, ss, m, rfl, rfl, hfirst⟩
    | exhausted =>
      rw [hfirst] at h
      cases h

end

/-! ## Source texts -/

theorem Machine.Settled.atTop {m : Machine} (hm : m.Settled) : m.AtTop :=
  ⟨hm.global, hm.nested.size_pos⟩

/-- The elements of a row of declarations are declarations. -/
theorem Grammar.OfStmt.exists_declaration {ss : List Stmt} {ts : List Token}
    (h : OfStmt (.declarations ss) ts) : ∀ s ∈ ss, ∃ us, OfStmt (.declaration s) us := by
  generalize hp : StmtPhrase.declarations ss = phrase at h
  induction h generalizing ss with
  | nil => cases hp; simp
  | cons hd _ _ ih =>
    cases hp
    exact List.forall_mem_cons.2 ⟨⟨_, hd⟩, ih rfl⟩
  | bare | print | block | branch | alternative | loop | counting | declare | function
  | statement => cases hp

/-- The elements of a program are declarations, or make no name global. -/
theorem obeys_noGlobals_of_ofSource {source : String} {ss : List Stmt}
    (h : Program.ofSource source = .ok ss) :
    ∀ s ∈ ss, s.declares? = none → s.obeys .noGlobals false = true := by
  intro s hs hnone
  obtain ⟨us, hd⟩ := (ofSource_eq_ok_iff.1 h).2.exists_declaration s hs
  refine hd.obeys (allow_noGlobals us) false fun name hname => ?_
  rw [hnone] at hname
  cases hname

/-- The names that a source text makes global are those that the elements of its program declare,
up to the one that fails if one does. No other declaration in it or in a function that it calls adds
a global name, and no name is taken away. The host has to stay outside. -/
theorem run_globals {host : Host} (hhost : host.Aloof) {m : Machine}
    (h : Session.Reached host m) {source : String} {ss : List Stmt}
    (hsource : Program.ofSource source = .ok ss) (n : Nat) :
    (∀ m', Session.run host n source m = .done () m' → ∀ x, m'.env.binds x 0 = true ↔
      m.env.binds x 0 = true ∨ x ∈ Stmt.declaredNames ss) ∧
    ∀ failure m', Session.run host n source m = .failed failure m' →
      ∃ f before s after m₁, failure = .runtime f ∧ ss = before ++ s :: after ∧
        Session.execute host n before m = .done () m₁ ∧
        Session.execute host n [s] m₁ = .failed f m' ∧
        ∀ x, m'.env.binds x 0 = true ↔
          m.env.binds x 0 = true ∨ x ∈ Stmt.declaredNames before := by
  have hm := (h.settled hhost).atTop
  have hobeys := obeys_noGlobals_of_ofSource hsource
  rw [run_of_ofSource hsource]
  constructor
  · intro m' hdone x
    cases hrun : Session.execute host n ss m with
    | done a m₁ =>
      rw [hrun] at hdone
      cases hdone
      rw [(globals_execAll hhost hm hobeys hrun).2 x]
      simp [or_comm]
    | failed | exhausted =>
      rw [hrun] at hdone
      cases hdone
  · intro failure m' hfailed
    obtain ⟨f, rfl, hrun⟩ :
        ∃ f, failure = .runtime f ∧ Session.execute host n ss m = .failed f m' := by
      cases hrun : Session.execute host n ss m <;> rw [hrun] at hfailed <;> cases hfailed
      exact ⟨_, rfl, rfl⟩
    obtain ⟨before, s, after, m₂, rfl, hbefore, hfails⟩ := exists_of_execAll_failed hrun
    have hall := List.forall_mem_append.1 hobeys
    obtain ⟨htop, hnames⟩ := globals_execAll hhost hm hall.1 hbefore
    have hlast := globals_exec (n := n) hhost htop (hall.2 s List.mem_cons_self)
    rw [hfails] at hlast
    cases hlast with
    | failed hsame =>
      refine ⟨f, before, s, after, m₂, rfl, rfl, hbefore, ?_, fun x => ?_⟩
      · show Eval.bind (exec (invoke host n) n s) _ m₂ = _
        simp only [Eval.bind, hfails]
      · rw [hsame x, hnames x]
        simp [or_comm]

/-- Declarations at the top and in scopes of all sorts, and a fault before the last one. -/
def declaresManyNames : String :=
  "\x7b sæt b; \x7d for (sæt i; i;) i; gøremål f(p) \x7b sæt q; \x7d f(f); fejl; sæt e;"

theorem declaresManyNames_globals :
    ∃ ss f m', Program.ofSource declaresManyNames = .ok ss ∧
      Session.run .bare 1 declaresManyNames (.start (.fixed 0) none) = .failed (.runtime f) m' ∧
      ["Clock", "b", "i", "f", "p", "q", "e"].filter (fun x => m'.env.binds x 0) =
        ["Clock", "f"] ∧
      ∃ before s after, ss = before ++ s :: after ∧ ∀ x, m'.env.binds x 0 = true ↔
        (Machine.start (.fixed 0) none).env.binds x 0 = true ∨ x ∈ Stmt.declaredNames before := by
  obtain ⟨ss, hss⟩ := exists_of_toBool
    (show (Program.ofSource declaresManyNames).toBool by decide +kernel)
  obtain ⟨f, hfault⟩ := Option.isSome_iff_exists.1
    (show (Session.run .bare 1 declaresManyNames (.start (.fixed 0) none)).fault?.isSome by
      decide +kernel)
  have hbound : (Session.run .bare 1 declaresManyNames (.start (.fixed 0) none)).machine?.map
      (fun m => ["Clock", "b", "i", "f", "p", "q", "e"].filter fun x => m.env.binds x 0) =
        some ["Clock", "f"] := by
    decide +kernel
  obtain ⟨m', hrun⟩ := Outcome.exists_of_fault? hfault
  obtain ⟨_, before, s, after, -, -, hsplit, -, -, hnames⟩ :=
    (run_globals Host.aloof_bare (.start (.fixed 0) none) hss 1).2 _ _ hrun
  rw [hrun] at hbound
  exact ⟨ss, f, m', hss, hrun, Option.some.inj hbound, before, s, after, hsplit, hnames⟩

end Sprog
