import Sprog.Proofs.Globals

/-!
# What a run does not assign

A name keeps its value in the global scope if nothing assigns it and no element of the program
declares it. That the program itself does not assign the name is not enough: a call runs whatever
body its callee has, so no function that the machine holds may assign it either, and that has to
stay so while the run binds functions and hands them on. A declaration of the same name in a block,
in the header of a loop, as a parameter or in a function is bound in a scope of its own and never
reaches the global one.

* `Expr.assigns`, `Stmt.assigns`: whether a tree assigns a name, functions that it declares
  included.
* `Rules.sparing`: everything is allowed but to assign the name or to declare it outside scopes.
* `uphold_sparing`: then the global scope binds the name as before.
* `run_frame`: source texts.
-/
namespace Sprog

/-! ## Trees that assign a name -/

mutual

/-- The name is assigned somewhere in the expression. -/
def Expr.assigns (x : String) : Expr → Bool
  | .constant _ | .var _ => false
  | .group e | .unary _ _ e => e.assigns x
  | .binary _ _ left right | .logical _ _ left right => left.assigns x || right.assigns x
  | .assign name e => name.lexeme == x || e.assigns x
  | .call callee _ args => callee.assigns x || Expr.assignsAny x args

def Expr.assignsAny (x : String) : List Expr → Bool
  | [] => false
  | e :: es => e.assigns x || Expr.assignsAny x es

end

mutual

/-- The name is assigned somewhere in the statement, or in a function that it declares. -/
def Stmt.assigns (x : String) : Stmt → Bool
  | .expr e | .print _ e | .declare _ (some e) => e.assigns x
  | .declare _ none => false
  | .block body | .function _ _ body => Stmt.assignsAny x body
  | .branch test yes none => test.assigns x || yes.assigns x
  | .branch test yes (some no) => test.assigns x || yes.assigns x || no.assigns x
  | .loop test body => test.assigns x || body.assigns x

def Stmt.assignsAny (x : String) : List Stmt → Bool
  | [] => false
  | s :: ss => s.assigns x || Stmt.assignsAny x ss

end

/-- The name is assigned somewhere in the body. -/
def Function.assigns (x : String) (f : Function) : Bool := Stmt.assignsAny x f.body

/-- The value of a name in the global scope. -/
def Environment.global? (e : Environment) (x : String) : Option Value :=
  e.scopes[0]?.bind (·.get? x)

/-! ## Everything but the name -/

/-- Everything is allowed but to assign the name, or to declare it outside a scope of its own. -/
def Rules.sparing (x : String) : Rules where
  operator _ := true
  read _ := true
  assigned t := t.lexeme != x
  closing _ := true
  keyword _ := true
  declared t := t.lexeme != x
  loops := true
  native _ := true

theorem lenient_sparing (x : String) : (Rules.sparing x).Lenient :=
  ⟨fun _ => rfl, fun _ => rfl, fun _ => rfl, fun _ => rfl⟩

section
variable {x : String}

mutual

theorem Expr.obeys_sparing : ∀ e : Expr, e.obeys (.sparing x) = !e.assigns x
  | .constant _ | .var _ => rfl
  | .group e | .unary _ _ e => Expr.obeys_sparing e
  | .binary _ _ left right | .logical _ _ left right => by
    simp [Expr.obeys, Expr.assigns, Rules.sparing, ← Expr.obeys_sparing left,
      ← Expr.obeys_sparing right]
  | .assign name e => by
    simp [Expr.obeys, Expr.assigns, Rules.sparing, ← Expr.obeys_sparing e, bne]
  | .call callee _ args => by
    simp [Expr.obeys, Expr.assigns, Rules.sparing, ← Expr.obeys_sparing callee,
      ← Expr.obeysAll_sparing args]

theorem Expr.obeysAll_sparing : ∀ es : List Expr,
    Expr.obeysAll (.sparing x) es = !Expr.assignsAny x es
  | [] => rfl
  | e :: es => by
    simp [Expr.obeysAll, Expr.assignsAny, ← Expr.obeys_sparing e, ← Expr.obeysAll_sparing es]

end

mutual

/-- Where a statement makes no name global, it is allowed if it does not assign the name. -/
theorem Stmt.obeys_sparing {inside : Bool} : ∀ s : Stmt, s.obeys .noGlobals inside = true →
    s.obeys (.sparing x) inside = !s.assigns x
  | .expr e, _ | .print _ e, _ => Expr.obeys_sparing e
  | .declare name none, hin => by
    have hinside : inside = true := by simpa [Stmt.obeys, Rules.noGlobals] using hin
    simp [Stmt.obeys, Stmt.assigns, hinside]
  | .declare name (some e), hin => by
    have hinside : inside = true := by
      simpa [Rules.noGlobals] using (Bool.and_eq_true_iff.1 hin).1
    simp [Stmt.obeys, Stmt.assigns, hinside, Expr.obeys_sparing e]
  | .block body, hin => Stmt.obeysAll_sparing body hin
  | .branch test yes none, hin => by
    have hyes := Stmt.obeys_sparing yes (Bool.and_eq_true_iff.1 hin).2
    simp [Stmt.obeys, Stmt.assigns, Expr.obeys_sparing test, hyes]
  | .branch test yes (some no), hin => by
    obtain ⟨hin, hinno⟩ := Bool.and_eq_true_iff.1 hin
    have hyes := Stmt.obeys_sparing yes (Bool.and_eq_true_iff.1 hin).2
    simp [Stmt.obeys, Stmt.assigns, Expr.obeys_sparing test, hyes, Stmt.obeys_sparing no hinno]
  | .loop test body, hin => by
    have hbody := Stmt.obeys_sparing body (Bool.and_eq_true_iff.1 hin).2
    have hloops : (Rules.sparing x).loops = true := rfl
    simp [Stmt.obeys, Stmt.assigns, hloops, Expr.obeys_sparing test, hbody]
  | .function name _ body, hin => by
    have hinside : inside = true := by
      simpa [Rules.noGlobals] using (Bool.and_eq_true_iff.1 hin).1
    simp [Stmt.obeys, Stmt.assigns, hinside,
      Stmt.obeysAll_sparing body (Stmt.obeysAll_noGlobals body)]

theorem Stmt.obeysAll_sparing {inside : Bool} : ∀ ss : List Stmt,
    Stmt.obeysAll .noGlobals inside ss = true →
      Stmt.obeysAll (.sparing x) inside ss = !Stmt.assignsAny x ss
  | [], _ => rfl
  | s :: ss, hin => by
    obtain ⟨hs, hss⟩ := Bool.and_eq_true_iff.1 hin
    simp [Stmt.obeysAll, Stmt.assignsAny, Stmt.obeys_sparing s hs, Stmt.obeysAll_sparing ss hss]

end

theorem Value.obeys_sparing (v : Value) :
    v.obeys (.sparing x) = v.allFunctions fun f => !f.assigns x := by
  cases v with
  | callable c =>
    rcases c with ⟨_, f | f⟩
    · exact Stmt.obeysAll_sparing f.body (Stmt.obeysAll_noGlobals f.body)
    · rfl
  | nil | bool | number | text => rfl

/-- The elements of a program may also declare, as long as it is another name. -/
theorem Stmt.obeysAll_sparing_of_declared {ss : List Stmt}
    (hglobals : ∀ s ∈ ss, s.declares? = none → s.obeys .noGlobals false = true)
    (hassigns : Stmt.assignsAny x ss = false) (hdeclared : x ∉ Stmt.declaredNames ss) :
    Stmt.obeysAll (.sparing x) false ss = true := by
  induction ss with
  | nil => rfl
  | cons s ss ih =>
    obtain ⟨hs, hss⟩ := List.forall_mem_cons.1 hglobals
    obtain ⟨hfirst, hrest⟩ := Bool.or_eq_false_iff.1 hassigns
    rw [show s :: ss = [s] ++ ss from rfl, Stmt.declaredNames_append, List.mem_append,
      not_or] at hdeclared
    refine Bool.and_eq_true_iff.2 ⟨?_, ih hss hrest hdeclared.2⟩
    cases s with
    | declare name initial =>
      have hname : name.lexeme ≠ x := by
        simpa [Stmt.declaredNames, Stmt.declares?, eq_comm] using hdeclared.1
      cases initial with
      | none => simpa [Stmt.obeys, Rules.sparing] using hname
      | some e =>
        have he : e.assigns x = false := hfirst
        have hobeys := Expr.obeys_sparing (x := x) e
        rw [he] at hobeys
        simpa [Stmt.obeys, Rules.sparing, hname] using hobeys
    | function name parameters body =>
      have hname : name.lexeme ≠ x := by
        simpa [Stmt.declaredNames, Stmt.declares?, eq_comm] using hdeclared.1
      have hassigns : Stmt.assignsAny x body = false := hfirst
      have hbody := Stmt.obeysAll_sparing (x := x) body (Stmt.obeysAll_noGlobals body)
      rw [hassigns] at hbody
      simpa [Stmt.obeys, Rules.sparing, hname] using hbody
    | expr | print | block | branch | loop =>
      rw [Stmt.obeys_sparing _ (hs rfl), hfirst]
      rfl

/-! ## The global scope -/

namespace Environment

variable {e : Environment}

theorem global?_eq_of_getElem? {e' : Environment} (h : e'.scopes[0]? = e.scopes[0]?) (x : String) :
    e'.global? x = e.global? x := by
  rw [global?, global?, h]

/-- A value of another name, in whatever scope, does not change this one. -/
theorem global?_bind_of_ne {name : String} (hname : name ≠ x) (h : Handle) (v : Value) :
    (e.bind h name v).global? x = e.global? x := by
  unfold global?
  rw [getElem?_bind]
  split
  · cases e.scopes[0]? with
    | none => rfl
    | some s => simp [get?_insert, hname.symm]
  · rfl

end Environment

/-- The global scope binds the name in both alike. -/
def Environment.SameGlobal (x : String) (e e' : Environment) : Prop := e'.global? x = e.global? x

/-- Where the name is neither assigned nor declared outside scopes, the global scope binds it as
before. -/
theorem uphold_sparing (x : String) (e₀ : Environment) :
    (Rules.sparing x).Uphold (e₀.SameGlobal x) where
  assign hsame hname _ v :=
    (Environment.global?_bind_of_ne (bne_iff_ne.1 hname) _ v).trans hsame
  define {e} hsame name v hpos := by
    have hne : e.current ≠ 0 := Nat.pos_iff_ne_zero.1 hpos
    exact (Environment.global?_eq_of_getElem? (Environment.global_bind hne name v) x).trans hsame
  declare hsame hname v :=
    (Environment.global?_bind_of_ne (bne_iff_ne.1 hname) _ v).trans hsame
  push {_ parent} hsame hsize _ :=
    (Environment.global?_eq_of_getElem? (Environment.global_push hsize parent) x).trans hsame
  pop {e _} _ hsame _ :=
    (Environment.global?_eq_of_getElem? (Environment.global_pop e.current) x).trans hsame

/-! ## Source texts -/

/-- If no function that the machine holds assigns the name, all that it holds is allowed. -/
theorem Machine.AtTop.obeys_sparing {m : Machine} (hm : m.AtTop)
    (hstored : m.env.allFunctions (fun f => !f.assigns x) = true) :
    m.Obeys (.sparing x) (m.env.SameGlobal x) ⟨0, m.depth⟩ := by
  refine ⟨?_, rfl, hm.current, rfl, hm.size⟩
  have hvalues : m.env.allValues (Value.allFunctions fun f => !f.assigns x) = true := hstored
  rw [Environment.allValues_iff] at hvalues ⊢
  intro h s hs
  refine List.all_eq_true.2 fun b hb => ?_
  rw [Value.obeys_sparing]
  exact List.all_eq_true.1 (hvalues h s hs) b hb

/-- What a routine answers is no function, or one with the property, if all functions among its
arguments have the property. -/
def Host.HandsOn (host : Host) (p : Function → Bool) : Prop :=
  ∀ key args, (∀ v ∈ args, v.allFunctions p = true) → ∀ m v m', host key args m = .done v m' →
    v.allFunctions p = true

/-- What a source text does not assign it does not change: a name that is assigned neither in the
program nor in any function that the machine holds, and that no element of the program declares, has
the value in the global scope that it had before, or still none, however the run ends. The host has
to stay outside, and must not bring in a function that assigns the name. -/
theorem run_frame {host : Host} (hhost : host.Aloof)
    (hanswers : host.HandsOn fun f => !f.assigns x) {m : Machine} (h : Session.Reached host m)
    {source : String} {ss : List Stmt} (hsource : Program.ofSource source = .ok ss)
    (hassigns : Stmt.assignsAny x ss = false)
    (hstored : m.env.allFunctions (fun f => !f.assigns x) = true)
    (hdeclared : x ∉ Stmt.declaredNames ss) {n : Nat} {m' : Machine}
    (hrun : (Session.run host n source m).machine? = some m') :
    m'.env.global? x = m.env.global? x := by
  have hm := (h.settled hhost).atTop.obeys_sparing hstored
  have hss := Stmt.obeysAll_sparing_of_declared (obeys_noGlobals_of_ofSource hsource) hassigns
    hdeclared
  have hallowed : host.Obeys (.sparing x) (m.env.SameGlobal x) := by
    refine hhost.obeys (lenient_sparing x) rfl fun key args hargs m v m' hdone => ?_
    rw [Value.obeys_sparing]
    refine hanswers key args (fun v hv => ?_) m v m' hdone
    rw [← Value.obeys_sparing]
    exact hargs v hv
  have hends := obeys_execute (uphold_sparing x m.env) hallowed n hm hss
  rw [run_of_ofSource hsource] at hrun
  generalize Session.execute host n ss m = o at hends hrun
  cases hends with
  | done _ hm' | failed _ hm' =>
    cases hrun
    exact hm'.kept
  | exhausted => cases hrun

end

/-- A global name, and a function with a parameter of that name. -/
def bindsX : String := "sæt x = \"ude\"; gøremål f(x) \x7b sæt y = x; y = y; \x7d"

/-- The name in scopes of all sorts, handed to a call as well, and a fault in the innermost. -/
def shadowsX : String :=
  "\x7b sæt x = falsk; \x7d for (sæt x; x;) skriv x; " ++
    "gøremål g(x) \x7b f(x); gøremål x() \x7b \x7d f(x); fejl; \x7d g(1);"

theorem shadowsX_frame :
    ∃ m f m', Session.Reached .echo m ∧ Session.run .echo 3 shadowsX m = .failed (.runtime f) m' ∧
      (m.env.global? "x").map Value.shown = some "ude" ∧
      m'.env.global? "x" = m.env.global? "x" := by
  have hsteps : ((Session.run .echo 3 bindsX (.start (.fixed 0) none)).machine?.bind fun m =>
      (Session.run .echo 3 shadowsX m).fault?.map fun _ =>
        ((m.env.global? "x").map Value.shown, m.env.allFunctions fun f => !f.assigns "x")) =
      some (some "ude", true) := by
    decide +kernel
  have hprogram : (Program.ofSource shadowsX).toOption.map (fun ss =>
      (Stmt.assignsAny "x" ss, Stmt.declaredNames ss)) = some (false, ["g"]) := by
    decide +kernel
  obtain ⟨m, hfirst, hsecond⟩ := Option.bind_eq_some_iff.1 hsteps
  obtain ⟨f, hfault, hheld⟩ := Option.map_eq_some_iff.1 hsecond
  obtain ⟨hvalue, hstored⟩ := Prod.mk.inj hheld
  obtain ⟨m', hrun⟩ := Outcome.exists_of_fault? hfault
  obtain ⟨ss, hss⟩ := exists_of_toBool
    (show (Program.ofSource shadowsX).toBool by decide +kernel)
  rw [hss] at hprogram
  obtain ⟨hassigns, hnames⟩ := Prod.mk.inj (Option.some.inj hprogram)
  have hreached : Session.Reached .echo m :=
    .served 3 (.run bindsX) (.start (.fixed 0) none) hfirst
  have hanswers : Host.echo.HandsOn fun f => !f.assigns "x" := by
    rintro _ args hargs _ _ _ ⟨⟩
    cases hlast : args.getLast? with
    | none => simp [List.getLastD_eq_getLast?, hlast, Value.allFunctions]
    | some v =>
      rw [List.getLastD_eq_getLast?, hlast]
      exact hargs v (List.mem_of_getLast? hlast)
  have hdeclared : "x" ∉ Stmt.declaredNames ss := by
    rw [hnames]
    decide
  exact ⟨m, f, m', hreached, hrun, hvalue, run_frame Host.aloof_echo hanswers hreached hss hassigns
    hstored hdeclared (by rw [hrun]; rfl)⟩

end Sprog
