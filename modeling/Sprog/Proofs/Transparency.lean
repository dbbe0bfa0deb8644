import Sprog.Proofs.Scopes
import Sprog.Proofs.Simulation

/-!
# A scope without names

A statement that declares nothing in the scope it runs in does not notice an empty scope around it.
The scopes opened behind the empty one only stand one place further up (`Environment.Padded`), and
all that happens in them happens as without it.

* `Padded.resolve?`: a name is found in the same scope, up to the move.
* `Padded.closed`: when the empty scope is closed, nothing is left of the difference.
* `padded_simulation`: no run notices the empty scope, unless it declares a name there.
* `respects_padded_exec`: statements that run in the empty scope itself.
* `within_current`: such a run may as well have a scope of its own.
-/
namespace Sprog

namespace Environment

/-- Where the scope with the given handle stands when a scope is put in at `k`. -/
def shift (k h : Nat) : Nat := if h < k then h else h + 1

/-- What is inside scope `h`, is inside scope `h'` when an empty scope is put in at `k`: in its
place, or in the empty scope if that is the one in between. -/
def Stands (k h h' : Nat) : Prop := h' = shift k h ∨ (h + 1 = k ∧ h' = k)

/-- The environment `a` is `e` with an empty scope put in at `k`, inside the scope before it, and
`e` has `i` scopes behind that place. -/
structure Padded (k i : Nat) (e a : Environment) : Prop where
  positive : 0 < k
  nested : e.Nested
  size : e.scopes.size = k + i
  total : a.scopes.size = e.scopes.size + 1
  current : a.current = e.current + 1
  below : ∀ h : Nat, h < k → a.scopes[h]? = e.scopes[h]?
  empty : a.scopes[k]? = some ⟨[], some (k - 1)⟩
  above : ∀ {h : Nat} {s : Scope}, k ≤ h → e.scopes[h]? = some s →
    ∃ p p' : Nat, s.parent = some p ∧ Stands k p p' ∧
      a.scopes[h + 1]? = some ⟨s.bindings, some p'⟩

theorem shift_inj {k g h : Nat} : shift k g = shift k h ↔ g = h := by
  unfold shift
  split <;> split <;> omega

theorem shift_ne (k h : Nat) : shift k h ≠ k := by
  unfold shift
  split <;> omega

namespace Padded

variable {k i : Nat} {e a : Environment} (h : Padded k i e a)

include h

/-- The scope in the place of another one has the same names, and stands inside a scope that takes
the place of the scope around it. -/
theorem scope {g : Nat} {s : Scope} (hs : e.scopes[g]? = some s) :
    ∃ p', a.scopes[shift k g]? = some ⟨s.bindings, p'⟩ ∧
      ((s.parent = none ∧ p' = none) ∨
        ∃ q q' : Nat, s.parent = some q ∧ p' = some q' ∧ Stands k q q' ∧ q' < shift k g) := by
  by_cases hg : g < k
  · have hshift : shift k g = g := if_pos hg
    refine ⟨s.parent, by rw [hshift, h.below g hg, hs], ?_⟩
    cases hp : s.parent with
    | none => exact .inl ⟨rfl, rfl⟩
    | some q =>
      have hlt := h.nested.parent_lt hs hp
      have hq : shift k q = q := if_pos (by omega)
      exact .inr ⟨q, q, rfl, rfl, .inl hq.symm, by omega⟩
  · have hshift : shift k g = g + 1 := if_neg hg
    obtain ⟨q, q', hq, hstands, hscope⟩ := h.above (Nat.le_of_not_lt hg) hs
    have hlt := h.nested.parent_lt hs hq
    refine ⟨some q', by rw [hshift, hscope], .inr ⟨q, q', hq, rfl, hstands, ?_⟩⟩
    rcases hstands with rfl | ⟨-, rfl⟩
    · unfold shift
      split <;> omega
    · omega

theorem scope_none {g : Nat} (hs : e.scopes[g]? = none) : a.scopes[shift k g]? = none := by
  have hsize := h.size
  have htotal := h.total
  rw [Array.getElem?_eq_none_iff] at hs ⊢
  unfold shift
  split <;> omega

/-- The way outwards passes the same scopes, and maybe the empty one. -/
theorem find? (name : String) : ∀ (g g' n n' : Nat), Stands k g g' → g < n → g' < n' →
    a.find? name n' g' = (e.find? name n g).map (shift k) := by
  intro g g'
  induction g' using Nat.strongRecOn generalizing g with
  | ind g' ih =>
    intro n n' hstands hn hn'
    obtain ⟨n', rfl⟩ : ∃ j, n' = j + 1 := ⟨n' - 1, by omega⟩
    rcases hstands with rfl | ⟨hg, rfl⟩
    · obtain ⟨n, rfl⟩ : ∃ j, n = j + 1 := ⟨n - 1, by omega⟩
      cases hs : e.scopes[g]? with
      | none => simp [Environment.find?, hs, h.scope_none hs]
      | some s =>
        obtain ⟨p', hs', hparent⟩ := h.scope hs
        have hget : (Scope.mk s.bindings p').get? name = s.get? name := rfl
        simp only [Environment.find?, hs, hs', hget]
        split
        · rfl
        · rcases hparent with ⟨hp, rfl⟩ | ⟨q, q', hp, rfl, hstands, hlt⟩
          · rw [hp]
            rfl
          · have hlt' := h.nested.parent_lt hs hp
            rw [hp]
            exact ih q' hlt q n n' hstands (by omega) (by omega)
    · -- the empty scope binds no name, and the search goes on around it
      have hg' : g' - 1 = g := by omega
      have hshift : shift g' g = g := if_pos (by omega)
      simp only [Environment.find?, h.empty, hg']
      exact ih g (by omega) g n n' (.inl hshift.symm) hn (by omega)

theorem stands_current : Stands k e.current a.current := by
  have hcurrent := h.nested.current
  have hsize := h.size
  have hpositive := h.positive
  rw [h.current]
  unfold Stands shift
  split <;> omega

/-- A name is found in the same scope. -/
theorem resolve? (name : String) : a.resolve? name = (e.resolve? name).map (shift k) := by
  have hlt : e.current < e.depth := by
    show e.current < e.scopes.size
    rw [h.nested.current]
    exact Nat.lt_succ_self _
  have hlt' : a.current < a.depth := by
    show a.current < a.scopes.size
    rw [h.current, h.total, h.nested.current]
    exact Nat.lt_succ_self _
  exact h.find? name _ _ _ _ h.stands_current hlt hlt'

theorem get? (name : String) : a.get? name = e.get? name := by
  unfold Environment.get?
  rw [h.resolve? name]
  cases e.resolve? name with
  | none => rfl
  | some g =>
    show (do let scope ← a.scopes[shift k g]?; scope.get? name) =
      (do let scope ← e.scopes[g]?; scope.get? name)
    cases hs : e.scopes[g]? with
    | none => rw [h.scope_none hs]
    | some s =>
      obtain ⟨p', hs', -⟩ := h.scope hs
      rw [hs']
      rfl

theorem bind (g : Nat) (name : String) (v : Value) :
    Padded k i (e.bind g name v) (a.bind (shift k g) name v) where
  positive := h.positive
  nested := h.nested.bind g name v
  size := by rw [size_bind, h.size]
  total := by rw [size_bind, size_bind, h.total]
  current := h.current
  below f hf := by
    have hshift : shift k f = f := if_pos hf
    have hsame : shift k g = f ↔ g = f := by
      rw [← hshift, shift_inj, hshift]
    simp only [getElem?_bind, h.below f hf, hsame]
  empty := by rw [getElem?_bind, if_neg (shift_ne k g), h.empty]
  above {f s} hf hs := by
    have hshift : shift k f = f + 1 := if_neg (Nat.not_lt.2 hf)
    have hsame : shift k g = f + 1 ↔ g = f := by rw [← hshift, shift_inj]
    rw [getElem?_bind] at hs
    simp only [getElem?_bind, hsame]
    split at hs
    · obtain ⟨s', hs', rfl⟩ := Option.map_eq_some_iff.1 hs
      obtain ⟨p, p', hp, hstands, hscope⟩ := h.above hf hs'
      refine ⟨p, p', hp, hstands, ?_⟩
      rw [if_pos ‹_›, hscope]
      rfl
    · obtain ⟨p, p', hp, hstands, hscope⟩ := h.above hf hs
      exact ⟨p, p', hp, hstands, by rw [if_neg ‹_›, hscope]⟩

theorem push {p p' : Nat} (hp : p < e.scopes.size) (hstands : Stands k p p') :
    Padded k (i + 1) (e.push p) (a.push p') where
  positive := h.positive
  nested := h.nested.push hp
  size := by rw [size_push, h.size]; rfl
  total := by rw [size_push, size_push, h.total]
  current := h.total
  below f hf := by
    have hsize := h.size
    have htotal := h.total
    rw [getElem?_push, getElem?_push, if_neg (by omega), if_neg (by omega), h.below f hf]
  empty := by
    have hsize := h.size
    have htotal := h.total
    rw [getElem?_push, if_neg (by omega), h.empty]
  above {f s} hf hs := by
    have htotal := h.total
    rw [getElem?_push] at hs ⊢
    split at hs
    · rename_i hlast
      cases hs
      exact ⟨p, p', rfl, hstands, by rw [if_pos (by omega)]⟩
    · rw [if_neg (by omega)]
      exact h.above hf hs

omit h in
theorem pop (h : Padded k (i + 1) e a) {previous previous' : Nat}
    (hp : e.scopes.size = previous + 2) (hp' : previous' = previous + 1) :
    Padded k i (e.pop previous) (a.pop previous') := by
  have hsize := h.size
  have htotal := h.total
  have hpositive := h.positive
  have hmany : 1 < e.scopes.size := by omega
  have hmany' : 1 < a.scopes.size := by omega
  refine ⟨h.positive, h.nested.pop hp, ?_, ?_, hp', ?_, ?_, ?_⟩
  · rw [size_pop hmany]
    omega
  · rw [size_pop hmany, size_pop hmany']
    omega
  · intro f hf
    rw [getElem?_pop hmany, getElem?_pop hmany', if_pos (by omega), if_pos (by omega), h.below f hf]
  · rw [getElem?_pop hmany', if_pos (by omega), h.empty]
  · intro f s hf hs
    rw [getElem?_pop hmany] at hs
    split at hs
    · rw [getElem?_pop hmany', if_pos (by omega)]
      exact h.above hf hs
    · cases hs

omit h in
/-- When the empty scope is the last one and is closed, nothing is left of the difference. -/
theorem closed (h : Padded k 0 e a) : a.pop e.current = e := by
  have hsize := h.size
  have htotal := h.total
  have hpositive := h.positive
  have hscopes : (a.pop e.current).scopes = e.scopes := by
    refine Array.ext_getElem? fun g => ?_
    rw [getElem?_pop (by omega)]
    by_cases hg : g < k
    · rw [if_pos (by omega), h.below g hg]
    · rw [if_neg (by omega), Array.getElem?_eq_none (by omega)]
  exact congrArg (Environment.mk · e.current) hscopes

end Padded

/-- An empty scope inside the current one. -/
theorem Nested.padded {e : Environment} (hn : e.Nested) :
    Padded e.scopes.size 0 e (e.push e.current) where
  positive := hn.size_pos
  nested := hn
  size := rfl
  total := size_push ..
  current := hn.current
  below f hf := by rw [getElem?_push, if_neg (by omega)]
  empty := by
    have hcurrent := hn.current
    rw [getElem?_push, if_pos rfl, hcurrent]
    rfl
  above {f s} hf hs := by
    rw [Array.getElem?_eq_none hf] at hs
    cases hs

end Environment

/-! ## Runs -/

/-- The machine `m'` is `m` with an empty scope put in at `k`. -/
def Machine.Padded (k i : Nat) (m m' : Machine) : Prop :=
  ∃ a, m' = { m with env := a } ∧ m.env.Padded k i a

open Eval

section
variable {k i : Nat}

theorem respects_padded_get (name : Token) : Respects (Machine.Padded k i) (Eval.get name) := by
  rintro m _ ⟨a, rfl, h⟩
  have hread : a.read name = m.env.read name := by
    unfold Environment.read
    rw [h.get?]
  show (lift (m.env.read name) m).Alike _ (lift (a.read name) _)
  rw [hread]
  exact respects_lift _ _ _ ⟨a, rfl, h⟩

theorem respects_padded_assign (name : Token) (v : Value) :
    Respects (Machine.Padded k i) (Eval.assign name v) := by
  rintro m _ ⟨a, rfl, h⟩
  show ((lift (m.env.write name v) >>= fun env => modify fun m => { m with env }) m).Alike _
    ((lift (a.write name v) >>= fun env => modify fun m => { m with env }) _)
  rw [Environment.write_eq, Environment.write_eq, h.resolve?]
  cases m.env.resolve? name.lexeme with
  | none => exact .failed ⟨a, rfl, h⟩
  | some handle => exact .done ⟨_, rfl, h.bind handle _ v⟩

theorem respects_padded_print (line : Nat) (v : Value) :
    Respects (Machine.Padded k i) (Eval.print line v) := by
  rintro m _ ⟨a, rfl, h⟩
  unfold Eval.print
  dsimp only
  rcases m.sink.write (v.shown ++ "\n").toUTF8 with ⟨sink, _ | _⟩
  · exact .failed ⟨a, rfl, h⟩
  · exact .done ⟨a, rfl, h⟩

theorem respects_padded_counted {x : Eval Value} (hx : Respects (Machine.Padded k i) x)
    (line : Nat) (name : String) (arguments : Nat) :
    Respects (Machine.Padded k i) (counted line name arguments x) := by
  rintro m _ ⟨a, rfl, h⟩
  unfold Eval.counted
  split
  · exact .failed ⟨a, rfl, h⟩
  · have hrun := hx
      { m with depth := m.depth + 1, log := m.log.push ⟨name, arguments, m.depth⟩ } _ ⟨a, rfl, h⟩
    refine hrun.mapMachine ?_
    rintro out _ ⟨b, rfl, hout⟩
    exact ⟨b, rfl, hout⟩

/-- A scope that is opened for a run on both machines, each in its own place. -/
theorem Machine.Padded.within {m : Machine} {a : Environment} (h : m.env.Padded k i a)
    {p p' : Nat} (hp : p < m.env.scopes.size) (hstands : Environment.Stands k p p')
    {x : Eval Unit} (hx : Respects (Machine.Padded k (i + 1)) x) :
    (within p x m).Alike (Machine.Padded k i) (within p' x { m with env := a }) := by
  have hrun := hx { m with env := m.env.push p } _ ⟨a.push p', rfl, h.push hp hstands⟩
  refine hrun.mapMachine ?_
  rintro out _ ⟨b, rfl, hout⟩
  refine ⟨b.pop a.current, rfl, hout.pop ?_ h.current⟩
  have hcurrent := h.nested.current
  have hbefore := h.size
  have hafter := hout.size
  omega

theorem respects_padded_block {x : Eval Unit} (hx : Respects (Machine.Padded k (i + 1)) x) :
    Respects (Machine.Padded k i) (do within (← read (·.env.current)) x) := by
  rintro m _ ⟨a, rfl, h⟩
  have hcurrent := h.nested.current
  exact Machine.Padded.within h (by omega) h.stands_current hx

theorem respects_padded_body {x : Eval Unit} (hx : Respects (Machine.Padded k (i + 1)) x) :
    Respects (Machine.Padded k i) (within 0 x) := by
  rintro m _ ⟨a, rfl, h⟩
  have hglobal : Environment.shift k 0 = 0 := if_pos h.positive
  exact Machine.Padded.within h h.nested.size_pos (.inl hglobal.symm) hx

/-- Behind the empty scope declarations go into a scope that both machines have. -/
theorem respects_padded_define (name : String) (v : Value) :
    Respects (Machine.Padded k (i + 1)) (Eval.define name v) := by
  rintro m _ ⟨a, rfl, h⟩
  have hcurrent := h.nested.current
  have hsize := h.size
  have hplace : a.current = Environment.shift k m.env.current := by
    rw [h.current]
    exact (if_neg (by omega)).symm
  have hdefine : Environment.Padded k (i + 1) (m.env.define name v) (a.define name v) := by
    rw [Environment.define_eq_bind, Environment.define_eq_bind, hplace]
    exact h.bind _ name v
  exact .done ⟨_, rfl, hdefine⟩

end

/-- In the scopes behind the empty one no run can tell the two machines apart, and in the empty
scope itself none that declares nothing there. -/
theorem padded_simulation (k : Nat) :
    Simulation (fun i => decide (0 < i)) fun i => Machine.Padded k i where
  get _ := respects_padded_get
  assign _ := respects_padded_assign
  define
    | _ + 1, _ => respects_padded_define
  defineFunction
    | i + 1, _, f => by
      rintro m _ ⟨a, rfl, h⟩
      exact respects_padded_define f.name.lexeme (.callable ⟨m.fresh, .function f⟩)
        { m with fresh := m.fresh + 1 } _ ⟨a, rfl, h⟩
  print _ := respects_padded_print
  clock i := by
    rintro m _ ⟨a, rfl, h⟩
    exact ⟨rfl, fun _ => ⟨a, rfl, h⟩⟩
  counted _ _ _ _ _ hx := respects_padded_counted hx _ _ _
  block i _ hx := respects_padded_block (hx (i + 1) (decide_eq_true i.succ_pos))
  body i _ hx := respects_padded_body (hx (i + 1) (decide_eq_true i.succ_pos))

/-! ## Runs in the empty scope itself -/

/-- Whether the statement declares nothing in the scope that it runs in. -/
def Stmt.declaresNothing : Stmt → Bool
  | .expr _ | .print .. | .block _ => true
  | .declare .. | .function .. => false
  | .branch _ yes none => yes.declaresNothing
  | .branch _ yes (some no) => yes.declaresNothing && no.declaresNothing
  | .loop _ body => body.declaresNothing

theorem Stmt.obeys_of_declaresNothing :
    ∀ s : Stmt, s.declaresNothing = true → s.obeys .noGlobals false = true
  | .expr e, _ => e.obeys_of_lax lax_noGlobals
  | .print _ e, _ => e.obeys_of_lax lax_noGlobals
  | .block body, _ => Stmt.obeysAll_noGlobals body
  | .branch test yes none, h =>
    Bool.and_eq_true_iff.2 ⟨test.obeys_of_lax lax_noGlobals, yes.obeys_of_declaresNothing h⟩
  | .branch test yes (some no), h => by
    obtain ⟨hyes, hno⟩ := Bool.and_eq_true_iff.1 h
    have htest := test.obeys_of_lax lax_noGlobals
    exact Bool.and_eq_true_iff.2 ⟨Bool.and_eq_true_iff.2 ⟨htest, yes.obeys_of_declaresNothing hyes⟩,
      no.obeys_of_declaresNothing hno⟩
  | .loop test body, h =>
    Bool.and_eq_true_iff.2 ⟨test.obeys_of_lax lax_noGlobals, body.obeys_of_declaresNothing h⟩

theorem respects_padded_exec {host : Host} (hhost : host.Aloof) (k n rounds : Nat) {s : Stmt}
    (hs : s.declaresNothing = true) :
    Respects (Machine.Padded k 0) (exec (invoke host n) rounds s) :=
  (padded_simulation k).exec hhost n rounds 0 (s.obeys_of_declaresNothing hs)

/-- A run that does not notice an empty scope may as well have a scope of its own. -/
theorem within_current {x : Eval Unit} (hx : ∀ k, Respects (Machine.Padded k 0) x) {m : Machine}
    (hm : m.env.Nested) : within m.env.current x m = x m := by
  have hrun := hx m.env.scopes.size m _ ⟨_, rfl, hm.padded⟩
  -- the run itself has as many scopes in the end as before
  have hclosed {out out' : Machine} (h : Machine.Padded m.env.scopes.size 0 out out') :
      { out' with env := out'.env.pop m.env.current } = out := by
    obtain ⟨b, rfl, h⟩ := h
    have hsame : out.env.current + 1 = m.env.current + 1 := by
      rw [← h.nested.current, h.size, hm.current]
    show { out with env := b.pop m.env.current } = out
    rw [← Nat.succ.inj hsame, h.closed]
  show Outcome.mapMachine _ (x { m with env := m.env.push m.env.current }) = x m
  generalize x { m with env := m.env.push m.env.current } = o', x m = o at hrun ⊢
  cases hrun with
  | done h => exact congrArg _ (hclosed h)
  | failed h => exact congrArg _ (hclosed h)
  | exhausted => rfl

end Sprog
