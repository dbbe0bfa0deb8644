import Sprog.Operation
import Sprog.Proofs.Scopes

/-!
# The functions that a machine holds

A call runs whatever body its callee has, and a callee may come from any variable. So what holds of
all calls is what holds of every function in any scope. `allFunctions` says so of values and scopes,
for any property of functions, and `allValues` says the like for any property of values; no
operation on the scopes brings in a value that was not there or was not given to it.

* `allValues_bind`, `allValues_push`, `allValues_pop`: operations that change the scopes.
* `allValues_get?`: a value that is read.
-/
namespace Sprog

/-- All values that the scope binds have the property. -/
def Scope.allValues (q : Value → Bool) (s : Scope) : Bool :=
  s.bindings.all fun b => q b.2

/-- All values in any scope have the property. -/
def Environment.allValues (q : Value → Bool) (e : Environment) : Bool :=
  e.scopes.all (·.allValues q)

/-- The value is no function, or one with the property. -/
def Value.allFunctions (p : Function → Bool) : Value → Bool
  | callable ⟨_, .function f⟩ => p f
  | callable ⟨_, .native _⟩ => true
  | nil | bool _ | number _ | text _ => true

/-- All functions that the scope binds have the property. -/
def Scope.allFunctions (p : Function → Bool) (s : Scope) : Bool :=
  s.bindings.all fun b => b.2.allFunctions p

/-- All functions in any scope have the property. -/
def Environment.allFunctions (p : Function → Bool) (e : Environment) : Bool :=
  e.scopes.all (·.allFunctions p)

/-! ## Values -/

/-- The value cannot be called. -/
def Value.isPlain : Value → Bool
  | callable _ => false
  | nil | bool _ | number _ | text _ => true

theorem isPlain_ofConstant (c : Constant) : (Value.ofConstant c).isPlain = true := by
  cases c <;> rfl

/-- An operation gives a value that cannot be called, or it fails and blames its operator. -/
theorem UnaryOp.apply_cases (op : UnaryOp) (token : Token) (v : Value) :
    (∃ a, op.apply token v = .ok a ∧ a.isPlain = true) ∨
      op.apply token v = .error (.operandNotNumber token) := by
  unfold UnaryOp.apply
  split
  · exact .inl ⟨_, rfl, rfl⟩
  · exact .inl ⟨_, rfl, rfl⟩
  · exact .inr rfl

theorem BinaryOp.apply_cases (op : BinaryOp) (token : Token) (l r : Value) :
    (∃ a, op.apply token l r = .ok a ∧ a.isPlain = true) ∨
      ∃ f, op.apply token l r = .error f ∧
        (f = .operandsNotNumbers token ∨ f = .operandsNotNumbersOrTexts token) := by
  have harithmetic (f) : (∃ a, arithmetic f token l r = .ok a ∧ a.isPlain = true) ∨
      ∃ e, arithmetic f token l r = .error e ∧
        (e = .operandsNotNumbers token ∨ e = .operandsNotNumbersOrTexts token) := by
    unfold arithmetic
    split
    · exact .inl ⟨_, rfl, rfl⟩
    · exact .inr ⟨_, rfl, .inl rfl⟩
  have hcompare (f) : (∃ a, compare f token l r = .ok a ∧ a.isPlain = true) ∨
      ∃ e, compare f token l r = .error e ∧
        (e = .operandsNotNumbers token ∨ e = .operandsNotNumbersOrTexts token) := by
    unfold compare
    split
    · exact .inl ⟨_, rfl, rfl⟩
    · exact .inr ⟨_, rfl, .inl rfl⟩
  -- the operations fall into four families, none of which gives a callable
  cases op with
  | add =>
    show (∃ a, plus token l r = .ok a ∧ _) ∨ ∃ f, plus token l r = .error f ∧ _
    unfold plus
    split
    · exact .inl ⟨_, rfl, rfl⟩
    · exact .inl ⟨_, rfl, rfl⟩
    · exact .inr ⟨_, rfl, .inr rfl⟩
  | subtract | multiply | divide => exact harithmetic _
  | greater | greaterEqual | less | lessEqual => exact hcompare _
  | equal | notEqual => exact .inl ⟨_, rfl, rfl⟩

/-! ## Scopes -/

section
variable {q : Value → Bool}

theorem Scope.allValues_insert {s : Scope} (hs : s.allValues q = true) (name : String) {v : Value}
    (hv : q v = true) : (s.insert name v).allValues q = true := by
  obtain ⟨bindings, parent⟩ := s
  show ((Bindings.insert name v bindings).all fun b => q b.2) = true
  induction bindings with
  | nil => simp [Bindings.insert, hv]
  | cons b rest ih =>
    have hboth : q b.2 = true ∧ (rest.all fun b => q b.2) = true := by
      simpa [Scope.allValues] using hs
    unfold Bindings.insert
    split
    · simp [hv, hboth.2]
    · simp [hboth.1, ih hboth.2]

theorem Scope.allValues_get? {s : Scope} (hs : s.allValues q = true) {name : String} {v : Value}
    (h : s.get? name = some v) : q v = true := by
  obtain ⟨before, behind, hsplit, -⟩ := List.lookup_eq_some_iff.1 h
  have hmem : (name, v) ∈ s.bindings := by simp [hsplit]
  exact List.all_eq_true.1 hs _ hmem

namespace Environment

variable {e : Environment}

theorem allValues_iff : e.allValues q = true ↔
    ∀ (h : Nat) s, e.scopes[h]? = some s → s.allValues q = true := by
  unfold allValues
  rw [Array.all_eq_true_iff_forall_mem]
  constructor
  · intro hall h s hs
    exact hall s (Array.mem_of_getElem? hs)
  · intro hall s hs
    obtain ⟨h, hs⟩ := Array.mem_iff_getElem?.1 hs
    exact hall h s hs

section
variable (he : e.allValues q = true)

include he

theorem allValues_bind (handle : Nat) (name : String) {v : Value} (hv : q v = true) :
    (e.bind handle name v).allValues q = true := by
  rw [allValues_iff] at he ⊢
  intro h s hs
  rw [getElem?_bind] at hs
  split at hs
  · obtain ⟨s', hs', rfl⟩ := Option.map_eq_some_iff.1 hs
    exact Scope.allValues_insert (he h s' hs') name hv
  · exact he h s hs

theorem allValues_push (parent : Nat) : (e.push parent).allValues q = true := by
  rw [allValues_iff] at he ⊢
  intro h s hs
  rw [getElem?_push] at hs
  split at hs
  · cases hs
    rfl
  · exact he h s hs

theorem allValues_pop (previous : Nat) : (e.pop previous).allValues q = true := by
  by_cases hsize : 1 < e.scopes.size
  · rw [allValues_iff] at he ⊢
    intro h s hs
    rw [getElem?_pop hsize] at hs
    split at hs
    · exact he h s hs
    · cases hs
  · have hscopes : (e.pop previous).scopes = e.scopes := if_neg hsize
    rwa [allValues, hscopes]

theorem allValues_get? {name : String} {v : Value} (h : e.get? name = some v) : q v = true := by
  obtain ⟨handle, -, h⟩ := Option.bind_eq_some_iff.1 h
  obtain ⟨s, hs, h⟩ := Option.bind_eq_some_iff.1 h
  exact Scope.allValues_get? (allValues_iff.1 he handle s hs) h

end

end Environment

end

end Sprog
