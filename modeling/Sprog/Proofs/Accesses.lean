import Sprog.Proofs.Scopes

/-!
# Rows of operations on the scopes

A run, or a host, works on the scopes by a row of operations (`Access`). Such a row is disciplined
(`Lifo`) if scopes are opened inside open ones only, and if each is closed with the handle that was
the current one when it was opened, the last one first. Then the scopes are in order at every
moment, and every operation finds what it needs.

* `Step.orderly`, `Lifo.orderly`: one operation and a row of them keep the scopes in order.
* `Step.safe`: what an operation finds when it comes.
* `Lifo.safe`: the same at every place of a row.
-/
namespace Sprog

/-- There is a scope with the handle. -/
def Environment.IsOpen (e : Environment) (h : Nat) : Prop := h < e.scopes.size

instance (e : Environment) (h : Nat) : Decidable (e.IsOpen h) :=
  inferInstanceAs (Decidable (h < e.scopes.size))

/-- An operation on the scopes. -/
inductive Access where
  | get (name : Token)
  | assign (name : Token) (value : Value)
  | define (name : String) (value : Value)
  | push (parent : Handle)
  | pop (previous : Handle)

namespace Access

/-- What the operation makes of the scopes. -/
def perform : Access → Environment → Environment
  | get _, e => e
  | assign name value, e =>
    match e.write name value with
    | .ok e' => e'
    | .error _ => e
  | define name value, e => e.define name value
  | push parent, e => e.push parent
  | pop previous, e => e.pop previous

/-- What the operation answers: a value if it asks for one, or a fault. -/
def answer : Access → Environment → Except Fault (Option Value)
  | get name, e => (e.read name).map some
  | assign name value, e => (e.write name value).map fun _ => none
  | define .., _ | push _, _ | pop _, _ => .ok none

/-- The operation may come now, and `hs` and `hs'` are the handles to give back before and after
it. -/
inductive Step (e : Environment) : List Handle → Access → List Handle → Prop where
  | get {hs : List Handle} (name : Token) : Step e hs (.get name) hs
  | assign {hs : List Handle} (name : Token) (value : Value) : Step e hs (.assign name value) hs
  | define {hs : List Handle} (name : String) (value : Value) : Step e hs (.define name value) hs
  | push {hs : List Handle} {parent : Handle} : e.IsOpen parent →
      Step e hs (.push parent) (e.current :: hs)
  | pop {h : Handle} {hs : List Handle} : Step e (h :: hs) (.pop h) hs

/-- What an operation needs: the scopes that it uses are open, a search ends and goes along open
scopes only, and when a scope is closed there is another one to go back to. -/
def Safe (e : Environment) : Access → Prop
  | get name | assign name _ =>
    ∃ hs, e.Chain e.current hs ∧ e.resolve? name.lexeme = hs.find? (e.binds name.lexeme)
  | define .. => e.IsOpen e.current
  | push parent => e.IsOpen parent
  | pop previous => 1 < e.scopes.size ∧ (e.pop previous).IsOpen previous

end Access

open Access

/-- A disciplined row of operations. It leads from the scopes `e` and the handles `hs` that are to
be given back to `e'` and `hs'`. -/
inductive Lifo : Environment → List Handle → List Access → Environment → List Handle → Prop where
  | nil {e : Environment} {hs : List Handle} : Lifo e hs [] e hs
  | cons {e e' : Environment} {hs hs₁ hs' : List Handle} {a : Access} {as : List Access} :
      a.Step e hs hs₁ → Lifo (a.perform e) hs₁ as e' hs' → Lifo e hs (a :: as) e' hs'

/-- The handles to give back belong to the scopes below the last one, each to the one below the
scope that it closes. -/
def Returnable : Nat → List Handle → Prop
  | _, [] => True
  | size, h :: hs => size = h + 2 ∧ Returnable (size - 1) hs

/-- Nested scopes, and the right handles to close the last ones. -/
structure Environment.Orderly (e : Environment) (hs : List Handle) : Prop where
  nested : e.Nested
  returnable : Returnable e.scopes.size hs

theorem perform_assign (e : Environment) (name : Token) (value : Value) :
    (assign name value).perform e = e ∨
      ∃ handle, (assign name value).perform e = e.bind handle name.lexeme value := by
  rw [perform, Environment.write_eq]
  cases e.resolve? name.lexeme with
  | none => exact .inl rfl
  | some handle => exact .inr ⟨handle, rfl⟩

/-! ## One operation -/

namespace Access.Step

variable {e : Environment} {hs hs' : List Handle} {a : Access}

theorem orderly (h : a.Step e hs hs') (ho : e.Orderly hs) : (a.perform e).Orderly hs' := by
  obtain ⟨hn, hr⟩ := ho
  cases h with
  | get => exact ⟨hn, hr⟩
  | assign name value =>
    rcases perform_assign e name value with heq | ⟨handle, heq⟩ <;> rw [heq]
    · exact ⟨hn, hr⟩
    · exact ⟨hn.bind _ _ _, by rwa [Environment.size_bind]⟩
  | define name value =>
    show (e.define name value).Orderly _
    rw [Environment.define_eq_bind]
    exact ⟨hn.bind _ _ _, by rwa [Environment.size_bind]⟩
  | @push _ parent hp =>
    refine ⟨hn.push hp, ?_⟩
    rw [show (perform (.push parent) e).scopes.size = e.scopes.size + 1 from e.size_push parent]
    have := hn.current
    exact ⟨by omega, hr⟩
  | @pop h _ =>
    obtain ⟨hsize, hr⟩ := hr
    refine ⟨hn.pop hsize, ?_⟩
    rw [show (perform (.pop h) e).scopes.size = e.scopes.size - 1 from
      Environment.size_pop (by omega) h]
    exact hr

/-- There are as many more scopes as there are handles to give back. -/
theorem size_add (h : a.Step e hs hs') (ho : e.Orderly hs) :
    (a.perform e).scopes.size + hs.length = e.scopes.size + hs'.length := by
  cases h with
  | get => rfl
  | assign name value =>
    rcases perform_assign e name value with heq | ⟨handle, heq⟩ <;> rw [heq]
    rw [Environment.size_bind]
  | define name value =>
    show (e.define name value).scopes.size + _ = _
    rw [Environment.define_eq_bind, Environment.size_bind]
  | @push _ parent hp =>
    show (e.push parent).scopes.size + _ = _
    rw [e.size_push, List.length_cons]
    omega
  | @pop h _ =>
    have hsize := ho.returnable.1
    show (e.pop h).scopes.size + _ = _
    rw [Environment.size_pop (by omega), List.length_cons]
    omega

/-- An operation that comes in order finds what it needs. -/
theorem safe (h : a.Step e hs hs') (ho : e.Orderly hs) : a.Safe e := by
  obtain ⟨hn, hr⟩ := ho
  obtain ⟨chain, hchain, hresolve⟩ := hn.resolve?_eq
  cases h with
  | get name => exact ⟨chain, hchain, hresolve _⟩
  | assign name value => exact ⟨chain, hchain, hresolve _⟩
  | define => exact Nat.lt_of_lt_of_eq (Nat.lt_succ_self _) hn.current.symm
  | push hp => exact hp
  | @pop h _ =>
    have hsize := hr.1
    have hmany : 1 < e.scopes.size := by omega
    refine ⟨hmany, ?_⟩
    rw [Environment.IsOpen, Environment.size_pop hmany]
    omega

end Access.Step

/-! ## Rows of operations -/

/-- What the operations make of the scopes, one after the other. -/
def replay (e : Environment) (as : List Access) : Environment :=
  as.foldl (fun e a => a.perform e) e

namespace Lifo

variable {e e₁ e' : Environment} {hs hs₁ hs' : List Handle} {as bs : List Access}

theorem append (h : Lifo e hs as e₁ hs₁) (h' : Lifo e₁ hs₁ bs e' hs') :
    Lifo e hs (as ++ bs) e' hs' := by
  induction h with
  | nil => exact h'
  | cons hstep _ ih => exact .cons hstep (ih h')

theorem of_append (h : Lifo e hs (as ++ bs) e' hs') :
    ∃ e₁ hs₁, Lifo e hs as e₁ hs₁ ∧ Lifo e₁ hs₁ bs e' hs' := by
  induction as generalizing e hs with
  | nil => exact ⟨e, hs, .nil, h⟩
  | cons a as ih =>
    cases h with
    | cons hstep hrest =>
      obtain ⟨e₁, hs₁, hleft, hright⟩ := ih hrest
      exact ⟨e₁, hs₁, .cons hstep hleft, hright⟩

/-- More handles may wait to be given back later. -/
theorem beneath (h : Lifo e hs as e' hs') (base : List Handle) :
    Lifo e (hs ++ base) as e' (hs' ++ base) := by
  induction h with
  | nil => exact .nil
  | cons hstep _ ih =>
    refine .cons ?_ ih
    cases hstep with
    | get name => exact .get name
    | assign name value => exact .assign name value
    | define name value => exact .define name value
    | push hp => exact .push hp
    | pop => exact .pop

theorem replay_eq (h : Lifo e hs as e' hs') : replay e as = e' := by
  induction h with
  | nil => rfl
  | cons _ _ ih => exact ih

theorem orderly (h : Lifo e hs as e' hs') (ho : e.Orderly hs) : e'.Orderly hs' := by
  induction h with
  | nil => exact ho
  | cons hstep _ ih => exact ih (hstep.orderly ho)

theorem size_add (h : Lifo e hs as e' hs') (ho : e.Orderly hs) :
    e'.scopes.size + hs.length = e.scopes.size + hs'.length := by
  induction h with
  | nil => rfl
  | cons hstep _ ih =>
    have hone := hstep.size_add ho
    have hrest := ih (hstep.orderly ho)
    omega

/-- At every place of a disciplined row the scopes are nested and the operation finds what it
needs. -/
theorem safe (h : Lifo e hs (as ++ a :: bs) e' hs') (ho : e.Orderly hs) :
    (replay e as).Nested ∧ a.Safe (replay e as) := by
  obtain ⟨e₁, hs₁, hleft, hright⟩ := h.of_append
  have ho₁ := hleft.orderly ho
  rw [hleft.replay_eq]
  cases hright with
  | cons hstep _ => exact ⟨ho₁.nested, hstep.safe ho₁⟩

end Lifo

end Sprog
