import Sprog.Environment

/-!
# The order of the scopes

The scopes that are open are nested (`Environment.Nested`): the global one is outermost, every other
one stands inside a scope that was opened before it, and the current one was opened last. All
operations keep this, as long as scopes are closed in the order opposite to their opening.

* `Nested.bind`: a new value for a name in any scope.
* `Nested.push`, `Nested.pop`: scopes that are opened and closed.
* `Nested.exists_chain`: every way outwards ends.
* `Nested.resolve?_eq`: a name is found in the first scope on the way that binds it.
-/
namespace Sprog

namespace Environment

/-- Only the global scope has no scope around it, every other scope is inside one with a smaller
handle, and the current scope is the last one. -/
structure Nested (e : Environment) : Prop where
  global : ∃ s, e.scopes[0]? = some s ∧ s.parent = none
  parent : ∀ {h : Nat} {s}, 0 < h → e.scopes[h]? = some s → ∃ p : Nat, s.parent = some p ∧ p < h
  current : e.scopes.size = e.current + 1

/-- Binds a name in the scope with the given handle. -/
def bind (e : Environment) (handle : Nat) (name : String) (value : Value) : Environment :=
  { e with scopes := e.scopes.modify handle (·.insert name value) }

theorem define_eq_bind (e : Environment) (name : String) (value : Value) :
    e.define name value = e.bind e.current name value := rfl

theorem assign?_eq_map (e : Environment) (name : String) (value : Value) :
    e.assign? name value = (e.resolve? name).map fun handle => e.bind handle name value := by
  unfold assign?
  cases e.resolve? name <;> rfl

theorem write_eq (e : Environment) (name : Token) (value : Value) : e.write name value =
    match e.resolve? name.lexeme with
    | some handle => .ok (e.bind handle name.lexeme value)
    | none => .error (.undefinedVariable name) := by
  unfold write
  rw [assign?_eq_map]
  cases e.resolve? name.lexeme <;> rfl

@[simp] theorem current_bind (e : Environment) (handle : Nat) (name : String) (value : Value) :
    (e.bind handle name value).current = e.current := rfl

@[simp] theorem size_bind (e : Environment) (handle : Nat) (name : String) (value : Value) :
    (e.bind handle name value).scopes.size = e.scopes.size :=
  Array.size_modify

theorem getElem?_bind (e : Environment) (handle : Nat) (name : String) (value : Value)
    (h : Nat) : (e.bind handle name value).scopes[h]? =
      if handle = h then e.scopes[h]?.map (·.insert name value) else e.scopes[h]? :=
  Array.getElem?_modify

/-- A binding changes no scope's parent. -/
theorem parent_bind (e : Environment) (handle : Nat) (name : String) (value : Value)
    (h : Nat) : (e.bind handle name value).scopes[h]?.map Scope.parent =
      e.scopes[h]?.map Scope.parent := by
  rw [getElem?_bind]
  split
  · cases e.scopes[h]? <;> rfl
  · rfl

theorem size_push (e : Environment) (parent : Handle) :
    (e.push parent).scopes.size = e.scopes.size + 1 :=
  Array.size_push _

theorem getElem?_push (e : Environment) (parent h : Nat) : (e.push parent).scopes[h]? =
    if h = e.scopes.size then some ⟨[], some parent⟩ else e.scopes[h]? :=
  Array.getElem?_push

theorem scopes_pop {e : Environment} (hsize : 1 < e.scopes.size) (previous : Handle) :
    (e.pop previous).scopes = e.scopes.pop :=
  if_pos hsize

theorem size_pop {e : Environment} (hsize : 1 < e.scopes.size) (previous : Handle) :
    (e.pop previous).scopes.size = e.scopes.size - 1 := by
  rw [scopes_pop hsize, Array.size_pop]

theorem getElem?_pop {e : Environment} (hsize : 1 < e.scopes.size) (previous h : Nat) :
    (e.pop previous).scopes[h]? = if h < e.scopes.size - 1 then e.scopes[h]? else none := by
  rw [scopes_pop hsize, Array.getElem?_pop]

theorem nested_empty : empty.Nested := by
  refine ⟨⟨_, rfl, rfl⟩, ?_, rfl⟩
  intro h s hpos hs
  have hlt : h < 1 := (Array.getElem?_eq_some_iff.1 hs).1
  omega

namespace Nested

variable {e : Environment} (hn : e.Nested)

include hn

theorem size_pos : 0 < e.scopes.size := by
  have := hn.current
  omega

theorem parent_lt {h p : Nat} {s : Scope} (hs : e.scopes[h]? = some s)
    (hp : s.parent = some p) : p < h := by
  rcases Nat.eq_zero_or_pos h with rfl | hpos
  · obtain ⟨s₀, hs₀, hnone⟩ := hn.global
    rw [hs] at hs₀
    cases hs₀
    rw [hp] at hnone
    cases hnone
  · obtain ⟨p', hp', hlt⟩ := hn.parent hpos hs
    rw [hp] at hp'
    cases hp'
    exact hlt

theorem bind (handle : Nat) (name : String) (value : Value) :
    (e.bind handle name value).Nested := by
  constructor
  · obtain ⟨s, hs, hp⟩ := hn.global
    rw [getElem?_bind, hs]
    split
    · exact ⟨_, rfl, hp⟩
    · exact ⟨s, rfl, hp⟩
  · intro h s hpos hs
    have hparent := e.parent_bind handle name value h
    rw [hs] at hparent
    obtain ⟨s', hs', hsame⟩ := Option.map_eq_some_iff.1 hparent.symm
    rw [← hsame]
    exact hn.parent hpos hs'
  · rw [current_bind, size_bind]
    exact hn.current

theorem push {parent : Nat} (hp : parent < e.scopes.size) : (e.push parent).Nested := by
  constructor
  · obtain ⟨s, hs, hnone⟩ := hn.global
    have hpos := hn.size_pos
    rw [getElem?_push, if_neg (by omega)]
    exact ⟨s, hs, hnone⟩
  · intro h s hpos hs
    rw [getElem?_push] at hs
    split at hs
    · rename_i hlast
      cases hs
      exact ⟨parent, rfl, by omega⟩
    · exact hn.parent hpos hs
  · exact size_push e parent

/-- Closing the last scope makes the one before it the current one. -/
theorem pop {previous : Nat} (hp : e.scopes.size = previous + 2) : (e.pop previous).Nested := by
  have hsize : 1 < e.scopes.size := by omega
  constructor
  · obtain ⟨s, hs, hnone⟩ := hn.global
    rw [getElem?_pop hsize, if_pos (by omega)]
    exact ⟨s, hs, hnone⟩
  · intro h s hpos hs
    rw [getElem?_pop hsize] at hs
    split at hs
    · exact hn.parent hpos hs
    · cases hs
  · rw [size_pop hsize]
    show _ = previous + 1
    omega

end Nested

/-! ## The way outwards -/

/-- The scopes on the way outwards from one of them. All of them are open, each stands inside the
next one, and the last stands inside none. -/
inductive Chain (e : Environment) : Nat → List Nat → Prop where
  | outermost {h : Nat} {s : Scope} : e.scopes[h]? = some s → s.parent = none → Chain e h [h]
  | inside {h p : Nat} {s : Scope} {hs : List Nat} : e.scopes[h]? = some s → s.parent = some p →
      Chain e p hs → Chain e h (h :: hs)

/-- Whether the scope with the given handle binds the name. -/
def binds (e : Environment) (name : String) (h : Nat) : Bool :=
  (e.scopes[h]?.bind (·.get? name)).isSome

theorem binds_eq {e : Environment} {h : Nat} {s : Scope} (hs : e.scopes[h]? = some s)
    (name : String) : e.binds name h = (s.get? name).isSome := by
  rw [binds, hs]
  rfl

/-- Every way outwards ends, and it is no longer than the number of scopes opened before. -/
theorem Nested.exists_chain {e : Environment} (hn : e.Nested) {h : Nat} (hh : h < e.scopes.size) :
    ∃ hs, e.Chain h hs ∧ hs.length ≤ h + 1 := by
  induction h using Nat.strongRecOn with
  | ind h ih =>
    cases h with
    | zero =>
      obtain ⟨s, hs, hnone⟩ := hn.global
      exact ⟨[0], .outermost hs hnone, by simp⟩
    | succ h =>
      have hs := Array.getElem?_eq_getElem hh
      obtain ⟨p, hp, hlt⟩ := hn.parent (Nat.succ_pos h) hs
      obtain ⟨hs', hchain, hlength⟩ := ih p hlt (by omega)
      refine ⟨(h + 1) :: hs', .inside hs hp hchain, ?_⟩
      rw [List.length_cons]
      omega

/-- The search for a name goes along the way outwards. -/
theorem Chain.find?_eq {e : Environment} {h : Nat} {hs : List Nat} (hc : e.Chain h hs)
    (name : String) {n : Nat} (hn : hs.length ≤ n) :
    e.find? name n h = hs.find? (e.binds name) := by
  induction hc generalizing n with
  | outermost hscope hnone =>
    rw [List.length_singleton] at hn
    obtain ⟨n, rfl⟩ : ∃ k, n = k + 1 := ⟨n - 1, by omega⟩
    rw [find?, List.find?_singleton, binds_eq hscope]
    simp [hscope, hnone]
  | @inside h p s hs hscope hp _ ih =>
    rw [List.length_cons] at hn
    obtain ⟨n, rfl⟩ : ∃ k, n = k + 1 := ⟨n - 1, by omega⟩
    rw [find?, List.find?_cons, binds_eq hscope]
    simp only [hscope, hp]
    rw [ih (by omega)]
    cases (s.get? name).isSome <;> rfl

/-- A name is found in the first scope on the way outwards that binds it. -/
theorem Nested.resolve?_eq {e : Environment} (hn : e.Nested) :
    ∃ hs, e.Chain e.current hs ∧ ∀ name, e.resolve? name = hs.find? (e.binds name) := by
  have hcurrent := hn.current
  obtain ⟨hs, hchain, hlength⟩ := hn.exists_chain (h := e.current) (by omega)
  refine ⟨hs, hchain, fun name => hchain.find?_eq name ?_⟩
  rw [depth]
  omega

end Environment

end Sprog
