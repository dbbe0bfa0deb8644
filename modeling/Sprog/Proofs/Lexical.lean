import Sprog.Proofs.Accesses

/-!
# Scopes as plain lexical environments

The scopes that are open stand in one array, and places in it are used again. Here is what they
stand for: frames that bind names to values (`Lexical`). A frame is known by its birth, the number
of frames opened before it, so no two are ever confused; the frames around it are fixed when it is
opened. A disciplined row of operations gives the same answers on the array as on the frames.

* `Lexical.Shows`: the scopes show the open frames, each with its bindings and the frames around it.
* `Shows.bind`, `Shows.push`, `Shows.pop`: the operations keep this.
* `Shows.step`: one operation, with its answer.
* `lifo_refines`: a row of them, from the global scope alone.
-/
namespace Sprog

/-- Frames that bind names to values. -/
structure Lexical where
  /-- What the frame with the given birth binds a name to. -/
  value : Nat → String → Option Value
  /-- For each open frame, in the order of their opening, the frame itself and then the frames
  around it from the inside out. -/
  chains : Array (List Nat)
  /-- How many frames were opened so far. -/
  born : Nat

namespace Lexical

/-- One frame that binds nothing. -/
def start : Lexical := ⟨fun _ _ => none, #[[0]], 1⟩

/-- The frames that can be seen: the one opened last and those around it. -/
def visible (l : Lexical) : List Nat := l.chains.back?.getD []

/-- The innermost frame that can be seen and binds the name. -/
def find? (l : Lexical) (name : String) : Option Nat :=
  l.visible.find? fun f => (l.value f name).isSome

/-- Binds one name in one frame. -/
def bind (l : Lexical) (frame : Nat) (name : String) (value : Value) : Lexical :=
  { l with value := fun f x => if f = frame ∧ x = name then some value else l.value f x }

/-- What an operation makes of the frames. -/
def perform (l : Lexical) : Access → Lexical
  | .get _ => l
  | .assign name value =>
    match l.find? name.lexeme with
    | some f => l.bind f name.lexeme value
    | none => l
  | .define name value =>
    match l.visible with
    | f :: _ => l.bind f name value
    | [] => l
  | .push parent =>
    { l with chains := l.chains.push (l.born :: l.chains[parent]?.getD []), born := l.born + 1 }
  | .pop _ => { l with chains := l.chains.pop }

/-- What an operation answers. -/
def answer (l : Lexical) : Access → Except Fault (Option Value)
  | .get name =>
    match (l.find? name.lexeme).bind (l.value · name.lexeme) with
    | some value => .ok (some value)
    | none => .error (.undefinedVariable name)
  | .assign name _ =>
    match l.find? name.lexeme with
    | some _ => .ok none
    | none => .error (.undefinedVariable name)
  | .define .. | .push _ | .pop _ => .ok none

/-- What the operations make of the frames, one after the other. -/
def replay (l : Lexical) (as : List Access) : Lexical := as.foldl perform l

/-- What the operations answer, one after the other. -/
def answers (l : Lexical) : List Access → List (Except Fault (Option Value))
  | [] => []
  | a :: as => l.answer a :: answers (l.perform a) as

/-- The frame stands at the given place among the open ones. -/
def At (l : Lexical) (h f : Nat) : Prop := ∃ outer, l.chains[h]? = some (f :: outer)

/-- The scope `s` has the bindings of the frame at its place, and stands inside the same. -/
structure ShowsAt (l : Lexical) (h : Nat) (s : Scope) (f : Nat) (outer : List Nat) : Prop where
  chain : l.chains[h]? = some (f :: outer)
  value : ∀ name, s.get? name = l.value f name
  outermost : s.parent = none → outer = []
  inside : ∀ p : Nat, s.parent = some p → l.chains[p]? = some outer

/-- The scopes show the open frames: each has the bindings of the frame at its place and stands
inside the same frames. No frame stands at two places, and one that is not yet born binds
nothing. -/
structure Shows (l : Lexical) (e : Environment) : Prop where
  size : l.chains.size = e.scopes.size
  scope : ∀ (h : Nat) s, e.scopes[h]? = some s → ∃ f outer, l.ShowsAt h s f outer
  distinct : ∀ {h h' f : Nat}, l.At h f → l.At h' f → h = h'
  born : ∀ {h f : Nat}, l.At h f → f < l.born
  unborn : ∀ {f : Nat}, l.born ≤ f → ∀ name, l.value f name = none

end Lexical

/-- What the operations answer, one after the other. -/
def Access.answers (e : Environment) : List Access → List (Except Fault (Option Value))
  | [] => []
  | a :: as => a.answer e :: answers (a.perform e) as

/-! ## Bindings -/

theorem lookup_insert (name : String) (value : Value) (b : Bindings) (x : String) :
    (b.insert name value).lookup x = if x = name then some value else b.lookup x := by
  induction b with
  | nil =>
    by_cases hx : x = name
    · simp [Bindings.insert, hx]
    · simp [Bindings.insert, List.lookup_cons, hx, beq_eq_false_iff_ne.2 hx]
  | cons entry rest ih =>
    obtain ⟨y, v⟩ := entry
    unfold Bindings.insert
    by_cases hx : x = y
    · subst hx
      by_cases hy : x = name <;> simp [hy]
    · by_cases hy : y = name
      · subst hy
        simp [List.lookup_cons, hx, beq_eq_false_iff_ne.2 hx]
      · simp [List.lookup_cons, hy, beq_eq_false_iff_ne.2 hx, ih]

theorem get?_insert (s : Scope) (name : String) (value : Value) (x : String) :
    (s.insert name value).get? x = if x = name then some value else s.get? x :=
  lookup_insert name value s.bindings x

/-! ## The operations, one by one -/

theorem getElem?_push_of_some {α : Type} {xs : Array α} {i : Nat} {a : α} (h : xs[i]? = some a)
    (b : α) : (xs.push b)[i]? = some a := by
  have hi := (Array.getElem?_eq_some_iff.1 h).1
  rw [Array.getElem?_push, if_neg (by omega), h]

namespace Lexical

theorem At.unique {l : Lexical} {g f : Nat} {outer : List Nat} {f' : Nat} (hat : l.At g f)
    (h : l.chains[g]? = some (f' :: outer)) : f' = f := by
  obtain ⟨outer', h'⟩ := hat
  rw [h'] at h
  cases h
  rfl

namespace Shows

open Environment

variable {l : Lexical} {e : Environment} (h : l.Shows e)

include h

theorem bind {g f : Nat} (hat : l.At g f) (name : String) (value : Value) :
    (l.bind f name value).Shows (e.bind g name value) := by
  refine ⟨?_, ?_, h.distinct, h.born, ?_⟩
  · rw [size_bind]
    exact h.size
  · intro g' s' hs'
    rw [getElem?_bind] at hs'
    split at hs'
    · rename_i heq
      subst heq
      obtain ⟨s, hs, rfl⟩ := Option.map_eq_some_iff.1 hs'
      obtain ⟨f', outer, hshow⟩ := h.scope g s hs
      obtain rfl := hat.unique hshow.chain
      refine ⟨f', outer, hshow.chain, fun x => ?_, hshow.outermost, hshow.inside⟩
      rw [get?_insert, hshow.value]
      simp [Lexical.bind]
    · rename_i hne
      obtain ⟨f', outer, hshow⟩ := h.scope g' s' hs'
      have hother : f' ≠ f := fun heq => hne (h.distinct hat ⟨outer, heq ▸ hshow.chain⟩)
      refine ⟨f', outer, hshow.chain, fun x => ?_, hshow.outermost, hshow.inside⟩
      rw [hshow.value]
      simp [Lexical.bind, hother]
  · intro f' hf' x
    have hlt := h.born hat
    have hother : f' ≠ f := fun heq => Nat.not_lt.2 hf' (heq ▸ hlt)
    simp [Lexical.bind, hother, h.unborn hf']

/-- A frame that is opened is one more than all others. -/
theorem push {parent : Nat} (hp : e.IsOpen parent) :
    (l.perform (.push parent)).Shows (e.push parent) := by
  obtain ⟨f₀, outer₀, hparent⟩ := h.scope parent _ (Array.getElem?_eq_getElem hp)
  have hchains : (l.perform (.push parent)).chains = l.chains.push (l.born :: f₀ :: outer₀) := by
    show l.chains.push (l.born :: l.chains[parent]?.getD []) = _
    rw [hparent.chain]
    rfl
  have hlast : (l.chains.push (l.born :: f₀ :: outer₀))[e.scopes.size]? =
      some (l.born :: f₀ :: outer₀) := by
    rw [← h.size, Array.getElem?_push_size]
  -- a frame that is open now is the new one, or was open before
  have hat : ∀ {g f : Nat}, (l.perform (.push parent)).At g f →
      (g = e.scopes.size ∧ f = l.born) ∨ l.At g f := by
    rintro g f ⟨outer, hchain⟩
    rw [hchains, Array.getElem?_push, h.size] at hchain
    split at hchain
    · cases hchain
      exact .inl ⟨by assumption, rfl⟩
    · exact .inr ⟨outer, hchain⟩
  refine ⟨?_, ?_, ?_, ?_, ?_⟩
  · rw [hchains, Array.size_push, size_push, h.size]
  · intro g s hs
    rw [getElem?_push] at hs
    split at hs
    · rename_i heq
      subst heq
      cases hs
      refine ⟨l.born, f₀ :: outer₀, hchains ▸ hlast, ?_, nofun, ?_⟩
      · intro name
        exact (h.unborn (Nat.le_refl _) name).symm
      · intro p hp'
        cases hp'
        rw [hchains]
        exact getElem?_push_of_some hparent.chain _
    · obtain ⟨f, outer, hshow⟩ := h.scope g s hs
      refine ⟨f, outer, ?_, hshow.value, hshow.outermost, fun p hp' => ?_⟩
      · rw [hchains]
        exact getElem?_push_of_some hshow.chain _
      · rw [hchains]
        exact getElem?_push_of_some (hshow.inside p hp') _
  · intro g g' f hg hg'
    rcases hat hg with ⟨rfl, rfl⟩ | hold
    · rcases hat hg' with ⟨rfl, -⟩ | hold'
      · rfl
      · exact absurd (h.born hold') (Nat.lt_irrefl _)
    · rcases hat hg' with ⟨-, rfl⟩ | hold'
      · exact absurd (h.born hold) (Nat.lt_irrefl _)
      · exact h.distinct hold hold'
  · intro g f hg
    rcases hat hg with ⟨-, rfl⟩ | hold
    · exact Nat.lt_succ_self _
    · exact Nat.lt_succ_of_lt (h.born hold)
  · intro f hf name
    exact h.unborn (Nat.le_of_succ_le hf) name

/-- The frame opened last is closed, and no frame that stays open stands inside it. -/
theorem pop (hn : e.Nested) (hmany : 1 < e.scopes.size) (previous : Handle) :
    (l.perform (.pop previous)).Shows (e.pop previous) := by
  have hkept : ∀ {g : Nat}, g < e.scopes.size - 1 →
      (l.perform (.pop previous)).chains[g]? = l.chains[g]? := by
    intro g hg
    show l.chains.pop[g]? = _
    rw [Array.getElem?_pop, h.size, if_pos hg]
  have hat : ∀ {g f : Nat}, (l.perform (.pop previous)).At g f → l.At g f := by
    rintro g f ⟨outer, hchain⟩
    have hchain : l.chains.pop[g]? = some (f :: outer) := hchain
    rw [Array.getElem?_pop] at hchain
    split at hchain
    · exact ⟨outer, hchain⟩
    · cases hchain
  refine ⟨?_, ?_, fun hg hg' => h.distinct (hat hg) (hat hg'), fun hg => h.born (hat hg),
    h.unborn⟩
  · show l.chains.pop.size = _
    rw [Array.size_pop, size_pop hmany, h.size]
  · intro g s hs
    rw [getElem?_pop hmany] at hs
    split at hs
    · rename_i hg
      obtain ⟨f, outer, hshow⟩ := h.scope g s hs
      refine ⟨f, outer, (hkept hg).trans hshow.chain, hshow.value, hshow.outermost, ?_⟩
      intro p hp
      have hlt := hn.parent_lt hs hp
      exact (hkept (by omega)).trans (hshow.inside p hp)
    · cases hs

/-- The frames on the way outwards from a scope. -/
theorem find?_chain {g : Nat} {hs : List Nat} (hc : e.Chain g hs) (name : String) :
    ∃ fs, l.chains[g]? = some fs ∧
      ((hs.find? (e.binds name) = none ∧ fs.find? (fun f => (l.value f name).isSome) = none) ∨
        ∃ h f, hs.find? (e.binds name) = some h ∧
          fs.find? (fun f => (l.value f name).isSome) = some f ∧ l.At h f) := by
  induction hc with
  | @outermost g s hs hnone =>
    obtain ⟨f, outer, hshow⟩ := h.scope g s hs
    obtain rfl := hshow.outermost hnone
    refine ⟨[f], hshow.chain, ?_⟩
    have hbinds : e.binds name g = (l.value f name).isSome := by
      rw [binds_eq hs, hshow.value]
    rw [List.find?_singleton, List.find?_singleton, hbinds]
    cases (l.value f name).isSome with
    | false => exact .inl ⟨rfl, rfl⟩
    | true => exact .inr ⟨g, f, rfl, rfl, [], hshow.chain⟩
  | @inside g p s hs hscope hp _ ih =>
    obtain ⟨f, outer, hshow⟩ := h.scope g s hscope
    obtain ⟨fs, hfs, hfind⟩ := ih
    obtain rfl : fs = outer := Option.some.inj (hfs.symm.trans (hshow.inside p hp))
    refine ⟨f :: fs, hshow.chain, ?_⟩
    have hbinds : e.binds name g = (l.value f name).isSome := by
      rw [binds_eq hscope, hshow.value]
    rw [List.find?_cons, List.find?_cons, hbinds]
    cases (l.value f name).isSome with
    | false => exact hfind
    | true => exact .inr ⟨g, f, rfl, rfl, fs, hshow.chain⟩

theorem visible_eq (hn : e.Nested) {fs : List Nat} (hfs : l.chains[e.current]? = some fs) :
    l.visible = fs := by
  have hlast : l.chains.size - 1 = e.current := by
    rw [h.size, hn.current]
    rfl
  rw [visible, Array.back?_eq_getElem?, hlast, hfs]
  rfl

/-- A name is found in the scope that shows the frame in which it is found. -/
theorem resolve?_find? (hn : e.Nested) (name : String) :
    (e.resolve? name = none ∧ l.find? name = none) ∨
      ∃ g f, e.resolve? name = some g ∧ l.find? name = some f ∧ l.At g f := by
  obtain ⟨hs, hchain, hresolve⟩ := hn.resolve?_eq
  obtain ⟨fs, hfs, hfind⟩ := h.find?_chain hchain name
  rw [hresolve, Lexical.find?, h.visible_eq hn hfs]
  exact hfind

theorem get?_eq (hn : e.Nested) (name : String) :
    e.get? name = (l.find? name).bind (l.value · name) := by
  unfold Environment.get?
  rcases h.resolve?_find? hn name with ⟨hnone, hnone'⟩ | ⟨g, f, hg, hf, hat⟩
  · rw [hnone, hnone']
    rfl
  · have hopen : g < e.scopes.size := by
      obtain ⟨outer, hchain⟩ := hat
      rw [← h.size]
      exact (Array.getElem?_eq_some_iff.1 hchain).1
    have hs := Array.getElem?_eq_getElem hopen
    obtain ⟨f', outer, hshow⟩ := h.scope g _ hs
    obtain rfl := hat.unique hshow.chain
    rw [hg, hf]
    simp only [Option.bind_eq_bind, Option.bind_some, hs, hshow.value]

/-- One operation: it gives the same answer, and the scopes go on to show the frames. -/
theorem step {hs hs' : List Handle} {a : Access} (hstep : a.Step e hs hs') (ho : e.Orderly hs) :
    a.answer e = l.answer a ∧ (l.perform a).Shows (a.perform e) := by
  have hn := ho.nested
  cases hstep with
  | get name =>
    refine ⟨?_, h⟩
    rw [Access.answer, Environment.read, h.get?_eq hn, answer]
    cases (l.find? name.lexeme).bind (l.value · name.lexeme) <;> rfl
  | assign name value =>
    rw [Access.answer, Access.perform, write_eq, answer, perform]
    rcases h.resolve?_find? hn name.lexeme with ⟨hg, hf⟩ | ⟨g, f, hg, hf, hat⟩
    · rw [hg, hf]
      exact ⟨rfl, h⟩
    · rw [hg, hf]
      exact ⟨rfl, h.bind hat _ value⟩
  | define name value =>
    refine ⟨rfl, ?_⟩
    have hopen : e.current < e.scopes.size :=
      Nat.lt_of_lt_of_eq (Nat.lt_succ_self _) hn.current.symm
    obtain ⟨f, outer, hshow⟩ := h.scope e.current _ (Array.getElem?_eq_getElem hopen)
    rw [perform, h.visible_eq hn hshow.chain]
    exact h.bind ⟨outer, hshow.chain⟩ name value
  | push hp => exact ⟨rfl, h.push hp⟩
  | @pop previous _ =>
    have hsize := ho.returnable.1
    exact ⟨rfl, h.pop hn (by omega) previous⟩

end Shows

/-! ## Rows of operations -/

theorem shows_start : start.Shows .empty := by
  have hat : ∀ {g f : Nat}, start.At g f → g = 0 ∧ f = 0 := by
    rintro g f ⟨outer, hchain⟩
    obtain ⟨hg, hchain⟩ := Array.getElem?_eq_some_iff.1 hchain
    have hg : g < 1 := hg
    obtain rfl : g = 0 := by omega
    cases hchain
    exact ⟨rfl, rfl⟩
  refine ⟨rfl, ?_, fun hg hg' => (hat hg).1.trans (hat hg').1.symm, ?_, fun _ _ => rfl⟩
  · intro g s hs
    obtain ⟨hg, hs⟩ := Array.getElem?_eq_some_iff.1 hs
    have hg : g < 1 := hg
    obtain rfl : g = 0 := by omega
    subst hs
    exact ⟨0, [], rfl, fun _ => rfl, fun _ => rfl, nofun⟩
  · intro g f hg
    rw [(hat hg).2]
    exact Nat.one_pos

/-- A disciplined row of operations gives the same answers on the frames, and leads to scopes that
show them. -/
theorem Shows.run {l : Lexical} {e e' : Environment} {hs hs' : List Handle} {as : List Access}
    (h : l.Shows e) (hrow : Lifo e hs as e' hs') (ho : e.Orderly hs) :
    Access.answers e as = l.answers as ∧ (l.replay as).Shows e' := by
  induction hrow generalizing l with
  | nil => exact ⟨rfl, h⟩
  | cons hstep _ ih =>
    obtain ⟨hanswer, hshows⟩ := h.step hstep ho
    obtain ⟨hanswers, hrest⟩ := ih hshows (hstep.orderly ho)
    refine ⟨?_, hrest⟩
    rw [Access.answers, answers, hanswer, hanswers]

theorem chains_assign (l : Lexical) (name : Token) (value : Value) :
    (l.perform (.assign name value)).chains = l.chains := by
  rw [perform]
  cases l.find? name.lexeme <;> rfl

theorem chains_define (l : Lexical) (name : String) (value : Value) :
    (l.perform (.define name value)).chains = l.chains := by
  rw [perform]
  cases l.visible <;> rfl

/-- A row of operations leaves the frames open that it did not open, with the frames around them. -/
theorem chains_replay {e e' : Environment} {hs hs' : List Handle} {as : List Access}
    (hrow : Lifo e hs as e' hs') (l : Lexical) {g : Nat} (hg : g + hs.length < l.chains.size) :
    (l.replay as).chains[g]? = l.chains[g]? := by
  induction hrow generalizing l with
  | nil => rfl
  | @cons e e' hs hs₁ hs' a as hstep _ ih =>
    have hone : (l.perform a).chains[g]? = l.chains[g]? ∧
        g + hs₁.length < (l.perform a).chains.size := by
      cases hstep with
      | get => exact ⟨rfl, hg⟩
      | assign name value => rw [chains_assign]; exact ⟨rfl, hg⟩
      | define name value => rw [chains_define]; exact ⟨rfl, hg⟩
      | push =>
        simp only [perform, Array.size_push, List.length_cons, Array.getElem?_push]
        exact ⟨if_neg (by omega), by omega⟩
      | pop =>
        rw [List.length_cons] at hg
        simp only [perform, Array.size_pop, Array.getElem?_pop]
        exact ⟨if_pos (by omega), by omega⟩
    exact (ih (l.perform a) hone.2).trans hone.1

/-- An assignment gives no frame a new name and takes none from it. -/
theorem isSome_value_assign (l : Lexical) (name : Token) (value : Value) (f : Nat) (x : String) :
    ((l.perform (.assign name value)).value f x).isSome = (l.value f x).isSome := by
  rw [perform]
  cases hfind : l.find? name.lexeme with
  | none => rfl
  | some g =>
    show (if f = g ∧ x = name.lexeme then some value else l.value f x).isSome = _
    split
    · rename_i heq
      have hbound := List.find?_some hfind
      rw [heq.1, heq.2]
      exact hbound.symm
    · rfl

/-- What closing a frame brings back: the same frames can be seen as before it was opened. -/
theorem chains_restored {l : Lexical} {e e₁ : Environment} (h : l.Shows e) (hn : e.Nested)
    {parent : Nat} (hp : e.IsOpen parent) {inner : List Access}
    (hinner : Lifo (e.push parent) [] inner e₁ []) :
    (((l.perform (.push parent)).replay inner).perform (.pop e.current)).chains = l.chains := by
  have ho : (e.push parent).Orderly [] := ⟨hn.push hp, trivial⟩
  have hopened : (l.perform (.push parent)).chains.size = l.chains.size + 1 := Array.size_push _
  have hsize : ((l.perform (.push parent)).replay inner).chains.size = l.chains.size + 1 := by
    have hbalanced := hinner.size_add ho
    rw [((h.push hp).run hinner ho).2.size, h.size]
    rw [Environment.size_push] at hbalanced
    simpa using hbalanced
  apply Array.ext_getElem?
  intro g
  show ((l.perform (.push parent)).replay inner).chains.pop[g]? = _
  rw [Array.getElem?_pop, hsize, Nat.add_sub_cancel]
  split
  · rename_i hg
    rw [chains_replay hinner _ (by rw [hopened]; exact Nat.lt_succ_of_lt hg)]
    show (l.chains.push _)[g]? = _
    rw [Array.getElem?_push, if_neg (by omega)]
  · rename_i hg
    rw [Array.getElem?_eq_none (by omega)]

/-- The scopes `e` that a row of operations leads to, starting with the global scope alone, and the
frames that it leads to. -/
structure Refined (as : List Access) (e : Environment) : Prop where
  /-- Every operation of the row gives the answer that it gives on the frames. -/
  answers : Access.answers .empty as = start.answers as
  /-- The scopes show the frames. -/
  shows : (start.replay as).Shows e
  /-- An assignment changes the names of no frame. -/
  names : ∀ name value f x, (((start.replay as).perform (.assign name value)).value f x).isSome =
    ((start.replay as).value f x).isSome
  /-- An assignment that fails blames its name and changes nothing at all. -/
  unchanged : ∀ name value fault, (Access.assign name value).answer e = .error fault →
    fault = .undefinedVariable name ∧ (Access.assign name value).perform e = e
  /-- A frame that is opened and closed again leaves the frames to be seen that were to be seen
  before, with the values that they have meanwhile. -/
  restored : ∀ {parent inner e₁}, e.IsOpen parent → Lifo (e.push parent) [] inner e₁ [] →
    let opened := ((start.replay as).perform (.push parent)).replay inner
    let closed := opened.perform (.pop e.current)
    closed.visible = (start.replay as).visible ∧ closed.value = opened.value ∧
      closed.Shows (e₁.pop e.current)

end Lexical

open Lexical

/-- Every disciplined row of operations, from the global scope alone, goes as on plain frames. -/
theorem lifo_refines {as : List Access} {e : Environment} {hs : List Handle}
    (h : Lifo .empty [] as e hs) : Lexical.Refined as e := by
  have ho : Environment.empty.Orderly [] := ⟨Environment.nested_empty, trivial⟩
  have hn := (h.orderly ho).nested
  obtain ⟨hanswers, hshows⟩ := shows_start.run h ho
  refine ⟨hanswers, hshows, (start.replay as).isSome_value_assign, ?_, ?_⟩
  · intro name value fault hfault
    rw [Access.answer, Environment.write_eq] at hfault
    rw [Access.perform, Environment.write_eq]
    cases hg : e.resolve? name.lexeme with
    | none =>
      rw [hg] at hfault
      cases hfault
      exact ⟨rfl, rfl⟩
    | some g =>
      rw [hg] at hfault
      cases hfault
  · intro parent inner e₁ hp hinner opened closed
    have hinnerOrder : (e.push parent).Orderly [] := ⟨hn.push hp, trivial⟩
    have hopened := ((hshows.push hp).run hinner hinnerOrder).2
    have hchains : closed.chains = (start.replay as).chains :=
      chains_restored hshows hn hp hinner
    refine ⟨?_, rfl, ?_⟩
    · rw [visible, hchains]
      rfl
    · -- the scope that is closed is the one that was opened behind those of `e`
      have hsize := hinner.size_add hinnerOrder
      have hpos := hn.size_pos
      rw [Environment.size_push] at hsize
      simp only [List.length_nil, Nat.add_zero] at hsize
      exact hopened.pop (hinner.orderly hinnerOrder).nested (by omega) e.current

/-- The name `a` on the first line. -/
def nameA : Token := ⟨.identifier, "a", none, 1⟩

/-- Two frames inside the global one, of which the second is opened while the first is the current
one but does not see its `a`. -/
def siblings : List Access := [
  .define "a" (.text "global"), .push 0, .define "a" (.text "first"), .push 0, .get nameA,
  .assign nameA (.text "changed"), .assign ⟨.identifier, "b", none, 2⟩ .nil, .pop 1, .get nameA,
  .pop 0, .get nameA]

/-- The answers are those of the frames: the second frame reads and changes the global `a`, and the
first one keeps its own. -/
theorem siblings_refined : ∃ e, Lifo .empty [] siblings e [] ∧ Lexical.Refined siblings e ∧
    Access.answers .empty siblings = [.ok none, .ok none, .ok none, .ok none,
      .ok (some (.text "global")), .ok none,
      .error (.undefinedVariable ⟨.identifier, "b", none, 2⟩), .ok none,
      .ok (some (.text "first")), .ok none, .ok (some (.text "changed"))] := by
  have h : Lifo .empty [] siblings (replay .empty siblings) [] :=
    .cons (.define _ _) <| .cons (.push (by decide)) <| .cons (.define _ _) <|
      .cons (.push (by decide)) <| .cons (.get _) <| .cons (.assign _ _) <| .cons (.assign _ _) <|
      .cons .pop <| .cons (.get _) <| .cons .pop <| .cons (.get _) .nil
  exact ⟨_, h, lifo_refines h, rfl⟩

end Sprog
