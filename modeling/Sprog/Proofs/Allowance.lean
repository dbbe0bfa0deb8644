import Sprog.Proofs.Traversal

/-!
# What a run is allowed

A watched run ends as the run itself does, and a run that is allowed more ends as one that is
allowed less, wherever that ends. So an allowance of calls inside one another and of rounds of a
loop decides whether a run can go on, and nothing else: a run that ends within its allowance ends in
the same way, with the same value or fault and on the same machine, with every larger one.

* `agrees_traversal`: both hold of all parts of runs.
* `outcome_eval`, `outcome_exec`, `outcome_invoke`, `outcome_execute`: watched runs.
* `execute_of_le`: larger allowances.
-/
namespace Sprog

/-- The run ends as the watched run does. If it is allowed `k` more, and not just the same, it may
also end where that was not allowed to go on. -/
def Watched.Agrees {α : Type} (k : Nat) (x : Watched α) (y : Eval α) : Prop :=
  ∀ m, y m = (x m).outcome ∨ 0 < k ∧ (x m).outcome = .exhausted

namespace Watched.Agrees

variable {α β : Type} {k : Nat}

theorem bind {x : Watched α} {y : Eval α} {f : α → Watched β} {g : α → Eval β}
    (hx : x.Agrees k y) (hf : ∀ a, (f a).Agrees k (g a)) : (x >>= f).Agrees k (y >>= g) := by
  intro m
  show Eval.bind y g m = (Watched.bind x f m).outcome ∨
    0 < k ∧ (Watched.bind x f m).outcome = .exhausted
  unfold Watched.bind Eval.bind
  rcases hx m with hfirst | ⟨hk, hfirst⟩ <;> rw [hfirst]
  · cases (x m).outcome with
    | done a m => exact hf a m
    | failed e m => exact .inl rfl
    | exhausted => exact .inl rfl
  · exact .inr ⟨hk, rfl⟩

theorem within {x : Watched α} {y : Eval α} (h : x.Agrees k y) (parent : Handle) :
    (Watched.within parent x).Agrees k (Eval.within parent y) := by
  intro m
  unfold Watched.within Eval.within
  dsimp only
  rcases h { m with env := m.env.push parent } with hinside | ⟨hk, hinside⟩ <;> rw [hinside]
  · exact .inl rfl
  · exact .inr ⟨hk, rfl⟩

theorem counted {x : Watched α} {y : Eval α} (h : x.Agrees k y) (closing : Token) (name : String)
    (arguments : Nat) :
    (Watched.counted closing name arguments x).Agrees k
      (Eval.counted closing.line name arguments y) := by
  intro m
  unfold Watched.counted Eval.counted
  split
  · exact .inl rfl
  · dsimp only
    rcases h { m with depth := m.depth + 1, log := m.log.push ⟨name, arguments, m.depth⟩ } with
      hinside | ⟨hk, hinside⟩ <;> rw [hinside]
    · exact .inl rfl
    · exact .inr ⟨hk, rfl⟩

/-- Where a run stops, one that is allowed more may do anything. -/
theorem stop {y : Eval α} (hy : k = 0 → y = fun _ => .exhausted) : Watched.stop.Agrees k y := by
  intro m
  rcases Nat.eq_zero_or_pos k with hk | hk
  · rw [hy hk]
    exact .inl rfl
  · exact .inr ⟨hk, rfl⟩

/-- With the same allowance, the run ends as the watched run does. -/
theorem outcome {x : Watched α} {y : Eval α} (h : x.Agrees 0 y) (m : Machine) :
    (x m).outcome = y m :=
  ((h m).resolve_right fun h => Nat.lt_irrefl 0 h.1).symm

end Watched.Agrees

theorem agrees_traversal (w : Watched.Host) (k : Nat) :
    Traversal .everything (fun _ : Unit => true) w w.host k (fun _ _ => Watched.Agrees k)
      fun _ _ => Watched.Agrees k where
  lift _ _ _ _ _ _ := .inl rfl
  bind hx hf := hx.bind fun a => hf a (Ruled.of_lax lax_everything rfl a)
  get _ _ _ _ _ := .inl rfl
  assign _ _ _ _ _ _ _ := .inl rfl
  define _ _ _ _ _ _ _ := .inl rfl
  defineFunction _ _ _ _ _ _ := .inl rfl
  print _ _ _ _ _ _ := .inl rfl
  counted _ _ _ _ _ hx := (hx ()).counted _ _ _
  block hx m := (hx () rfl).within m.env.current m
  stop _ _ _ _ hy := .stop hy
  native _ _ f _ _ _ := by
    unfold Watched.native Native.invoke
    cases f.routine <;> exact fun _ => .inl rfl
  body hx := ((hx () rfl).within 0).bind fun _ _ => .inl rfl
  zero _ _ hy := .stop hy

section
variable (w : Watched.Host)

/-- A watched call ends as the call itself does, however that ends. -/
theorem outcome_invoke (n : Nat) (c : Callable) (args : List Value) (m : Machine) :
    (Watched.invoke w n c args m).outcome = invoke w.host n c args m :=
  ((agrees_traversal w 0).invoke n () c args ((Value.callable c).obeys_of_lax lax_everything rfl)
    (Ruled.of_lax lax_everything rfl args)).outcome m

/-- So does a watched expression. -/
theorem outcome_eval (n : Nat) (e : Expr) (m : Machine) :
    (Watched.eval (Watched.invoke w n) e m).outcome = eval (invoke w.host n) e m :=
  have ht := agrees_traversal w 0
  (ht.eval (n := n) (ht.invoke n) () e (e.obeys_of_lax lax_everything)).outcome m

/-- So does a watched condition. -/
theorem outcome_holds (n : Nat) (e : Expr) (m : Machine) :
    (Watched.holds (Watched.invoke w n) e m).outcome = holds (invoke w.host n) e m :=
  have ht := agrees_traversal w 0
  (ht.holds (n := n) (ht.invoke n) () (e.obeys_of_lax lax_everything)).outcome m

/-- So does a watched statement. -/
theorem outcome_exec (n rounds : Nat) (s : Stmt) (m : Machine) :
    (Watched.exec (Watched.invoke w n) rounds s m).outcome = exec (invoke w.host n) rounds s m :=
  have ht := agrees_traversal w 0
  (ht.exec (n := n) (ht.invoke n) rounds () s (s.obeys_everything true)).outcome m

/-- So do watched statements. -/
theorem outcome_execute (n : Nat) (ss : List Stmt) (m : Machine) :
    (Watched.execute w n ss m).outcome = Session.execute w.host n ss m :=
  ((agrees_traversal w 0).execute n () (Stmt.obeysAll_everything true ss)).outcome m

end

/-- Statements that end within an allowance end in the same way within a larger one. -/
theorem execute_of_le {host : Host} {n n' : Nat} (h : n ≤ n') {ss : List Stmt} {m : Machine}
    (hends : Session.execute host n ss m ≠ .exhausted) :
    Session.execute host n' ss m = Session.execute host n ss m := by
  obtain ⟨k, rfl⟩ := Nat.exists_eq_add_of_le h
  have hagrees := (agrees_traversal host.unwatched k).execute n ()
    (Stmt.obeysAll_everything true ss) m
  rw [outcome_execute host.unwatched n ss m] at hagrees
  exact hagrees.resolve_right fun h => hends h.2

end Sprog
