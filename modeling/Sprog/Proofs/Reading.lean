import Sprog.Parser.Statement

/-!
# Reading without a fault

`Reads p eof ts a rest` says that the parser `p` gives `a` on the tokens `ts`, leaves `rest`, and
has nothing to report. What it takes to read with a compound parser is what it takes to read with
its parts one after the other, so every parser of the language opens into the tokens it demands.

* `reads_bind`: one parser after another.
* `reads_accept_bind`, `reads_expect_bind`: behind a token that may or must be there.
* `reads_recover`: what is read with recovery and without a fault is read without recovery.
-/
namespace Sprog

/-- The kind of the first token, if there is one. -/
def headKind (ts : List Token) : Option Kind := ts.head?.map Token.kind

@[simp] theorem headKind_nil : headKind [] = none := rfl

@[simp] theorem headKind_cons (t : Token) (ts : List Token) :
    headKind (t :: ts) = some t.kind := rfl

theorem headKind_append {ts : List Token} (h : ts ≠ []) (us : List Token) :
    headKind (ts ++ us) = headKind ts := by
  cases ts with
  | nil => exact absurd rfl h
  | cons t ts => rfl

namespace Parser

variable {α β : Type}

/-- The parser gives `a` on `ts`, leaves `rest`, and reports nothing. -/
def Reads (p : Parser α) (eof : Token) (ts : List Token) (a : α) (rest : List Token) : Prop :=
  p eof ts = ⟨.ok a, rest, []⟩

section
variable {eof : Token} {ts rest : List Token} {a b : α} {c : β}

theorem reads_pure : Reads (pure a) eof ts b rest ↔ a = b ∧ ts = rest := by
  show (⟨.ok a, ts, []⟩ : Step α) = _ ↔ _
  simp

theorem reads_bind {p : Parser α} {f : α → Parser β} :
    Reads (p >>= f) eof ts c rest ↔
      ∃ a mid, Reads p eof ts a mid ∧ Reads (f a) eof mid c rest := by
  show Parser.bind p f eof ts = _ ↔ _
  unfold Reads Parser.bind
  rcases p eof ts with ⟨e | a, mid, reports⟩
  · simp
  · rcases hf : f a eof mid with ⟨r, rest', reports'⟩
    constructor
    · intro h
      simp only [hf, Step.mk.injEq, List.append_eq_nil_iff] at h
      obtain ⟨rfl, rfl, rfl, rfl⟩ := h
      exact ⟨a, mid, rfl, hf⟩
    · rintro ⟨a', mid', h1, h2⟩
      cases h1
      rw [hf] at h2
      cases h2
      simp [hf]

/-- If it is known what the first parser reads, only the second one is left. -/
theorem reads_bind_of {p : Parser α} {f : α → Parser β} {mid : List Token}
    (h : Reads p eof ts a mid) : Reads (p >>= f) eof ts c rest ↔ Reads (f a) eof mid c rest := by
  rw [reads_bind]
  constructor
  · rintro ⟨a', mid', h1, h2⟩
    cases h.symm.trans h1
    exact h2
  · intro h2
    exact ⟨a, mid, h, h2⟩

theorem reads_map {f : α → β} {p : Parser α} :
    Reads (f <$> p) eof ts c rest ↔ ∃ a, Reads p eof ts a rest ∧ f a = c := by
  show Reads (p >>= fun a => pure (f a)) eof ts c rest ↔ _
  rw [reads_bind]
  constructor
  · rintro ⟨a, mid, h1, h2⟩
    obtain ⟨h3, rfl⟩ := reads_pure.1 h2
    exact ⟨a, h1, h3⟩
  · rintro ⟨a, h1, h2⟩
    exact ⟨a, rest, h1, reads_pure.2 ⟨h2, rfl⟩⟩

theorem not_reads_fail {expected : Expected} : ¬ Reads (fail expected) eof ts a rest := by
  simp [Reads, fail]

/-! ## Looking at the first token -/

theorem reads_current_bind {f : Token → Parser β} :
    Reads (current >>= f) eof ts c rest ↔ Reads (f (ts.headD eof)) eof ts c rest :=
  reads_bind_of rfl

theorem reads_skip_bind {f : Unit → Parser β} :
    Reads (skip >>= f) eof ts c rest ↔ Reads (f ()) eof ts.tail c rest :=
  reads_bind_of rfl

theorem reads_sees_bind {kind : Kind} {f : Bool → Parser β} :
    Reads (sees kind >>= f) eof ts c rest ↔
      Reads (f (decide (headKind ts = some kind))) eof ts c rest := by
  apply reads_bind_of
  cases ts with
  | nil => rfl
  | cons t ts =>
    have h : (t.kind == kind) = decide (t.kind = kind) := rfl
    simp [Reads, sees, h]

theorem reads_continues_bind {stop : Option Kind} {f : Bool → Parser β} :
    Reads (continues stop >>= f) eof ts c rest ↔
      Reads (f (decide (ts ≠ [] ∧ headKind ts ≠ stop))) eof ts c rest := by
  apply reads_bind_of
  cases ts with
  | nil => rfl
  | cons t ts => by_cases hk : some t.kind = stop <;> simp [Reads, continues, hk]

/-! ## Taking the first token -/

/-- A table takes the first token if it has an entry for it. -/
theorem reads_acceptFrom_bind {table : Kind → Option α} {f : Option (α × Token) → Parser β} :
    Reads (acceptFrom table >>= f) eof ts c rest ↔
      (∃ t us a, ts = t :: us ∧ table t.kind = some a ∧ Reads (f (some (a, t))) eof us c rest) ∨
        ((∀ k, headKind ts = some k → table k = none) ∧ Reads (f none) eof ts c rest) := by
  rw [reads_bind]
  cases ts with
  | nil =>
    simp only [Reads, acceptFrom]
    grind [headKind_nil]
  | cons t us =>
    cases h : table t.kind with
    | none =>
      simp only [Reads, acceptFrom, h]
      grind [headKind_cons]
    | some a =>
      simp only [Reads, acceptFrom, h]
      grind [headKind_cons]

/-- The first token is taken if it is of the kind, and stays otherwise. -/
theorem reads_accept_bind {kind : Kind} {f : Option Token → Parser β} :
    Reads (accept kind >>= f) eof ts c rest ↔
      (∃ t us, ts = t :: us ∧ t.kind = kind ∧ Reads (f (some t)) eof us c rest) ∨
        (headKind ts ≠ some kind ∧ Reads (f none) eof ts c rest) := by
  rw [reads_bind]
  cases ts with
  | nil =>
    simp only [Reads, accept]
    grind [headKind_nil]
  | cons t us =>
    by_cases h : t.kind = kind
    · simp only [Reads, accept, h, if_true]
      grind [headKind_cons]
    · simp only [Reads, accept, h, if_false]
      grind [headKind_cons]

theorem reads_expect {kind : Kind} {expected : Expected} {t : Token} :
    Reads (expect kind expected) eof ts t rest ↔ ts = t :: rest ∧ t.kind = kind := by
  unfold expect
  rw [reads_accept_bind]
  constructor
  · rintro (⟨t', us, rfl, h, h2⟩ | ⟨-, h2⟩)
    · obtain ⟨rfl, rfl⟩ := reads_pure.1 h2
      exact ⟨rfl, h⟩
    · exact absurd h2 not_reads_fail
  · rintro ⟨rfl, h⟩
    exact .inl ⟨t, rest, rfl, h, reads_pure.2 ⟨rfl, rfl⟩⟩

theorem reads_expect_bind {kind : Kind} {expected : Expected} {f : Token → Parser β} :
    Reads (expect kind expected >>= f) eof ts c rest ↔
      ∃ t us, ts = t :: us ∧ t.kind = kind ∧ Reads (f t) eof us c rest := by
  rw [reads_bind]
  simp only [reads_expect, and_assoc]

/-- A parser that ends with a token it demands. -/
theorem reads_expect_pure {kind : Kind} {expected : Expected} :
    Reads (expect kind expected >>= fun _ => pure a) eof ts b rest ↔
      ∃ t, ts = t :: rest ∧ t.kind = kind ∧ a = b := by
  rw [reads_expect_bind]
  constructor
  · rintro ⟨t, us, rfl, hk, h⟩
    obtain ⟨rfl, rfl⟩ := reads_pure.1 h
    exact ⟨t, rfl, hk, rfl⟩
  · rintro ⟨t, rfl, hk, rfl⟩
    exact ⟨t, rest, rfl, hk, reads_pure.2 ⟨rfl, rfl⟩⟩

theorem reads_recover {p : Parser α} {r : Option α} :
    Reads (recover p) eof ts r rest ↔ ∃ a, r = some a ∧ Reads p eof ts a rest := by
  unfold Reads recover
  rcases p eof ts with ⟨e | a, mid, reports⟩
  · simp
  · constructor
    · intro h
      cases h
      exact ⟨a, rfl, rfl⟩
    · rintro ⟨a', rfl, h⟩
      cases h
      rfl

end

end Parser

end Sprog
