import Sprog.Proofs.Indexed
import Sprog.Proofs.Rows

/-!
# The way of the cursor

The tokens before a mark are what a parser of lists is given, and the mark is the end that it sees.
A parser on an index follows it (`Follows`) if it never breaks down and, from wherever its cursor
stands, does with the tokens up to the mark what the other one does with their list. This holds
where the allowance is larger than the number of tokens left. Its record is then in order
(`Record`): no step leads back or beyond the mark, and every declaration of a row took the cursor
on.

* `advance_token`, `advance_mark`: the step of the cursor.
* `Follows.bind`, `Follows.choice`, `FollowsAt.moved`: following passes from the parts to the whole,
  and behind a token less of an allowance is needed.
* `Follows.recover`: also a parser that fails is followed to where parsing goes on.
* `RunsRow.round`: a declaration that takes a token goes into the record as one that took the cursor
  on, and what the rounds of a row take is all that the row takes.
-/
namespace Sprog

/-- A way from position `i` to position `j`: each step leads on by one or stays. -/
inductive Ascent : Nat → List Nat → Nat → Prop where
  | stay (i : Nat) : Ascent i [] i
  | step {i j k : Nat} {path : List Nat} : i ≤ j → j ≤ i + 1 → Ascent j path k →
      Ascent i (j :: path) k

namespace Ascent

variable {i j k : Nat} {path path' : List Nat}

theorem append (h : Ascent i path j) (h' : Ascent j path' k) : Ascent i (path ++ path') k := by
  induction h with
  | stay => exact h'
  | step hle hone _ ih => exact .step hle hone (ih h')

theorem le (h : Ascent i path j) : i ≤ j := by
  induction h with
  | stay => exact Nat.le_refl _
  | step hle _ _ ih => omega

theorem le_of_mem (h : Ascent i path j) : ∀ m ∈ path, m ≤ j := by
  induction h with
  | stay => exact List.forall_mem_nil _
  | step _ _ hrest ih => exact List.forall_mem_cons.2 ⟨hrest.le, ih⟩

end Ascent

/-- The items are tokens with no mark among them, a mark behind these, and then anything. -/
structure Marked (items ts : List Token) (mark : Token) : Prop where
  kind : mark.kind = .eof
  before : ∀ t ∈ ts, t.kind ≠ .eof
  split : ∃ behind, items = ts ++ mark :: behind

namespace Marked

variable {items ts : List Token} {mark : Token} {i : Nat}

/-- The cursor stands at the mark or at a token before it. -/
theorem cases (h : Marked items ts mark) (hi : i ≤ ts.length) :
    (ts.drop i = [] ∧ items[i]? = some mark) ∨
      ∃ t us, ts.drop i = t :: us ∧ ts.drop (i + 1) = us ∧ t.kind ≠ .eof ∧
        items[i]? = some t ∧ i + 1 ≤ ts.length := by
  obtain ⟨behind, rfl⟩ := h.split
  rcases Nat.lt_or_eq_of_le hi with hlt | rfl
  · right
    refine ⟨ts[i], ts.drop (i + 1), List.drop_eq_getElem_cons hlt, rfl,
      h.before _ (List.getElem_mem hlt), ?_, hlt⟩
    rw [List.getElem?_append_left hlt, List.getElem?_eq_getElem hlt]
  · left
    exact ⟨List.drop_length, by simp⟩

/-- The token before the cursor, at the beginning the one at it, is in range. -/
theorem exists_previous (h : Marked items ts mark) (hi : i ≤ ts.length) :
    ∃ u, items[i - 1]? = some u := by
  obtain ⟨behind, rfl⟩ := h.split
  refine ⟨_, List.getElem?_eq_getElem ?_⟩
  simp only [List.length_append, List.length_cons]
  omega

theorem current (h : Marked items ts mark) (hi : i ≤ ts.length) :
    items[i]? = some ((ts.drop i).headD mark) := by
  rcases h.cases hi with ⟨hdrop, hcur⟩ | ⟨t, us, hdrop, -, -, hcur, -⟩
  · rwa [hdrop]
  · rwa [hdrop]

end Marked

namespace Indexed

variable {α β : Type}

/-- The record of a parser that began at `i` and ended at `j`: the cursor only went on, not beyond
`last`, and every declaration of a row took it on. -/
structure Record (last i j : Nat) (path : List Nat) (spans : List (Nat × Nat)) : Prop where
  inside : j ≤ last
  path : Ascent i path j
  spans : ∀ c ∈ spans, c.1 < c.2 ∧ c.2 ≤ j

namespace Record

variable {last i j k : Nat} {path path' : List Nat} {spans spans' : List (Nat × Nat)}

theorem refl (h : i ≤ last) : Record last i i [] [] := ⟨h, .stay i, List.forall_mem_nil _⟩

/-- One step of the cursor. -/
theorem next (h : i + 1 ≤ last) : Record last i (i + 1) [i + 1] [] :=
  ⟨h, .step (by omega) (by omega) (.stay _), List.forall_mem_nil _⟩

/-- One step that leads nowhere. -/
theorem stay (h : i ≤ last) : Record last i i [i] [] :=
  ⟨h, .step (by omega) (by omega) (.stay _), List.forall_mem_nil _⟩

theorem append (h : Record last i j path spans) (h' : Record last j k path' spans') :
    Record last i k (path ++ path') (spans ++ spans') where
  inside := h'.inside
  path := h.path.append h'.path
  spans := by
    intro c hc
    rcases List.mem_append.1 hc with hc | hc
    · exact ⟨(h.spans c hc).1, Nat.le_trans (h.spans c hc).2 h'.path.le⟩
    · exact h'.spans c hc

/-- A declaration of a row goes into the record when it has ended. -/
theorem close (h : Record last i j path spans) (hij : i < j) :
    Record last i j path (spans ++ [(i, j)]) where
  inside := h.inside
  path := h.path
  spans := by
    intro c hc
    rcases List.mem_append.1 hc with hc | hc
    · exact h.spans c hc
    · obtain rfl := List.mem_singleton.1 hc
      exact ⟨hij, Nat.le_refl j⟩

end Record

/-- The parser on an index, begun at `i`, does not break down, and it does what is done with the
tokens from there to the mark. -/
def Runs (items ts : List Token) (i : Nat) (p : Indexed α) (step : Sprog.Step α) : Prop :=
  ∃ j path spans, p items i = .ok ⟨step.result, j, step.reports, path, spans⟩ ∧
    ts.drop j = step.rest ∧ Record ts.length i j path spans

section
variable {items ts mid rest : List Token} {mark : Token} {i : Nat} {reports : List Diagnostic}
  {p : Indexed α}

theorem runs_pure (hi : i ≤ ts.length) (a : α) :
    Runs items ts i (pure a) ⟨.ok a, ts.drop i, []⟩ :=
  ⟨i, [], [], rfl, rfl, .refl hi⟩

theorem Runs.bind_error {e : Diagnostic} (h : Runs items ts i p ⟨.error e, mid, reports⟩)
    (f : α → Indexed β) : Runs items ts i (p >>= f) ⟨.error e, mid, reports⟩ := by
  obtain ⟨j, path, spans, hp, hmid, hrecord⟩ := h
  refine ⟨j, path, spans, ?_, hmid, hrecord⟩
  show Indexed.bind p f items i = _
  simp only [Indexed.bind, hp]

theorem Runs.bind_ok {a : α} {f : α → Indexed β} {r : Except Diagnostic β}
    {reports' : List Diagnostic} (h : Runs items ts i p ⟨.ok a, mid, reports⟩)
    (hf : ∀ j, i ≤ j → j ≤ ts.length → ts.drop j = mid →
      Runs items ts j (f a) ⟨r, rest, reports'⟩) :
    Runs items ts i (p >>= f) ⟨r, rest, reports ++ reports'⟩ := by
  obtain ⟨j, path, spans, hp, hmid, hrecord⟩ := h
  obtain ⟨k, path', spans', hf, hrest, hrecord'⟩ := hf j hrecord.path.le hrecord.inside hmid
  refine ⟨k, path ++ path', spans ++ spans', ?_, hrest, hrecord.append hrecord'⟩
  show Indexed.bind p f items i = _
  simp only [Indexed.bind, hp, hf]

/-- What follows may report nothing. -/
theorem Runs.bind_silent {a : α} {f : α → Indexed β} {r : Except Diagnostic β}
    (h : Runs items ts i p ⟨.ok a, mid, reports⟩)
    (hf : ∀ j, i ≤ j → j ≤ ts.length → ts.drop j = mid → Runs items ts j (f a) ⟨r, rest, []⟩) :
    Runs items ts i (p >>= f) ⟨r, rest, reports⟩ := by
  rw [← List.append_nil reports]
  exact h.bind_ok hf

end

/-! ## Looking at the current token -/

section
variable {items : List Token} {i : Nat} {t : Token}

/-- A parser that only looks leaves no trace. -/
theorem bind_quiet {p : Indexed α} {a : α} (h : p items i = .ok ⟨.ok a, i, [], [], []⟩)
    (f : α → Indexed β) : (p >>= f) items i = f a items i := by
  show Indexed.bind p f items i = _
  simp only [Indexed.bind, h]
  cases f a items i <;> rfl

theorem current_eq (h : items[i]? = some t) : current items i = .ok ⟨.ok t, i, [], [], []⟩ := by
  rw [current, bind_quiet (a := i) rfl, tokenAt, h]

theorem previous_eq (h : items[i - 1]? = some t) :
    previous items i = .ok ⟨.ok t, i, [], [], []⟩ := by
  rw [previous, bind_quiet (a := i) rfl, tokenAt, h]

theorem isAtEnd_eq (h : items[i]? = some t) :
    isAtEnd items i = .ok ⟨.ok (t.kind == .eof), i, [], [], []⟩ := by
  rw [isAtEnd, bind_quiet (current_eq h)]
  rfl

theorem sees_eq (h : items[i]? = some t) (kind : Kind) :
    sees kind items i = .ok ⟨.ok (decide (t.kind ≠ .eof ∧ t.kind = kind)), i, [], [], []⟩ := by
  rw [sees, bind_quiet (isAtEnd_eq h)]
  by_cases he : t.kind = .eof
  · simp [he, pure, Indexed.pure]
  · simp only [he, beq_iff_eq, if_false]
    rw [bind_quiet (current_eq h)]
    simp [he, pure, Indexed.pure, Bool.beq_eq_decide_eq]

/-- Off the mark a step leads on by one. -/
theorem advance_token (h : items[i]? = some t) (ht : t.kind ≠ .eof) :
    advance items i = .ok ⟨.ok t, i + 1, [], [i + 1], []⟩ := by
  rw [advance, bind_quiet (a := i) rfl, bind_quiet (isAtEnd_eq h)]
  simp only [beq_iff_eq, ht, if_false]
  show Indexed.bind (moveTo (i + 1)) _ items i = _
  simp only [Indexed.bind, moveTo, previous_eq (i := i + 1) h, List.append_nil]

/-- At the mark a step stays. -/
theorem advance_mark {u : Token} (h : items[i]? = some t) (ht : t.kind = .eof)
    (hu : items[i - 1]? = some u) : advance items i = .ok ⟨.ok u, i, [], [i], []⟩ := by
  rw [advance, bind_quiet (a := i) rfl, bind_quiet (isAtEnd_eq h)]
  simp only [beq_iff_eq, ht, if_true]
  show Indexed.bind (moveTo i) _ items i = _
  simp only [Indexed.bind, moveTo, previous_eq hu, List.append_nil]

theorem accept_take {kind : Kind} (h : items[i]? = some t) (ht : t.kind ≠ .eof ∧ t.kind = kind) :
    accept kind items i = .ok ⟨.ok (some t), i + 1, [], [i + 1], []⟩ := by
  rw [accept, bind_quiet (sees_eq h kind), decide_eq_true ht, if_pos rfl]
  show Indexed.bind advance _ items i = _
  simp only [Indexed.bind, advance_token h ht.1]
  rfl

theorem accept_pass {kind : Kind} (h : items[i]? = some t)
    (ht : ¬ (t.kind ≠ .eof ∧ t.kind = kind)) :
    accept kind items i = .ok ⟨.ok none, i, [], [], []⟩ := by
  rw [accept, bind_quiet (sees_eq h kind), decide_eq_false ht]
  rfl

theorem acceptFrom_take {table : Kind → Option α} {a : α} (h : items[i]? = some t)
    (ht : t.kind ≠ .eof) (ha : table t.kind = some a) :
    acceptFrom table items i = .ok ⟨.ok (some (a, t)), i + 1, [], [i + 1], []⟩ := by
  rw [acceptFrom, bind_quiet (current_eq h)]
  simp only [ha]
  show Indexed.bind advance _ items i = _
  simp only [Indexed.bind, advance_token h ht]
  rfl

theorem acceptFrom_pass {table : Kind → Option α} (h : items[i]? = some t)
    (ha : table t.kind = none) : acceptFrom table items i = .ok ⟨.ok none, i, [], [], []⟩ := by
  rw [acceptFrom, bind_quiet (current_eq h)]
  simp only [ha]
  rfl

theorem fail_eq (h : items[i]? = some t) (expected : Expected) :
    (fail expected : Indexed α) items i =
      .ok ⟨.error (.unexpectedToken t expected), i, [], [], []⟩ := by
  rw [fail, bind_quiet (current_eq h)]
  rfl

theorem expect_take {kind : Kind} (h : items[i]? = some t) (ht : t.kind ≠ .eof ∧ t.kind = kind)
    (expected : Expected) :
    expect kind expected items i = .ok ⟨.ok t, i + 1, [], [i + 1], []⟩ := by
  rw [expect, bind_quiet (sees_eq h kind), decide_eq_true ht, if_pos rfl, advance_token h ht.1]

theorem expect_pass {kind : Kind} (h : items[i]? = some t)
    (ht : ¬ (t.kind ≠ .eof ∧ t.kind = kind)) (expected : Expected) :
    expect kind expected items i =
      .ok ⟨.error (.unexpectedToken t expected), i, [], [], []⟩ := by
  rw [expect, bind_quiet (sees_eq h kind), decide_eq_false ht, ← fail_eq h expected]
  rfl

end

/-! ## Parsers on an index and parsers of lists -/

/-- Wherever fewer than `n` tokens are left, the parser on an index does not break down, and it does
what the parser of lists does with these tokens. -/
structure Follows (n : Nat) (p : Indexed α) (q : Parser α) : Prop where
  runs : ∀ {items ts mark i}, Marked items ts mark → i ≤ ts.length → ts.length < i + n →
    Runs items ts i p (q mark (ts.drop i))

/-- The same where the cursor stands at the given token. -/
structure FollowsAt (t : Token) (n : Nat) (p : Indexed α) (q : Parser α) : Prop where
  runs : ∀ {items ts mark i}, Marked items ts mark → i ≤ ts.length → ts.length < i + n →
    items[i]? = some t → Runs items ts i p (q mark (ts.drop i))

section
variable {items ts : List Token} {i : Nat} {t : Token}

theorem Runs.quiet {p : Indexed α} {a : α} (h : p items i = .ok ⟨.ok a, i, [], [], []⟩)
    {f : α → Indexed β} {step : Sprog.Step β} (hf : Runs items ts i (f a) step) :
    Runs items ts i (p >>= f) step := by
  unfold Runs
  rwa [bind_quiet h]

/-- A parser that only moves the cursor. -/
theorem Runs.moved {p : Indexed α} {a : α} {j : Nat} {path : List Nat}
    (h : p items i = .ok ⟨.ok a, j, [], path, []⟩) (hrecord : Record ts.length i j path [])
    {f : α → Indexed β} {step : Sprog.Step β} (hf : Runs items ts j (f a) step) :
    Runs items ts i (p >>= f) step := by
  obtain ⟨k, path', spans, hf, hrest, hrecord'⟩ := hf
  refine ⟨k, path ++ path', spans, ?_, hrest, hrecord.append hrecord'⟩
  show Indexed.bind p f items i = _
  simp only [Indexed.bind, h, hf, List.nil_append]

end

section
variable {n : Nat} {t : Token} {p : Indexed α} {q : Parser α}

theorem follows_of_at (h : ∀ t, FollowsAt t n p q) : Follows n p q :=
  ⟨fun hm hi hn => (h _).runs hm hi hn (hm.current hi)⟩

theorem Follows.atToken (h : Follows n p q) (t : Token) : FollowsAt t n p q :=
  ⟨fun hm hi hn _ => h.runs hm hi hn⟩

namespace Follows

/-- There is no such place. -/
theorem zero : Follows 0 p q := ⟨fun _ _ hn => by omega⟩

theorem mono {m : Nat} (h : Follows n p q) (hm : m ≤ n) : Follows m p q :=
  ⟨fun hmark hi hn => h.runs hmark hi (by omega)⟩

theorem pure (n : Nat) (a : α) : Follows n (Pure.pure a : Indexed α) (Pure.pure a : Parser α) :=
  ⟨fun _ hi _ => runs_pure hi a⟩

theorem bind {f : α → Indexed β} {g : α → Parser β} (h : Follows n p q)
    (hf : ∀ a, Follows n (f a) (g a)) : Follows n (p >>= f) (q >>= g) := by
  refine ⟨fun {items ts mark i} hm hi hn => ?_⟩
  have hp := h.runs hm hi hn
  rcases hq : q mark (ts.drop i) with ⟨e | a, mid, reports⟩
  · rw [hq] at hp
    rw [Parser.bind_error hq]
    exact hp.bind_error f
  · rw [hq] at hp
    rw [Parser.bind_ok hq]
    refine hp.bind_ok fun j hij hj hmid => ?_
    have := (hf a).runs hm hj (by omega)
    rwa [hmid] at this

theorem map (f : α → β) (h : Follows n p q) : Follows n (f <$> p) (f <$> q) :=
  h.bind fun a => pure n (f a)

theorem fail (expected : Expected) :
    Follows n (Indexed.fail expected : Indexed α) (Parser.fail expected) := by
  refine ⟨fun {items ts mark i} hm hi _ => ?_⟩
  exact ⟨i, [], [], fail_eq (hm.current hi) expected, rfl, .refl hi⟩

theorem report (d : Diagnostic) : Follows n (Indexed.report d) (Parser.report d) :=
  ⟨fun {_ _ _ i} _ hi _ => ⟨i, [], [], rfl, rfl, .refl hi⟩⟩

theorem sees (kind : Kind) : Follows n (Indexed.sees kind) (Parser.sees kind) := by
  refine ⟨fun {items ts mark i} hm hi _ => ?_⟩
  refine ⟨i, [], [], ?_, rfl, .refl hi⟩
  rcases hm.cases hi with ⟨hdrop, hcur⟩ | ⟨t, us, hdrop, -, ht, hcur, -⟩
  · rw [sees_eq hcur, hdrop]
    simp [hm.kind, Parser.sees]
  · rw [sees_eq hcur, hdrop]
    simp [ht, Parser.sees, Bool.beq_eq_decide_eq]

theorem expect (kind : Kind) (expected : Expected) :
    Follows n (Indexed.expect kind expected) (Parser.expect kind expected) := by
  refine ⟨fun {items ts mark i} hm hi _ => ?_⟩
  rcases hm.cases hi with ⟨hdrop, hcur⟩ | ⟨t, us, hdrop, hrest, ht, hcur, hlt⟩
  · rw [hdrop]
    exact ⟨i, [], [], expect_pass hcur (by simp [hm.kind]) expected, hdrop, .refl hi⟩
  · rw [hdrop]
    by_cases hk : t.kind = kind
    · rw [Parser.expect_take hk]
      exact ⟨i + 1, [i + 1], [], expect_take hcur ⟨ht, hk⟩ expected, hrest, .next hlt⟩
    · rw [Parser.expect_pass hk]
      exact ⟨i, [], [], expect_pass hcur (fun h => hk h.2) expected, hdrop, .refl hi⟩

/-- Both parsers take the current token or both leave it. Behind a token that is taken there is one
less. -/
theorem choice {p : Indexed (Option α)} {q : Parser (Option α)}
    (h : ∀ {items ts mark i}, Marked items ts mark → i ≤ ts.length →
      (p items i = .ok ⟨.ok none, i, [], [], []⟩ ∧
        q mark (ts.drop i) = ⟨.ok none, ts.drop i, []⟩) ∨
      ∃ a, p items i = .ok ⟨.ok (some a), i + 1, [], [i + 1], []⟩ ∧
        q mark (ts.drop i) = ⟨.ok (some a), ts.drop (i + 1), []⟩ ∧ i + 1 ≤ ts.length)
    {f : Option α → Indexed β} {g : Option α → Parser β} (hnone : Follows n (f none) (g none))
    (hsome : ∀ a, Follows (n - 1) (f (some a)) (g (some a))) : Follows n (p >>= f) (q >>= g) := by
  refine ⟨fun {items ts mark i} hm hi hn => ?_⟩
  rcases h hm hi with ⟨hp, hq⟩ | ⟨a, hp, hq, hlt⟩
  · rw [Parser.bind_ok hq]
    exact (hnone.runs hm hi hn).quiet hp
  · rw [Parser.bind_ok hq]
    exact ((hsome a).runs hm hlt (by omega)).moved hp (.next hlt)

theorem accept {kind : Kind} {f : Option Token → Indexed β} {g : Option Token → Parser β} :
    Follows n (f none) (g none) → (∀ t, Follows (n - 1) (f (some t)) (g (some t))) →
      Follows n (Indexed.accept kind >>= f) (Parser.accept kind >>= g) := by
  refine choice fun hm hi => ?_
  rcases hm.cases hi with ⟨hdrop, hcur⟩ | ⟨t, us, hdrop, hrest, ht, hcur, hlt⟩
  · exact .inl ⟨accept_pass hcur (by simp [hm.kind]), by rw [hdrop]; rfl⟩
  · by_cases hk : t.kind = kind
    · right
      exact ⟨t, accept_take hcur ⟨ht, hk⟩, by rw [hdrop, hrest, Parser.accept_take hk], hlt⟩
    · left
      exact ⟨accept_pass hcur fun h => hk h.2, by rw [hdrop, Parser.accept_pass hk]⟩

theorem acceptFrom {table : Kind → Option α} (htable : table .eof = none)
    {f : Option (α × Token) → Indexed β} {g : Option (α × Token) → Parser β} :
    Follows n (f none) (g none) → (∀ x, Follows (n - 1) (f (some x)) (g (some x))) →
      Follows n (Indexed.acceptFrom table >>= f) (Parser.acceptFrom table >>= g) := by
  refine choice fun hm hi => ?_
  rcases hm.cases hi with ⟨hdrop, hcur⟩ | ⟨t, us, hdrop, hrest, ht, hcur, hlt⟩
  · exact .inl ⟨acceptFrom_pass hcur (by rw [hm.kind, htable]), by rw [hdrop]; rfl⟩
  · cases ha : table t.kind with
    | some a =>
      right
      exact ⟨(a, t), acceptFrom_take hcur ht ha,
        by rw [hdrop, hrest, Parser.acceptFrom_take ha], hlt⟩
    | none =>
      left
      exact ⟨acceptFrom_pass hcur ha, by rw [hdrop, Parser.acceptFrom_pass ha]⟩

end Follows

namespace FollowsAt

theorem current {f : Token → Indexed α} (h : FollowsAt t n (f t) q) :
    FollowsAt t n (Indexed.current >>= f) q :=
  ⟨fun hm hi hn hcur => (h.runs hm hi hn hcur).quiet (current_eq hcur)⟩

theorem accept_pass {kind : Kind} (hk : t.kind ≠ kind) {f : Option Token → Indexed α}
    (h : FollowsAt t n (f none) q) : FollowsAt t n (Indexed.accept kind >>= f) q :=
  ⟨fun hm hi hn hcur =>
    (h.runs hm hi hn hcur).quiet (Indexed.accept_pass hcur fun ht => hk ht.2)⟩

/-- The parser of lists looks at the token at which the cursor stands. -/
theorem look {g : Token → Parser α} (h : FollowsAt t n p (g t)) :
    FollowsAt t n p (Parser.current >>= g) := by
  refine ⟨fun {items ts mark i} hm hi hn hcur => ?_⟩
  have hhead := (hm.current hi).symm.trans hcur
  have hstep := h.runs hm hi hn hcur
  rw [← Option.some.inj hhead] at hstep
  exact hstep

variable {g : Unit → Parser α}

/-- A step over the token is what passes over it. -/
theorem moved {p : Indexed β} {b : β} (ht : t.kind ≠ .eof)
    (hp : ∀ {items i}, items[i]? = some t → p items i = .ok ⟨.ok b, i + 1, [], [i + 1], []⟩)
    {f : β → Indexed α} (h : Follows n (f b) (g ())) :
    FollowsAt t (n + 1) (p >>= f) (Parser.skip >>= g) := by
  refine ⟨fun {items ts mark i} hm hi hn hcur => ?_⟩
  rcases hm.cases hi with ⟨-, hmark⟩ | ⟨u, us, hdrop, hrest, -, -, hlt⟩
  · rw [hmark] at hcur
    exact absurd (Option.some.inj hcur ▸ hm.kind) ht
  · have hstep := h.runs hm hlt (by omega)
    rw [hdrop, ← hrest]
    exact hstep.moved (hp hcur) (.next hlt)

theorem advance (ht : t.kind ≠ .eof) {f : Token → Indexed α} (h : Follows n (f t) (g ())) :
    FollowsAt t (n + 1) (Indexed.advance >>= f) (Parser.skip >>= g) :=
  moved ht (fun hcur => advance_token hcur ht) h

theorem accept_take {kind : Kind} (ht : t.kind ≠ .eof) (hk : t.kind = kind)
    {f : Option Token → Indexed α} (h : Follows n (f (some t)) (g ())) :
    FollowsAt t (n + 1) (Indexed.accept kind >>= f) (Parser.skip >>= g) :=
  moved ht (fun hcur => Indexed.accept_take hcur ⟨ht, hk⟩) h

end FollowsAt

end

/-! ## Going on -/

/-- A row goes on as the tokens from the cursor to the mark say. -/
theorem continues_eq {items ts : List Token} {mark : Token} {i : Nat} (hm : Marked items ts mark)
    (hi : i ≤ ts.length) (stop : Option Kind) : continues stop items i =
      .ok ⟨.ok (!decide (Parser.Ended stop (ts.drop i))), i, [], [], []⟩ := by
  unfold continues
  rcases hm.cases hi with ⟨hdrop, hcur⟩ | ⟨t, us, hdrop, -, ht, hcur, -⟩
  · rw [bind_quiet (isAtEnd_eq hcur), hdrop]
    simp [hm.kind, Parser.Ended, pure, Indexed.pure]
  · rw [bind_quiet (isAtEnd_eq hcur), hdrop]
    simp only [beq_iff_eq, ht, if_false]
    cases stop with
    | none => simp [Parser.Ended, headKind, pure, Indexed.pure]
    | some kind =>
      dsimp only
      rw [bind_quiet (sees_eq hcur kind)]
      simp [Parser.Ended, headKind, ht, pure, Indexed.pure]

/-! ## Going on after a fault -/

section
variable {items ts : List Token} {mark last : Token}

/-- A cursor behind the token `last` goes on to where parsing goes on. -/
theorem runs_resume (hm : Marked items ts mark) : ∀ (n : Nat) {i : Nat} {last : Token},
    items[i - 1]? = some last → i ≤ ts.length → ts.length < i + n →
      Runs items ts i (resume n) ⟨.ok (), Parser.resume last (ts.drop i), []⟩
  | 0, i, last, _, hi, hn => by omega
  | n + 1, i, last, hlast, hi, hn => by
    rw [resume]
    rcases hm.cases hi with ⟨hdrop, hcur⟩ | ⟨t, us, hdrop, hrest, ht, hcur, hlt⟩
    · refine .quiet (isAtEnd_eq hcur) ?_
      rw [hdrop]
      simp only [hm.kind, beq_self_eq_true, if_true, Parser.resume]
      rw [← hdrop]
      exact runs_pure hi ()
    · refine .quiet (isAtEnd_eq hcur) ?_
      simp only [beq_iff_eq, ht, if_false]
      refine .quiet (previous_eq hlast) ?_
      have hstay : Runs items ts i (pure ()) _ := runs_pure hi ()
      rw [hdrop] at hstay ⊢
      by_cases hsemicolon : last.kind = .semicolon
      · simpa only [Parser.resume, hsemicolon, true_or, if_true] using hstay
      · simp only [hsemicolon, if_false]
        refine .quiet (current_eq hcur) ?_
        by_cases hstarts : Parser.startsStatement t.kind = true
        · simpa only [Parser.resume, hstarts, or_true, if_true] using hstay
        · simp only [Parser.resume, hsemicolon, hstarts, ← hrest]
          exact .moved (advance_token hcur ht) (.next hlt) (runs_resume hm n hcur hlt (by omega))

theorem runs_synchronize (hm : Marked items ts mark) {n i : Nat} (hi : i ≤ ts.length)
    (hn : ts.length < i + n) :
    Runs items ts i (synchronize n) ⟨.ok (), Parser.afterFault (ts.drop i), []⟩ := by
  rw [synchronize]
  rcases hm.cases hi with ⟨hdrop, hcur⟩ | ⟨t, us, hdrop, hrest, ht, hcur, hlt⟩
  · obtain ⟨u, hu⟩ := hm.exists_previous hi
    have hresume := runs_resume hm n hu hi hn
    rw [hdrop] at hresume ⊢
    exact hresume.moved (advance_mark hcur hm.kind hu) (.stay hi)
  · rw [hdrop, ← hrest]
    exact .moved (advance_token hcur ht) (.next hlt) (runs_resume hm n hcur hlt (by omega))

end

section
variable {n : Nat} {p : Indexed α} {q : Parser α}

theorem Runs.attempt {items ts mid : List Token} {i : Nat} {r : Except Diagnostic α}
    {reports : List Diagnostic} (h : Runs items ts i p ⟨r, mid, reports⟩) :
    Runs items ts i (attempt p) ⟨.ok r, mid, reports⟩ := by
  obtain ⟨j, path, spans, hp, hmid, hrecord⟩ := h
  refine ⟨j, path, spans, ?_, hmid, hrecord⟩
  simp only [Indexed.attempt, hp]

theorem Follows.recover (h : Follows n p q) :
    Follows n (recover n p) (Parser.recover q) := by
  refine ⟨fun {items ts mark i} hm hi hn => ?_⟩
  have hp := h.runs hm hi hn
  unfold Indexed.recover
  rcases hq : q mark (ts.drop i) with ⟨e | a, mid, reports⟩
  · rw [hq] at hp
    rw [Parser.recover_error hq]
    refine hp.attempt.bind_ok fun j hij hj hmid => ?_
    have hreport : Runs items ts j (Indexed.report e) ⟨.ok (), mid, [e]⟩ :=
      ⟨j, [], [], rfl, hmid, .refl hj⟩
    refine hreport.bind_silent fun k hjk hk hmid => ?_
    have hsynchronize := runs_synchronize hm hk (n := n) (by omega)
    rw [hmid] at hsynchronize
    refine hsynchronize.bind_silent fun l _ hl hrest => ?_
    rw [← hrest]
    exact runs_pure hl none
  · rw [hq] at hp
    rw [Parser.recover_ok hq]
    refine hp.attempt.bind_silent fun j hij hj hmid => ?_
    rw [← hmid]
    exact runs_pure hj (some a)

end

/-! ## Rows -/

/-- Every position from `i` to before `j` lies in one of the spans. -/
def Covers (spans : List (Nat × Nat)) (i j : Nat) : Prop :=
  ∀ m, i ≤ m → m < j → ∃ c ∈ spans, c.1 ≤ m ∧ m < c.2

theorem Covers.round {spans spans' : List (Nat × Nat)} {i j k : Nat} (h : Covers spans' j k) :
    Covers ((spans ++ [(i, j)]) ++ spans') i k := by
  intro m him hmk
  by_cases hmj : m < j
  · exact ⟨(i, j), by simp, him, hmj⟩
  · obtain ⟨c, hc, hm⟩ := h m (by omega) hmk
    exact ⟨c, List.mem_append_right _ hc, hm⟩

/-- The parser runs, and every token that it takes belongs to a declaration of its record. -/
def RunsRow (items ts : List Token) (i : Nat) (p : Indexed α) (step : Sprog.Step α) : Prop :=
  ∃ j path spans, p items i = .ok ⟨step.result, j, step.reports, path, spans⟩ ∧
    ts.drop j = step.rest ∧ Record ts.length i j path spans ∧ Covers spans i j

section
variable {items ts mid rest : List Token} {i : Nat} {reports : List Diagnostic} {p : Indexed α}

theorem RunsRow.runs {step : Sprog.Step α} (h : RunsRow items ts i p step) :
    Runs items ts i p step := by
  obtain ⟨j, path, spans, hp, hrest, hrecord, -⟩ := h
  exact ⟨j, path, spans, hp, hrest, hrecord⟩

theorem runsRow_pure (hi : i ≤ ts.length) (a : α) :
    RunsRow items ts i (pure a) ⟨.ok a, ts.drop i, []⟩ :=
  ⟨i, [], [], rfl, rfl, .refl hi, fun _ _ _ => by omega⟩

theorem RunsRow.map {a : α} (h : RunsRow items ts i p ⟨.ok a, rest, reports⟩) (f : α → β) :
    RunsRow items ts i (p >>= fun a => pure (f a)) ⟨.ok (f a), rest, reports⟩ := by
  obtain ⟨j, path, spans, hp, hrest, hrecord, hcovers⟩ := h
  refine ⟨j, path, spans, ?_, hrest, hrecord, hcovers⟩
  show Indexed.bind p (fun a => Indexed.pure (f a)) items i = _
  simp only [Indexed.bind, hp, Indexed.pure, List.append_nil]

theorem RunsRow.quiet {a : α} (h : p items i = .ok ⟨.ok a, i, [], [], []⟩) {f : α → Indexed β}
    {step : Sprog.Step β} (hf : RunsRow items ts i (f a) step) :
    RunsRow items ts i (p >>= f) step := by
  unfold RunsRow
  rwa [bind_quiet h]

/-- A declaration that takes a token, and the rest of its row. -/
theorem RunsRow.round {a : α} {row : α → Indexed β} {r : Except Diagnostic β}
    {reports' : List Diagnostic} (h : Runs items ts i p ⟨.ok a, mid, reports⟩)
    (hless : mid.length < (ts.drop i).length)
    (hrow : ∀ j, i < j → j ≤ ts.length → ts.drop j = mid →
      RunsRow items ts j (row a) ⟨r, rest, reports'⟩) :
    RunsRow items ts i (recorded p >>= row) ⟨r, rest, reports ++ reports'⟩ := by
  obtain ⟨j, path, spans, hp, hmid, hrecord⟩ := h
  have hij : i < j := by
    have hlen := congrArg List.length hmid
    simp only [List.length_drop] at hlen hless
    omega
  obtain ⟨k, path', spans', hf, hrest, hrecord', hcovers⟩ := hrow j hij hrecord.inside hmid
  refine ⟨k, path ++ path', (spans ++ [(i, j)]) ++ spans', ?_, hrest,
    (hrecord.close hij).append hrecord', hcovers.round⟩
  show Indexed.bind (recorded p) row items i = _
  simp only [Indexed.bind, recorded, hp, hf]

end

end Indexed

end Sprog
