import Sprog.Proofs.Loose
import Sprog.Proofs.Reports
import Sprog.Proofs.Tiers

/-!
# Where a parser meets its first unexpected token

Up to the first unexpected token a parser has taken tokens that can still be completed to what it is
there to read. `TracksAt p eof ts L` says this of one run, with `L` for the rows of tokens that `p`
reads: if no token is unexpected, the tokens taken are in `L`; otherwise those before the first
unexpected one start something in `L`. In both cases the parser has looked at the next token only:
with other tokens behind that one it does the same so far.

* `TracksAt.bind`: one parser after another.
* `tracks_expression`, `tracks_statement`, `tracks_program`: the language's parsers.
-/
namespace Sprog

/-- Everything that is wrong with a step, in the order in which it was found. -/
def Step.faults {α : Type} (s : Step α) : List Diagnostic :=
  match s.result with
  | .ok _ => s.reports
  | .error e => s.reports ++ [e]

/-- The first token that is unexpected. -/
def Step.unexpected? {α : Type} (s : Step α) : Option Token :=
  s.faults.findSome? Diagnostic.unexpected?

/-- The rows are not empty and start with the same token. -/
def SameHead (us vs : List Token) : Prop := us ≠ [] ∧ us.head? = vs.head?

theorem SameHead.append {us vs : List Token} (h : SameHead us vs) (ts : List Token) :
    SameHead (ts ++ us) (ts ++ vs) := by
  cases ts with
  | nil => exact h
  | cons t ts => exact ⟨by simp, rfl⟩

theorem SameHead.headD {us vs : List Token} (h : SameHead us vs) (eof eof' : Token) :
    us.headD eof' = vs.headD eof := by
  obtain ⟨hne, hhead⟩ := h
  cases us with
  | nil => exact absurd rfl hne
  | cons u us =>
    cases vs with
    | nil => cases hhead
    | cons v vs => cases hhead; rfl

theorem SameHead.eq_cons {us ts : List Token} {t : Token} (h : SameHead us (t :: ts)) :
    ∃ vs, us = t :: vs := by
  obtain ⟨hne, hhead⟩ := h
  cases us with
  | nil => exact absurd rfl hne
  | cons u us => cases hhead; exact ⟨us, rfl⟩

theorem not_sameHead_nil {us : List Token} : ¬ SameHead us [] := by
  rintro ⟨hne, hhead⟩
  cases us with
  | nil => exact hne rfl
  | cons u us => cases hhead

namespace Parser

open Grammar

variable {α β : Type}

section
variable {p : Parser α} {f : α → Parser β} {eof t : Token} {ts mid : List Token} {a : α}
  {reports : List Diagnostic}

theorem unexpected?_bind_some (h : (p eof ts).unexpected? = some t) :
    ((p >>= f) eof ts).unexpected? = some t := by
  rcases hstep : p eof ts with ⟨e | a, mid, reports⟩
  · rw [bind_error hstep]
    rwa [hstep] at h
  · rw [bind_ok hstep]
    rw [hstep] at h
    simp only [Step.unexpected?, Step.faults] at h ⊢
    cases (f a eof mid).result <;> simp [List.findSome?_append, h]

theorem unexpected?_bind_none (h : p eof ts = ⟨.ok a, mid, reports⟩)
    (hnone : (p eof ts).unexpected? = none) :
    ((p >>= f) eof ts).unexpected? = (f a eof mid).unexpected? := by
  rw [h] at hnone
  rw [bind_ok h]
  simp only [Step.unexpected?, Step.faults] at hnone ⊢
  cases (f a eof mid).result <;> simp [List.findSome?_append, hnone]

/-- A fault that is recovered from is still a fault. -/
theorem faults_recover : (recover p eof ts).faults = (p eof ts).faults := by
  rcases hstep : p eof ts with ⟨e | a, mid, reports⟩
  · rw [recover_error hstep]
    rfl
  · rw [recover_ok hstep]
    rfl

end

/-- What the parser has taken up to the first unexpected token starts something in `L`, or is in
`L` if there is none, and it depends on no more than the token that is next then. -/
structure TracksAt (p : Parser α) (eof : Token) (ts : List Token) (L : List Token → Prop) :
    Prop where
  possible : ∃ x, L x
  reads : ∀ ⦃a rest reports⦄, p eof ts = ⟨.ok a, rest, reports⟩ → (p eof ts).unexpected? = none →
    ∃ used, ts = used ++ rest ∧ L used ∧
      ∀ eof' us, SameHead us rest → p eof' (used ++ us) = ⟨.ok a, us, reports⟩
  breaks : ∀ ⦃t⦄, (p eof ts).unexpected? = some t →
    ∃ used rest, ts = used ++ rest ∧ t = rest.headD eof ∧ (∃ w, L (used ++ w)) ∧
      ∀ eof' us, SameHead us rest → (p eof' (used ++ us)).unexpected?.isSome = true

namespace TracksAt

variable {p q : Parser α} {f : α → Parser β} {eof : Token} {ts : List Token}
  {L M : List Token → Prop}

theorem imp (h : TracksAt p eof ts L) (himp : ∀ x, L x → M x) : TracksAt p eof ts M where
  possible := h.possible.imp himp
  reads a rest reports hp hnone := by
    obtain ⟨used, hts, hL, hlocal⟩ := h.reads hp hnone
    exact ⟨used, hts, himp used hL, hlocal⟩
  breaks t hsome := by
    obtain ⟨used, rest, hts, ht, ⟨w, hw⟩, hlocal⟩ := h.breaks hsome
    exact ⟨used, rest, hts, ht, ⟨w, himp _ hw⟩, hlocal⟩

/-- A parser that looks at the first token and then does the same as another one. -/
theorem congr (h : TracksAt p eof ts L) (hq : q eof ts = p eof ts)
    (hlike : ∀ eof' us, SameHead us ts → q eof' us = p eof' us) : TracksAt q eof ts L where
  possible := h.possible
  reads a rest reports hp hnone := by
    rw [hq] at hp hnone
    obtain ⟨used, rfl, hL, hlocal⟩ := h.reads hp hnone
    refine ⟨used, rfl, hL, fun eof' us hus => ?_⟩
    rw [hlike eof' _ (hus.append used)]
    exact hlocal eof' us hus
  breaks t hsome := by
    rw [hq] at hsome
    obtain ⟨used, rest, rfl, ht, hw, hlocal⟩ := h.breaks hsome
    refine ⟨used, rest, rfl, ht, hw, fun eof' us hus => ?_⟩
    rw [hlike eof' _ (hus.append used)]
    exact hlocal eof' us hus

/-- A parser that takes the first token and then does the same as another one. -/
theorem cons {t : Token} (h : TracksAt p eof ts fun x => L (t :: x))
    (hq : ∀ eof us, q eof (t :: us) = p eof us) : TracksAt q eof (t :: ts) L where
  possible := by
    obtain ⟨x, hx⟩ := h.possible
    exact ⟨_, hx⟩
  reads a rest reports hp hnone := by
    rw [hq] at hp hnone
    obtain ⟨used, rfl, hL, hlocal⟩ := h.reads hp hnone
    exact ⟨t :: used, rfl, hL, fun eof' us hus => (hq ..).trans (hlocal eof' us hus)⟩
  breaks u hsome := by
    rw [hq] at hsome
    obtain ⟨used, rest, rfl, hu, ⟨w, hw⟩, hlocal⟩ := h.breaks hsome
    refine ⟨t :: used, rest, rfl, hu, ⟨w, hw⟩, fun eof' us hus => ?_⟩
    rw [List.cons_append, hq]
    exact hlocal eof' us hus

theorem pure {a : α} (h : L []) : TracksAt (pure a) eof ts L where
  possible := ⟨[], h⟩
  reads b rest reports hp _ := by
    cases hp
    exact ⟨[], rfl, h, fun _ _ _ => rfl⟩
  breaks t hsome := by cases hsome

theorem fail {expected : Expected} (h : ∃ x, L x) :
    TracksAt (fail expected : Parser α) eof ts L where
  possible := h
  reads a rest reports hp _ := by cases hp
  breaks t hsome := by
    cases hsome
    exact ⟨[], ts, rfl, rfl, h, fun _ _ _ => rfl⟩

theorem bind [Nonempty α] (hp : TracksAt p eof ts L)
    (hf : ∀ a x mid, L x → TracksAt (f a) eof mid fun y => M (x ++ y)) :
    TracksAt (p >>= f) eof ts M where
  possible := by
    obtain ⟨x, hx⟩ := hp.possible
    obtain ⟨y, hy⟩ := (hf (Classical.arbitrary α) x [] hx).possible
    exact ⟨_, hy⟩
  reads b rest reports h hnone := by
    obtain ⟨a, mid, first, second, hfirst, hsecond, rfl⟩ := exists_of_bind_ok h
    have hp' : (p eof ts).unexpected? = none := by
      by_contra hsome
      obtain ⟨t, ht⟩ := Option.ne_none_iff_exists'.1 hsome
      rw [unexpected?_bind_some ht] at hnone
      cases hnone
    obtain ⟨used, rfl, hL, hlocal⟩ := hp.reads hfirst hp'
    rw [unexpected?_bind_none hfirst hp'] at hnone
    obtain ⟨used', rfl, hM, hlocal'⟩ := (hf a used mid hL).reads hsecond hnone
    refine ⟨used ++ used', (List.append_assoc ..).symm, hM, fun eof' us hus => ?_⟩
    rw [List.append_assoc, bind_ok (hlocal eof' _ (hus.append used')), hlocal' eof' us hus]
  breaks t hsome := by
    cases hp' : (p eof ts).unexpected? with
    | some t' =>
      -- the first parser meets it: what the second reads could still have followed
      rw [unexpected?_bind_some hp'] at hsome
      cases hsome
      obtain ⟨used, rest, rfl, ht, ⟨w, hw⟩, hlocal⟩ := hp.breaks hp'
      obtain ⟨y, hy⟩ := (hf (Classical.arbitrary α) _ [] hw).possible
      refine ⟨used, rest, rfl, ht, ⟨w ++ y, by simpa using hy⟩, fun eof' us hus => ?_⟩
      obtain ⟨u, hu⟩ := Option.isSome_iff_exists.1 (hlocal eof' us hus)
      rw [unexpected?_bind_some hu]
      rfl
    | none =>
      rcases hstep : p eof ts with ⟨e | a, mid, reports⟩
      · rw [bind_error hstep] at hsome
        rw [hstep] at hp'
        cases hp'.symm.trans hsome
      · -- the second parser meets it: in front of such a rest the first one does the same
        rw [unexpected?_bind_none hstep hp'] at hsome
        obtain ⟨used, rfl, hL, hlocal⟩ := hp.reads hstep hp'
        obtain ⟨used', rest, rfl, ht, ⟨w, hw⟩, hlocal'⟩ := (hf a used mid hL).breaks hsome
        refine ⟨used ++ used', rest, (List.append_assoc ..).symm, ht,
          ⟨w, by simpa using hw⟩, fun eof' us hus => ?_⟩
        have hagain := hlocal eof' _ (hus.append used')
        have hnone : (p eof' (used ++ (used' ++ us))).unexpected? = none := by
          rw [hagain]
          rwa [hstep] at hp'
        rw [List.append_assoc, unexpected?_bind_none hagain hnone]
        exact hlocal' eof' us hus

theorem map [Nonempty α] {g : α → β} (h : TracksAt p eof ts M) : TracksAt (g <$> p) eof ts M :=
  h.bind fun _ _ _ hM => .pure (by simpa using hM)

theorem report {d : Diagnostic} (hd : d.unexpected? = none) :
    TracksAt (report d) eof ts (· = []) where
  possible := ⟨[], rfl⟩
  reads a rest reports hp _ := by
    cases hp
    exact ⟨[], rfl, rfl, fun _ _ _ => rfl⟩
  breaks t hsome := by
    have hnone : (Parser.report d eof ts).unexpected? = none := by
      simp [Step.unexpected?, Step.faults, Parser.report, hd]
    cases hnone.symm.trans hsome

/-- A declaration that fails has met an unexpected token, so going on behind it comes too late. -/
theorem recover (hb : Blames p) (h : TracksAt p eof ts L) : TracksAt (recover p) eof ts L where
  possible := h.possible
  reads r rest reports hp hnone := by
    rw [Step.unexpected?, faults_recover] at hnone
    rcases hstep : p eof ts with ⟨e | a, mid, reports'⟩
    · -- what stopped the parser is an unexpected token itself
      obtain ⟨expected, rfl⟩ := hb hstep
      rw [hstep] at hnone
      simp [Step.faults, Diagnostic.unexpected?, List.findSome?_append] at hnone
    · rw [recover_ok hstep] at hp
      cases hp
      obtain ⟨used, rfl, hL, hlocal⟩ := h.reads hstep hnone
      exact ⟨used, rfl, hL, fun eof' us hus => recover_ok (hlocal eof' us hus)⟩
  breaks t hsome := by
    rw [Step.unexpected?, faults_recover] at hsome
    obtain ⟨used, rest, rfl, ht, hw, hlocal⟩ := h.breaks hsome
    refine ⟨used, rest, rfl, ht, hw, fun eof' us hus => ?_⟩
    rw [Step.unexpected?, faults_recover]
    exact hlocal eof' us hus

/-! ### Looking at the first token -/

section
variable {f : Token → Parser β} {g : Bool → Parser β} {M : List Token → Prop}

theorem current_bind (h : TracksAt (f (ts.headD eof)) eof ts M) :
    TracksAt (current >>= f) eof ts M := by
  refine h.congr rfl fun eof' us hus => ?_
  have hcurrent : current eof' us = ⟨.ok (ts.headD eof), us, []⟩ := by
    rw [← hus.headD eof eof']
    rfl
  rw [bind_ok hcurrent]
  rfl

theorem sees_bind {kind : Kind} (h : ∀ b, TracksAt (g b) eof ts M) :
    TracksAt (sees kind >>= g) eof ts M := by
  refine (h (ts.head?.any (·.kind == kind))).congr rfl fun eof' us hus => ?_
  have hsees : sees kind eof' us = ⟨.ok (ts.head?.any (·.kind == kind)), us, []⟩ := by
    rw [← hus.2]
    rfl
  rw [bind_ok hsees]
  rfl

theorem continues_bind {stop : Option Kind} (h : ∀ b, TracksAt (g b) eof ts M) :
    TracksAt (continues stop >>= g) eof ts M := by
  refine (h (ts.head?.any fun t => some t.kind != stop)).congr rfl fun eof' us hus => ?_
  have hcontinues : continues stop eof' us =
      ⟨.ok (ts.head?.any fun t => some t.kind != stop), us, []⟩ := by
    rw [← hus.2]
    rfl
  rw [bind_ok hcontinues]
  rfl

end

/-! ### Taking the first token -/

section
variable {M : List Token → Prop}

theorem skip_bind {t : Token} {f : Unit → Parser β}
    (h : TracksAt (f ()) eof ts fun x => M (t :: x)) : TracksAt (skip >>= f) eof (t :: ts) M :=
  h.cons fun _ _ => rfl

/-- An optional token: the table says which tokens are taken. -/
theorem acceptFrom_bind {table : Kind → Option α} {f : Option (α × Token) → Parser β}
    (hsome : ∀ t us a, table t.kind = some a →
      TracksAt (f (some (a, t))) eof us fun x => M (t :: x))
    (hnone : TracksAt (f none) eof ts M) : TracksAt (acceptFrom table >>= f) eof ts M := by
  cases ts with
  | nil => exact hnone.congr rfl fun _ _ hus => absurd hus not_sameHead_nil
  | cons t us =>
    cases hk : table t.kind with
    | some a =>
      refine (hsome t us a hk).cons fun eof us => ?_
      rw [bind_ok (acceptFrom_take hk eof us)]
      rfl
    | none =>
      have hpass : ∀ eof us, (acceptFrom table >>= f) eof (t :: us) = f none eof (t :: us) := by
        intro eof us
        rw [bind_ok (acceptFrom_pass hk eof us)]
        rfl
      refine hnone.congr (hpass eof us) fun eof' vs hvs => ?_
      obtain ⟨vs, rfl⟩ := hvs.eq_cons
      exact hpass eof' vs

theorem accept_bind {kind : Kind} {f : Option Token → Parser β}
    (hsome : ∀ t us, t.kind = kind → TracksAt (f (some t)) eof us fun x => M (t :: x))
    (hnone : TracksAt (f none) eof ts M) : TracksAt (accept kind >>= f) eof ts M := by
  cases ts with
  | nil => exact hnone.congr rfl fun _ _ hus => absurd hus not_sameHead_nil
  | cons t us =>
    by_cases hk : t.kind = kind
    · refine (hsome t us hk).cons fun eof us => ?_
      rw [bind_ok (accept_take hk eof us)]
      rfl
    · have hpass : ∀ eof us, (accept kind >>= f) eof (t :: us) = f none eof (t :: us) := by
        intro eof us
        rw [bind_ok (accept_pass hk eof us)]
        rfl
      refine hnone.congr (hpass eof us) fun eof' vs hvs => ?_
      obtain ⟨vs, rfl⟩ := hvs.eq_cons
      exact hpass eof' vs

/-- A token that is demanded. If it is not there, what was read so far could have gone on with
it. -/
theorem expect_bind {kind : Kind} {expected : Expected} {f : Token → Parser β}
    (h : ∀ t us, t.kind = kind → TracksAt (f t) eof us fun x => M (t :: x)) :
    TracksAt (expect kind expected >>= f) eof ts M := by
  have hpossible : ∃ x, M x := by
    obtain ⟨x, hx⟩ := (h ⟨kind, "", none, 0⟩ [] rfl).possible
    exact ⟨_, hx⟩
  have hfail : TracksAt (Parser.fail expected : Parser β) eof ts M := .fail hpossible
  cases ts with
  | nil => exact hfail.congr rfl fun _ _ hus => absurd hus not_sameHead_nil
  | cons t us =>
    by_cases hk : t.kind = kind
    · refine (h t us hk).cons fun eof us => ?_
      rw [bind_ok (expect_take hk expected eof us)]
      rfl
    · have hpass : ∀ eof us, (expect kind expected >>= f) eof (t :: us) =
          Parser.fail expected eof (t :: us) := fun eof us =>
        bind_error (expect_pass hk expected eof us) f
      refine hfail.congr (hpass eof us) fun eof' vs hvs => ?_
      obtain ⟨vs, rfl⟩ := hvs.eq_cons
      exact hpass eof' vs

end

end TracksAt

/-- What the parser has taken up to the first unexpected token always starts something in `L`, or
is in `L` if there is none. -/
def Tracks (p : Parser α) (L : List Token → Prop) : Prop :=
  ∀ ⦃eof⦄, eof.kind = .eof → ∀ ts, TracksAt p eof ts L

/-- Items with commas between them, where `L` is closed under the two ways to write such a list. -/
theorem tracks_commaSeparated [Nonempty α] {item : Parser α} {I L : List Token → Prop}
    (hitem : Tracks item I) (last : ∀ ts, I ts → L ts)
    (more : ∀ ts comma us, I ts → comma.kind = .comma → L us → L (ts ++ comma :: us)) :
    ∀ n, Tracks (commaSeparated item n) L
  | 0, _, he, ts => (hitem he ts).bind fun _ x _ hx => .pure (by simpa using last x hx)
  | n + 1, _, he, ts => by
    refine (hitem he ts).bind fun _ x _ hx => .accept_bind (fun comma us hc => ?_) ?_
    · refine (tracks_commaSeparated hitem last more n he us).bind fun _ y _ hy => .pure ?_
      simpa using more x comma y hx hc hy
    · exact .pure (by simpa using last x hx)

/-! ## Expressions -/

instance : Nonempty Expr := ⟨.constant .nil⟩

instance : Nonempty Stmt := ⟨.block []⟩

instance : Nonempty Token := ⟨.eof 0⟩

section
variable {expr : Parser Expr} (hexpr : Tracks expr (Loose (.expr .assignment)))

include hexpr

theorem tracks_primary : Tracks (primary expr) (Loose (.expr .primary)) := by
  intro eof he ts
  refine .current_bind ?_
  cases ts with
  | nil =>
    simp only [List.headD_nil, he]
    exact .fail (Loose.exists_expr _)
  | cons t us =>
    simp only [List.headD_cons]
    split
    · rename_i hk; exact .skip_bind (.pure (.atom (.no hk)))
    · rename_i hk; exact .skip_bind (.pure (.atom (.yes hk)))
    · rename_i hk; exact .skip_bind (.pure (.atom (.nothing hk)))
    · rename_i hk; exact .skip_bind (.pure (.atom (.ofLiteral (hk ▸ .number))))
    · rename_i hk; exact .skip_bind (.pure (.atom (.ofLiteral (hk ▸ .string))))
    · rename_i hk; exact .skip_bind (.pure (.atom (.name hk)))
    · rename_i hk
      exact .skip_bind ((hexpr he us).bind fun _ _ _ hx =>
        .expect_bind fun _ _ hc => .pure (.group hk hx hc))
    · exact .fail (Loose.exists_expr _)

theorem tracks_arguments (n : Nat) : Tracks (arguments expr n) (Loose .arguments) := by
  intro eof he ts
  refine .sees_bind fun b => ?_
  split
  · exact .pure .noArguments
  · exact (tracks_commaSeparated (L := Loose .list) hexpr (fun _ => .last) (fun _ _ _ => .comma) n
      he ts).imp fun _ => .arguments

theorem tracks_calls : ∀ (n : Nat) (callee : Expr),
    Tracks (calls expr n callee) (Loose (.more .call))
  | 0, _, _, _, _ => .pure .done
  | n + 1, callee, _, he, ts => by
    refine .accept_bind (fun opening us ho => ?_) (.pure .done)
    refine (tracks_arguments hexpr n he us).bind fun _ x _ hx =>
      .expect_bind fun closing vs hc => ?_
    exact (tracks_calls n _ he vs).imp fun _ hy => .call ho hx hc hy

theorem tracks_call (n : Nat) : Tracks (call expr n) (Loose (.expr .call)) :=
  fun _ he ts => (tracks_primary hexpr he ts).bind fun _ _ mid hx =>
    (tracks_calls hexpr n _ he mid).imp fun _ hy => .first rfl hx hy

end

theorem tracks_unary {operand : Parser Expr} (hop : Tracks operand (Loose (.expr .call))) :
    ∀ n, Tracks (unary operand n) (Loose (.expr .unary))
  | 0, _, he, ts => (hop he ts).imp fun _ hx => by simpa using Loose.first rfl hx .done
  | n + 1, _, he, ts => by
    refine .acceptFrom_bind (fun t us op ho => ?_)
      ((hop he ts).imp fun _ hx => by simpa using Loose.first rfl hx .done)
    refine (tracks_unary hop n he us).bind fun _ _ _ hx => .pure ?_
    simpa using Loose.sign ((sign_iff ..).1 ho) hx

section
variable {tier next : Tier} {level : Level} {operand : Parser Expr}
  (hl : tier.level? = some level) (hn : tier.next? = some next)
  (hop : Tracks operand (Loose (.expr next)))

include hl hn hop

theorem tracks_operations : ∀ (n : Nat) (left : Expr),
    Tracks (operations level operand n left) (Loose (.more tier))
  | 0, _, _, _, _ => .pure .done
  | n + 1, left, _, he, ts => by
    refine .acceptFrom_bind (fun op us node ho => ?_) (.pure .done)
    refine (hop he us).bind fun right x mid hx => ?_
    exact (tracks_operations n _ he mid).imp fun _ hy =>
      .operation hn ((operator_iff hl ..).1 ho) hx hy

theorem tracks_joined (n : Nat) : Tracks (joined n operand level) (Loose (.expr tier)) :=
  fun _ he ts => (hop he ts).bind fun _ _ mid hx =>
    (tracks_operations hl hn hop n _ he mid).imp fun _ hy => .first hn hx hy

end

theorem tracks_operation {n : Nat} (h : Tracks (expression n) (Loose (.expr .assignment))) :
    Tracks (atTier n .disjunction) (Loose (.expr .disjunction)) :=
  atTier_disjunction (P := fun tier p => Tracks p (Loose (.expr tier)))
    (tracks_unary (tracks_call h (n + 1)) (n + 1))
    fun hl hn hop => tracks_joined hl hn hop (n + 1)

theorem tracks_expression : ∀ n, Tracks (expression n) (Loose (.expr .assignment))
  | 0, _, _, _ => .fail (Loose.exists_expr _)
  | n + 1, eof, he, ts => by
    rw [expression_succ]
    refine (tracks_operation (tracks_expression n) he ts).bind fun target x mid hx => ?_
    refine .accept_bind (fun equals us hq => ?_) (.pure (.first rfl hx .done))
    refine (tracks_expression n he us).bind fun value y mid' hy => ?_
    have hassignment : Loose (.expr .assignment) (x ++ equals :: (y ++ [])) := by
      simpa using Loose.first rfl hx (.assign hq hy)
    split
    · exact .pure hassignment
    · refine (TracksAt.report rfl).bind ?_
      rintro _ _ _ rfl
      exact .pure hassignment

/-! ## Parts of statements -/

theorem tracks_expressionStatement (n : Nat) : Tracks (expressionStatement n) (Loose .bare) :=
  fun _ he ts => (tracks_expression n he ts).bind fun _ _ _ hx =>
    .expect_bind fun _ _ hs => .pure (.bare hx hs)

theorem tracks_declareRest (n : Nat) {keyword : Token} (hk : keyword.kind = .varKw) :
    Tracks (declareRest n) fun x => Loose .binding (keyword :: x) := by
  intro eof he ts
  refine .expect_bind fun name us hn => .accept_bind (fun equals vs hq => ?_) ?_
  · refine .bind (.map (tracks_expression n he vs)) fun _ x _ hx => ?_
    exact .expect_bind fun _ _ hs => .pure (.declareInitial hk hn hq hx hs)
  · refine .bind (.pure (L := (· = [])) rfl) ?_
    rintro _ _ _ rfl
    exact .expect_bind fun _ _ hs => .pure (.declare hk hn hs)

theorem tracks_countingInitial (n : Nat) : Tracks (countingInitial n) (Loose .initial) := by
  intro eof he ts
  refine .accept_bind (fun _ _ hs => .pure (.noInitial hs))
    (.accept_bind (fun keyword us hk => ?_) ?_)
  · exact .map ((tracks_declareRest n hk he us).imp fun _ hx => .bindingInitial hx)
  · exact .map ((tracks_expressionStatement n he ts).imp fun _ hx => .bareInitial hx)

theorem tracks_optionalBefore (kind : Kind) (n : Nat) :
    Tracks (optionalBefore kind n) (Loose .optional) := by
  intro eof he ts
  refine .sees_bind fun b => ?_
  split
  · exact .pure .missing
  · exact .map ((tracks_expression n he ts).imp fun _ hx => .given hx)

theorem tracks_parameters (n : Nat) :
    Tracks (parameters n) fun x => ∃ names, Parameters names x := by
  intro eof he ts
  refine .sees_bind fun b => ?_
  split
  · exact .pure ⟨[], .none⟩
  · have hname : Tracks (expect .identifier .parameterName) fun x =>
        ∃ name, x = [name] ∧ name.kind = .identifier := fun _ _ _ =>
      .accept_bind (fun name _ hk => .pure ⟨name, rfl, hk⟩)
        (.fail ⟨[⟨.identifier, "", none, 0⟩], _, rfl, rfl⟩)
    have hlast : ∀ ts, (∃ name, ts = [name] ∧ name.kind = .identifier) →
        ∃ names, Names names ts := by
      rintro _ ⟨name, rfl, hk⟩
      exact ⟨_, .last hk⟩
    have hmore : ∀ ts comma us, (∃ name, ts = [name] ∧ name.kind = .identifier) →
        comma.kind = .comma → (∃ names, Names names us) →
        ∃ names, Names names (ts ++ comma :: us) := by
      rintro _ comma us ⟨name, rfl, hk⟩ hc ⟨names, hnames⟩
      exact ⟨_, .more hk hc hnames⟩
    refine (tracks_commaSeparated hname hlast hmore n he ts).imp ?_
    rintro _ ⟨names, hnames⟩
    exact ⟨names, .some hnames⟩

/-! ## Statements -/

/-- The tokens of a statement, finished or not. -/
def IsStatement (x : List Token) : Prop := ∃ o, Loose (.statement o) x

theorem tracks_printRest (n : Nat) {keyword : Token} (hk : keyword.kind = .printKw) :
    Tracks (printRest n keyword) fun x => IsStatement (keyword :: x) :=
  fun _ he ts => (tracks_expression n he ts).bind fun _ _ _ hx =>
    .expect_bind fun _ _ hs => .pure ⟨false, .print hk hx hs⟩

section
variable {n : Nat} {part : Parser Stmt} (hpart : Tracks part IsStatement) {keyword : Token}

include hpart

theorem tracks_branchRest (hk : keyword.kind = .ifKw) :
    Tracks (branchRest n part) fun x => IsStatement (keyword :: x) := by
  intro eof he ts
  refine .expect_bind fun opening us ho => (tracks_expression n he us).bind fun test x _ hx =>
    .expect_bind fun closing vs hc => (hpart he vs).bind fun yes y mid hy => ?_
  obtain ⟨o, hyes⟩ := hy
  refine .accept_bind (fun other ws hother => ?_) (.pure ⟨true, ?_⟩)
  · refine (hpart he ws).bind fun no z _ hz => .pure ?_
    obtain ⟨o', hno⟩ := hz
    simpa [IsStatement] using Loose.branchElse hk ho hx hc hyes hother hno
  · simpa using Loose.branch hk ho hx hc hyes

theorem tracks_loopRest (hk : keyword.kind = .whileKw) :
    Tracks (loopRest n part) fun x => IsStatement (keyword :: x) := by
  intro eof he ts
  refine .expect_bind fun opening us ho => (tracks_expression n he us).bind fun test x _ hx =>
    .expect_bind fun closing vs hc => (hpart he vs).bind fun body y _ hy => .pure ?_
  obtain ⟨o, hbody⟩ := hy
  exact ⟨o, by simpa using Loose.loop hk ho hx hc hbody⟩

theorem tracks_countingRest (hk : keyword.kind = .forKw) :
    Tracks (countingRest n part) fun x => IsStatement (keyword :: x) := by
  intro eof he ts
  refine .expect_bind fun opening us ho =>
    (tracks_countingInitial n he us).bind fun initial x mid hx =>
    (tracks_optionalBefore _ n he mid).bind fun test y _ hy =>
    .expect_bind fun semicolon vs hs =>
    (tracks_optionalBefore _ n he vs).bind fun increment z _ hz =>
    .expect_bind fun closing ws hc => (hpart he ws).bind fun body u _ hu => .pure ?_
  obtain ⟨o, hbody⟩ := hu
  exact ⟨o, by simpa using Loose.counting hk ho hx hy hs hz hc hbody⟩

end

/-! ## Declarations -/

section
variable {item : Parser Stmt} (hb : Blames item) (hitem : Tracks item (Loose .declaration))

include hb hitem

theorem tracks_declarations (stop : Option Kind) :
    ∀ n, Tracks (declarations stop item n) (Loose .declarations)
  | 0, _, _, _ => .pure .nil
  | n + 1, _, he, ts => by
    refine .continues_bind fun b => ?_
    split
    · refine .bind (.recover hb (hitem he ts)) fun first x mid hx => ?_
      refine (tracks_declarations stop n he mid).bind fun ss y _ hy => .pure ?_
      simpa using Loose.cons hx hy
    · exact .pure .nil

theorem tracks_blockRest (n : Nat) : Tracks (blockRest n item) fun x =>
    ∃ us closing, x = us ++ [closing] ∧ closing.kind = .rightBrace ∧ Loose .declarations us :=
  fun _ he ts => (tracks_declarations hb hitem _ n he ts).bind fun _ us _ hus =>
    .expect_bind fun closing _ hc => .pure ⟨us, closing, rfl, hc, hus⟩

theorem tracks_functionRest (n : Nat) {keyword : Token} (hk : keyword.kind = .functionKw) :
    Tracks (functionRest n item) fun x => Loose .declaration (keyword :: x) := by
  intro eof he ts
  refine .expect_bind fun name _ hn => .expect_bind fun opening us ho =>
    (tracks_parameters n he us).bind fun names x _ hx =>
    .expect_bind fun closing _ hc => .expect_bind fun left vs hleft =>
    (tracks_blockRest hb hitem n he vs).bind fun body _ _ hbody => .pure ?_
  obtain ⟨names, hnames⟩ := hx
  obtain ⟨y, right, rfl, hright, hbody⟩ := hbody
  simpa using Loose.function hk hn ho hnames hc hleft hbody hright

end

/-! ## The knot -/

/-- The tokens of what may stand at a place. -/
def InPlace : Place → List Token → Prop
  | .outer => Loose .declaration
  | .inner => IsStatement

theorem IsStatement.inPlace {x : List Token} (h : IsStatement x) (place : Place) :
    InPlace place x := by
  cases place with
  | outer => exact .statement h.choose_spec
  | inner => exact h

theorem tracks_statement : ∀ (n : Nat) (place : Place), Tracks (statement n place) (InPlace place)
  | 0, place, _, he, ts => (tracks_expressionStatement 0 he ts).imp fun _ hx =>
    IsStatement.inPlace ⟨false, .expression hx⟩ place
  | n + 1, place, eof, he, ts => by
    have hinner := tracks_statement n .inner
    have houter := tracks_statement n .outer
    have hb := blames_closed.statement n .outer
    have hbare : TracksAt (expressionStatement (n + 1)) eof ts (InPlace place) :=
      (tracks_expressionStatement (n + 1) he ts).imp fun _ hx =>
        IsStatement.inPlace ⟨false, .expression hx⟩ place
    refine .current_bind ?_
    cases ts with
    | nil =>
      simp only [List.headD_nil, he]
      exact hbare
    | cons t us =>
      simp only [List.headD_cons]
      split
      · rename_i hk
        exact .skip_bind ((tracks_declareRest n hk he us).imp fun _ hx => .bindingDeclaration hx)
      · rename_i hk
        exact .skip_bind (tracks_functionRest hb houter n hk he us)
      · rename_i hk
        exact .skip_bind ((tracks_branchRest hinner hk he us).imp fun _ hx => hx.inPlace _)
      · rename_i hk
        exact .skip_bind ((tracks_printRest n hk he us).imp fun _ hx => hx.inPlace _)
      · rename_i hk
        exact .skip_bind ((tracks_loopRest hinner hk he us).imp fun _ hx => hx.inPlace _)
      · rename_i hk
        exact .skip_bind ((tracks_countingRest hinner hk he us).imp fun _ hx => hx.inPlace _)
      · rename_i hk
        refine .skip_bind ((tracks_blockRest hb houter n he us).bind fun body _ _ hbody => .pure ?_)
        obtain ⟨x, closing, rfl, hc, hbody⟩ := hbody
        exact IsStatement.inPlace ⟨false, by simpa using Loose.block hk hbody hc⟩ _
      · exact hbare

theorem tracks_program (n : Nat) : Tracks (program n) (Loose .declarations) :=
  tracks_declarations (blames_closed.statement n .outer) (tracks_statement n .outer) none n

end Parser

end Sprog
