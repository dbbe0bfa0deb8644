import Sprog.Proofs.Boundary
import Sprog.Proofs.Renaming

/-!
# Faults inside a block

Going on after a fault passes over closing braces like over any other token. So a fault inside a
block can take the end of the block with it, and then more: the block ends too late or not at all,
or, where an opening brace was passed over, too early. A block keeps its faults to itself, whatever
stands behind it, exactly if the parser closes it at its own last brace.

* `Contained`: the faults of a block do not reach what stands behind it.
* `IsOneBlock`: the parser reads the tokens as a block, up to the last one.
* `contained_iff`: these are the same.
* `bareBlock_not_contained`: a block that loses what stands behind it.
-/
namespace Sprog

/-! ## Blocks and what stands behind them -/

/-- The number of tokens of a kind. -/
def countKind (kind : Kind) (ts : List Token) : Nat := ts.countP (·.kind == kind)

/-- The tokens start with an opening brace, and the last of them is the brace that closes it: up to
there more braces are opened than closed, and in the end as many. -/
structure Braced (ts : List Token) : Prop where
  first : headKind ts = some .leftBrace
  enclosed : ∀ i < ts.length, 0 < i →
    countKind .rightBrace (ts.take i) < countKind .leftBrace (ts.take i)
  balanced : countKind .rightBrace ts = countKind .leftBrace ts

/-- Parsing a block and what stands behind it gives at most one statement for the block and then
those of the rest, and faults that blame tokens of the block and then those of the rest. -/
def Contained (ts rest : List Token) : Prop :=
  ∃ (first : Option Stmt) (errors : List Diagnostic),
    (∀ d ∈ errors, ∃ t ∈ ts, d.token? = some t) ∧
    parse (ts ++ rest) =
      ⟨first.toList ++ (parse rest).statements, errors ++ (parse rest).errors⟩

/-- The parser reads the tokens as a block that the last of them closes. Faults may be reported. -/
def IsOneBlock (ts : List Token) : Prop :=
  ∃ body reports,
    Parser.statement ts.length .outer (endMark ts) ts = ⟨.ok (.block body), [], reports⟩

theorem countKind_append (kind : Kind) (ts us : List Token) :
    countKind kind (ts ++ us) = countKind kind ts + countKind kind us :=
  List.countP_append

/-- The last token is the closing brace. -/
theorem Braced.last {ts : List Token} (h : Braced ts) :
    ∀ t ∈ ts.getLast?, t.kind = .rightBrace := by
  intro t ht
  obtain ⟨before, rfl⟩ := List.getLast?_eq_some_iff.1 ht
  have hbalanced := h.balanced
  rw [countKind_append, countKind_append] at hbalanced
  refine Decidable.byContradiction fun hk => ?_
  have hnone : countKind .rightBrace [t] = 0 := by simp [countKind, hk]
  cases before with
  | nil =>
    have hfirst : t.kind = .leftBrace := by simpa using h.first
    have hone : countKind .leftBrace [t] = 1 := by simp [countKind, hfirst]
    have hempty (kind : Kind) : countKind kind [] = 0 := rfl
    rw [hempty, hempty] at hbalanced
    omega
  | cons u before =>
    have henclosed := h.enclosed (u :: before).length (by simp) (by simp)
    rw [List.take_left] at henclosed
    omega

namespace Parser

/-! ## The block is closed -/

section
variable {item : Parser Stmt} {n : Nat} {eof : Token}

/-- A block that is not closed is read to the end. -/
theorem blockRest_error (hs : Shrinks item) (hc : Consumes item) (he : eof.kind = .eof)
    {ts mid : List Token} (hn : ts.length ≤ n) {e : Diagnostic} {reports : List Diagnostic}
    (h : blockRest n item eof ts = ⟨.error e, mid, reports⟩) : mid = [] := by
  obtain ⟨ss, rest, reports', hd⟩ := exists_declarations (some .rightBrace) item eof n ts
  have hended : Ended (some .rightBrace)
      (declarations (some .rightBrace) item n eof ts).rest := declarations_rest hs hc he n ts hn
  rw [hd] at hended
  unfold blockRest at h
  rw [bind_ok hd] at h
  cases rest with
  | nil =>
    cases h
    rfl
  | cons t rest =>
    have hbrace : t.kind = .rightBrace := by simpa [Ended] using hended
    have hreads : expect .rightBrace .braceAfterBlock eof (t :: rest) = ⟨.ok t, rest, []⟩ :=
      reads_expect.2 ⟨rfl, hbrace⟩
    rw [bind_ok hreads] at h
    cases h

theorem statement_leftBrace {t : Token} (ht : t.kind = .leftBrace) (n : Nat) (eof : Token)
    (ts : List Token) : statement (n + 1) .outer eof (t :: ts) =
      (blockRest n (statement n .outer) >>= fun body => pure (.block body)) eof ts := by
  have hcurrent : current eof (t :: ts) = ⟨.ok t, t :: ts, []⟩ := rfl
  have hskip : skip eof (t :: ts) = ⟨.ok (), ts, []⟩ := rfl
  rw [statement, bind_ok hcurrent]
  simp only [ht]
  rw [bind_ok hskip]
  rfl

/-- A statement that starts with a brace is a block, or it is read to the end. -/
theorem exists_block {ts mid : List Token} (hts : headKind ts = some .leftBrace)
    (he : eof.kind = .eof) (hn : ts.length ≤ n) {r : Except Diagnostic Stmt}
    {reports : List Diagnostic} (h : statement n .outer eof ts = ⟨r, mid, reports⟩) :
    (∃ body, r = .ok (.block body)) ∨ ∃ e, r = .error e ∧ mid = [] := by
  obtain ⟨t, us, rfl⟩ : ∃ t us, ts = t :: us := by
    cases ts with
    | nil => cases hts
    | cons t us => exact ⟨t, us, rfl⟩
  cases n with
  | zero => cases hn
  | succ n =>
    rw [statement_leftBrace (Option.some.inj hts)] at h
    rcases hb : blockRest n (statement n .outer) eof us with ⟨e | body, rest, reports'⟩
    · have hnil := blockRest_error (shrinks_closed.statement n .outer)
        (consumes_statement n .outer) he (Nat.le_of_succ_le_succ hn) hb
      rw [bind_error hb] at h
      cases h
      exact .inr ⟨e, rfl, hnil⟩
    · rw [bind_ok hb] at h
      cases h
      exact .inl ⟨body, rfl⟩

end

/-! ## What follows is passed over -/

/-- Two tokens that are a statement, but none that parsing goes on with after a fault. -/
def spare : List Token := [⟨.identifier, "x", none, 1⟩, ⟨.semicolon, ";", none, 1⟩]

theorem not_ended {ts : List Token} (h : ts ≠ []) : ¬ Ended none ts := by
  cases ts with
  | nil => exact absurd rfl h
  | cons t ts => simp [Ended]

/-- Going on after a fault that takes all tokens goes on behind them. -/
theorem resume_through {last : Token} {ts : List Token} (h : resume last ts = [])
    (us : List Token) :
    resume last (ts ++ us) = resume (ts.getLast?.getD last) us := by
  induction ts generalizing last with
  | nil => rfl
  | cons t ts ih =>
    unfold resume at h
    split at h
    · cases h
    · rename_i hgo
      rw [List.cons_append, resume, if_neg hgo, ih h, List.getLast?_cons]
      rfl

theorem afterFault_spare {ts : List Token} (hne : ts ≠ []) (h : afterFault ts = [])
    (hlast : ∀ t ∈ ts.getLast?, t.kind = .rightBrace) : afterFault (ts ++ spare) = [] := by
  cases ts with
  | nil => exact absurd rfl hne
  | cons t ts =>
    have hbrace : (ts.getLast?.getD t).kind = .rightBrace :=
      hlast _ (by rw [List.getLast?_cons]; rfl)
    show resume t (ts ++ spare) = []
    rw [resume_through h]
    simp [spare, resume, hbrace, startsStatement]

section
variable {item : Parser Stmt} (hframed : Framed item) (hblames : Blames item) {eof eof' : Token}
  (he : eof.kind = .eof)

include hframed hblames he

/-- Behind tokens that give no declaration and end with a closing brace, the statement is passed
over together with them. -/
theorem declarations_spare : ∀ (m k : Nat) {ts : List Token} {reports : List Diagnostic},
    declarations none item m eof ts = ⟨.ok [], [], reports⟩ → ts ≠ [] →
    (∀ d ∈ reports, ∀ t ∈ d.token?, t.kind ≠ .eof) →
    (∀ t ∈ ts.getLast?, t.kind = .rightBrace) → m ≤ k →
    ∃ reports', declarations none item k eof' (ts ++ spare) = ⟨.ok [], [], reports'⟩
  | 0, _, _, _, h, hne, _, _, _ => by
    cases h
    exact absurd rfl hne
  | m + 1, k + 1, ts, reports, h, hne, hblame, hlast, hk => by
    rcases hstep : item eof ts with ⟨e | s, stop, reports₁⟩
    · obtain ⟨ss, rest, reports₂, hd⟩ := exists_declarations none item eof m (afterFault stop)
      rw [declarations_next (not_ended hne) (recover_error hstep) hd] at h
      cases h
      have hstop : stop ≠ [] := hblames.rest_ne_nil he hstep (hblame e (by simp))
      have hsuffix : stop <:+ ts := by
        have hs := hframed.shrinks eof ts
        rwa [hstep] at hs
      have hround := recover_error (hframed.append hstep hstop eof' spare)
      have hwhole : ¬ Ended none (ts ++ spare) :=
        not_ended (List.append_ne_nil_of_left_ne_nil hne _)
      by_cases hall : afterFault stop = []
      · rw [afterFault_spare hstop hall (getLast?_of_suffix hlast hsuffix)] at hround
        exact ⟨_, declarations_next hwhole hround (declarations_stop (.inl rfl) k)⟩
      · rw [afterFault_append hstop (.inl hall)] at hround
        obtain ⟨reports', hothers⟩ := declarations_spare m k hd hall
          (fun d hd => hblame d (List.mem_append_right _ hd))
          (getLast?_of_suffix hlast ((afterFault_suffix stop).trans hsuffix))
          (Nat.le_of_succ_le_succ hk)
        exact ⟨_, declarations_next hwhole hround hothers⟩
    · -- a declaration that is read is one of the row
      obtain ⟨ss, rest, reports₂, hd⟩ := exists_declarations none item eof m stop
      rw [declarations_next (not_ended hne) (recover_ok hstep) hd] at h
      cases h

end

end Parser

/-! ## Containment -/

/-- Statements with any bounds that hold. -/
theorem statement_of_length {ts : List Token} {n m : Nat} (hn : ts.length ≤ n) (hm : ts.length ≤ m)
    {step : Step Stmt} (h : Parser.statement m .outer (endMark ts) ts = step) :
    Parser.statement n .outer (endMark ts) ts = step := by
  rw [← h]
  exact Parser.agree_of_succ (fun k => Parser.agree_statement_succ k .outer) hn hm _ _
    (endMark_kind ts) (Nat.le_refl _)

/-- A statement that takes all tokens, with more behind it. -/
theorem parse_statement_append {ts us : List Token} {s : Stmt} {reports : List Diagnostic}
    (hts : ∀ t ∈ ts, t.kind ≠ .eof)
    (h : Parser.statement ts.length .outer (endMark ts) ts = ⟨.ok s, [], reports⟩)
    (hus : headKind us ≠ some .elseKw) :
    parse (ts ++ us) = ⟨s :: (parse us).statements, reports ++ (parse us).errors⟩ := by
  have hne : ts ≠ [] := (Parser.sealed_statement _ _).ne_nil h
  have hpos := List.length_pos_iff.2 hne
  have hlen : (beforeEnd (ts ++ us)).length = ts.length + (beforeEnd us).length := by
    rw [beforeEnd_append hts, List.length_append]
  obtain ⟨k, hk⟩ : ∃ k, (beforeEnd (ts ++ us)).length = k + 1 :=
    Nat.exists_eq_add_one.2 (by omega)
  have hitem : Parser.statement (k + 1) .outer (endMark ts) ts = ⟨.ok s, [], reports⟩ :=
    statement_of_length (by omega) (Nat.le_refl _) h
  have hround := Parser.recover_ok ((Parser.sealed_statement (k + 1) .outer).closes hitem
    (endMark (ts ++ us)) (beforeEnd us) (headKind_beforeEnd hus))
  have hrest : Parser.declarations none (Parser.statement (k + 1) .outer) k (endMark (ts ++ us))
      (beforeEnd us) = ⟨.ok (parse us).statements, [], (parse us).errors⟩ := by
    by_cases hnil : us = []
    · subst hnil
      exact Parser.declarations_stop (.inl rfl) k
    · rw [endMark_append hts hnil]
      exact declarations_of_parse rfl (by omega) (by omega)
  rw [parse_eq_iff_program (Nat.le_of_eq hk), beforeEnd_append hts]
  have hmore : ts ++ beforeEnd us ≠ [] := List.append_ne_nil_of_left_ne_nil hne _
  exact Parser.declarations_next (Parser.not_ended hmore) hround hrest

theorem IsOneBlock.contained {ts : List Token} (hts : ∀ t ∈ ts, t.kind ≠ .eof) (h : IsOneBlock ts)
    {rest : List Token} (hrest : headKind rest ≠ some .elseKw) : Contained ts rest := by
  obtain ⟨body, reports, hread⟩ := h
  refine ⟨some (.block body), reports, fun d hd => ?_, parse_statement_append hts hread hrest⟩
  -- the same is reported whatever marks the end, and so no mark is blamed
  have hmark (line : Nat) : ∃ t ∈ ts ++ [.eof line], d.token? = some t := by
    refine exists_token_of_parse ⟨.eof line, by simp, rfl⟩ ?_
    rw [parse_statement_append hts hread (by simp [Token.eof])]
    exact List.mem_append_left _ hd
  obtain ⟨t, ht, htoken⟩ := hmark 0
  obtain ⟨t', ht', htoken'⟩ := hmark 1
  cases htoken.symm.trans htoken'
  rcases List.mem_append.1 ht with ht | ht
  · exact ⟨t, ht, htoken⟩
  · rcases List.mem_append.1 ht' with ht' | ht'
    · exact ⟨t, ht', htoken⟩
    · cases (List.mem_singleton.1 ht).symm.trans (List.mem_singleton.1 ht')

theorem declarations_row {ts : List Token} (hts : ∀ t ∈ ts, t.kind ≠ .eof) {ss : List Stmt}
    {errors : List Diagnostic} (h : parse ts = ⟨ss, errors⟩) :
    Parser.declarations none (Parser.statement (ts.length + 2) .outer) (ts.length + 2) (endMark ts)
      ts = ⟨.ok ss, [], errors⟩ := by
  have hself := beforeEnd_eq_self hts
  have hlen : (beforeEnd ts).length ≤ ts.length + 2 := by
    rw [hself]
    omega
  have hrow := declarations_of_parse h hlen hlen
  rwa [hself] at hrow

/-- If the first statement leaves tokens that give none, a statement behind them is lost. -/
theorem parse_append_spare {ts : List Token} (hts : ∀ t ∈ ts, t.kind ≠ .eof)
    (hlast : ∀ t ∈ ts.getLast?, t.kind = .rightBrace) {first : Option Stmt}
    {errors : List Diagnostic} (halone : parse ts = ⟨first.toList, errors⟩)
    (hkinds : ∀ d ∈ errors, ∀ t ∈ d.token?, t.kind ≠ .eof) {s : Stmt} {mid : List Token}
    {reports : List Diagnostic}
    (hstep : Parser.statement (ts.length + 2) .outer (endMark ts) ts = ⟨.ok s, mid, reports⟩)
    (hmid : mid ≠ []) : ∃ reports', parse (ts ++ Parser.spare) = ⟨[s], reports'⟩ := by
  have hframed := Parser.framed_closed.statement (ts.length + 2) .outer
  have hblames := Parser.blames_closed.statement (ts.length + 2) .outer
  have hsuffix : mid <:+ ts := by
    have hs := hframed.shrinks (endMark ts) ts
    rwa [hstep] at hs
  have hne : ts ≠ [] := by
    rintro rfl
    exact hmid (List.suffix_nil.1 hsuffix)
  have hrow := declarations_row hts halone
  obtain ⟨ss, rest, reports₂, hd⟩ := Parser.exists_declarations none
    (Parser.statement (ts.length + 2) .outer) (endMark ts) (ts.length + 1) mid
  rw [Parser.declarations_next (Parser.not_ended hne) (Parser.recover_ok hstep) hd] at hrow
  obtain ⟨hstatements, rfl, rfl⟩ := Step.mk.inj hrow
  obtain rfl : ss = [] := by
    cases first with
    | none => cases hstatements
    | some s' => cases hstatements; rfl
  obtain ⟨reports', hspare⟩ := Parser.declarations_spare hframed hblames (endMark_kind ts)
    (ts.length + 1) (ts.length + 1) hd hmid (fun d hd => hkinds d (List.mem_append_right _ hd))
    (Parser.getLast?_of_suffix hlast hsuffix) (Nat.le_refl _)
  have hround :=
    Parser.recover_ok (hframed.append hstep hmid (endMark (ts ++ Parser.spare)) Parser.spare)
  have hall : ∀ t ∈ ts ++ Parser.spare, t.kind ≠ .eof :=
    List.forall_mem_append.2 ⟨hts, by decide⟩
  refine ⟨reports ++ reports', (parse_eq_iff_program (n := ts.length + 2) ?_).2 ?_⟩
  · rw [beforeEnd_eq_self hall, List.length_append]
    exact Nat.le_refl _
  · rw [beforeEnd_eq_self hall]
    exact Parser.declarations_next
      (Parser.not_ended (List.append_ne_nil_of_left_ne_nil hne _)) hround hspare

theorem isOneBlock_of_contained {ts : List Token} (hts : ∀ t ∈ ts, t.kind ≠ .eof)
    (hbraced : Braced ts) (h : ∀ rest, headKind rest ≠ some .elseKw → Contained ts rest) :
    IsOneBlock ts := by
  have he := endMark_kind ts
  have hblames := Parser.blames_closed.statement (ts.length + 2) .outer
  -- by itself the block gives at most one statement, and the end is not blamed
  obtain ⟨first, errors, hblame, halone⟩ := h [] (by simp)
  have hempty : parse [] = ⟨[], []⟩ := rfl
  rw [hempty, List.append_nil, List.append_nil, List.append_nil] at halone
  have hkinds : ∀ d ∈ errors, ∀ t ∈ d.token?, t.kind ≠ .eof := by
    intro d hd t ht
    obtain ⟨t', ht', htoken⟩ := hblame d hd
    cases ht.symm.trans htoken
    exact hts t ht'
  have hrow := declarations_row hts halone
  have hne : ts ≠ [] := by
    rintro rfl
    cases hbraced.first
  rcases hstep : Parser.statement (ts.length + 2) .outer (endMark ts) ts with ⟨r, mid, reports⟩
  rcases Parser.exists_block hbraced.first he (Nat.le_add_right _ 2) hstep with
    ⟨body, rfl⟩ | ⟨e, rfl, rfl⟩
  · by_cases hmid : mid = []
    · subst hmid
      exact ⟨body, reports, statement_of_length (Nat.le_refl _) (Nat.le_add_right _ 2) hstep⟩
    · -- the block is closed too early, and a statement behind it is lost
      exfalso
      obtain ⟨reports', hlost⟩ := parse_append_spare hts hbraced.last halone hkinds hstep hmid
      obtain ⟨first', errors', -, hspare⟩ := h Parser.spare (by decide)
      rw [hlost] at hspare
      have hstatements := (ParseResult.mk.inj hspare).1
      cases first' with
      | none => cases hstatements
      | some s => cases hstatements
  · -- the block is not closed, and the end is blamed for it
    obtain ⟨ss, rest, reports₂, hd⟩ :=
      Parser.exists_declarations none _ (endMark ts) (ts.length + 1)
      (Parser.afterFault [])
    rw [Parser.declarations_next (Parser.not_ended hne) (Parser.recover_error hstep) hd] at hrow
    cases hrow
    exact absurd rfl (hblames.rest_ne_nil he hstep (hkinds e (by simp)))

/-- A block keeps its faults to itself, whatever stands behind it, exactly if the parser closes it
at its last brace. -/
theorem contained_iff {ts : List Token} (hts : ∀ t ∈ ts, t.kind ≠ .eof) (hbraced : Braced ts) :
    (∀ rest, headKind rest ≠ some .elseKw → Contained ts rest) ↔ IsOneBlock ts :=
  ⟨isOneBlock_of_contained hts hbraced, fun h _ hrest => h.contained hts hrest⟩

/-- The words of a block with a block inside it and a fault in each: `skriv ;` and `sæt + ;`. -/
def faultyBlock : List Token :=
  [⟨.leftBrace, "\x7b", none, 1⟩, ⟨.printKw, "skriv", none, 1⟩, ⟨.semicolon, ";", none, 1⟩,
    ⟨.leftBrace, "\x7b", none, 2⟩, ⟨.varKw, "sæt", none, 2⟩, ⟨.plus, "+", none, 2⟩,
    ⟨.semicolon, ";", none, 2⟩, ⟨.rightBrace, "\x7d", none, 2⟩, ⟨.rightBrace, "\x7d", none, 3⟩]

theorem faultyBlock_contained :
    Braced faultyBlock ∧ (parse faultyBlock).errors.length = 2 ∧
      ∀ rest, headKind rest ≠ some .elseKw → Contained faultyBlock rest := by
  have hbraced : Braced faultyBlock := ⟨rfl, by decide, by decide⟩
  exact ⟨hbraced, by decide, (contained_iff (by decide) hbraced).2 ⟨_, _, rfl⟩⟩

/-- The words of a block whose statement lacks its semicolon. -/
def bareBlock : List Token :=
  [⟨.leftBrace, "\x7b", none, 1⟩, ⟨.identifier, "a", none, 1⟩, ⟨.rightBrace, "\x7d", none, 1⟩]

/-- The words of `skriv b;`. -/
def printsB : List Token :=
  [⟨.printKw, "skriv", none, 2⟩, ⟨.identifier, "b", none, 2⟩, ⟨.semicolon, ";", none, 2⟩]

/-- The brace is passed over with the fault, what follows is read into the block, and in the end
there is no block and no statement at all. -/
theorem bareBlock_not_contained :
    (∀ t ∈ bareBlock, t.kind ≠ .eof) ∧ Braced bareBlock ∧ headKind printsB ≠ some .elseKw ∧
      ¬ Contained bareBlock printsB := by
  refine ⟨by decide, ⟨rfl, by decide, by decide⟩, by decide, ?_⟩
  rintro ⟨first, errors, -, hparse⟩
  have hnone : (parse (bareBlock ++ printsB)).statements.length = 0 := by decide
  have hone : (parse printsB).statements.length = 1 := by decide
  rw [hparse, List.length_append, hone] at hnone
  cases hnone

end Sprog
