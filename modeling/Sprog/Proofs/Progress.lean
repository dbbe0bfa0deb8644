import Sprog.Proofs.Cursor

/-!
# The parser makes progress

Every parser of the language is followed by the one on an index. A row of declarations is where the
two could part: its rounds do not go down in any tree, and a round may fail at the very token where
it began. But a round never begins at the mark, and going on after a fault takes a token unless it
is at the mark, so every round leaves fewer tokens and needs less of an allowance.

* `Indexed.Follows.expression`, `Indexed.Follows.statement`: the parsers.
* `Indexed.Follows.runsRow`, `Indexed.runsRow_program`: rows of declarations.
* `marked_completed`: parsing a token list is parsing up to the first mark of the completed list.
* `parse_advances`: whole token lists.
-/
namespace Sprog

namespace Indexed

variable {α : Type}

/-! ## Expressions -/

namespace Follows

theorem commaSeparated {item : Indexed α} {item' : Parser α} :
    ∀ n, Follows n item item' → Follows n (commaSeparated item n) (Parser.commaSeparated item' n)
  | 0, _ => .zero
  | n + 1, h => by
    refine h.bind fun first => .accept (.pure _ _) fun _ => ?_
    exact (commaSeparated n (h.mono (by omega))).bind fun _ => .pure _ _

section
variable {expr : Indexed Expr} {expr' : Parser Expr}

theorem primary {n : Nat} (h : Follows n expr expr') :
    Follows (n + 1) (primary expr) (Parser.primary expr') := by
  refine follows_of_at fun t => .current (.look ?_)
  cases hk : t.kind
  case falseKw | trueKw | nilKw | number | string | identifier =>
    exact .advance (by simp [hk]) (.pure _ _)
  case leftParen =>
    exact .advance (by simp [hk]) (h.bind fun _ => (expect _ _).bind fun _ => .pure _ _)
  -- nothing else begins an expression
  all_goals exact (fail _).atToken t

theorem arguments {n : Nat} (h : Follows n expr expr') :
    Follows n (arguments expr n) (Parser.arguments expr' n) := by
  refine (sees _).bind fun b => ?_
  split
  · exact .pure _ _
  · exact commaSeparated n h

theorem calls {k : Nat} (h : Follows k expr expr') : ∀ n, n ≤ k + 1 → ∀ callee,
    Follows n (calls expr n callee) (Parser.calls expr' n callee)
  | 0, _, _ => .zero
  | n + 1, hn, callee => by
    refine .accept (.pure _ _) fun _ => ?_
    exact (arguments (h.mono (by omega))).bind fun args => (expect _ _).bind fun closing =>
      calls h n (by omega) _

theorem call {n : Nat} (h : Follows n expr expr') :
    Follows (n + 1) (call expr (n + 1)) (Parser.call expr' (n + 1)) :=
  (primary h).bind fun _ => calls h (n + 1) (Nat.le_refl _) _

end

section
variable {operand : Indexed Expr} {operand' : Parser Expr}

theorem unary : ∀ n, Follows n operand operand' →
    Follows n (unary operand n) (Parser.unary operand' n)
  | 0, _ => .zero
  | n + 1, h => .acceptFrom rfl h fun _ =>
    (unary n (h.mono (by omega))).bind fun _ => .pure _ _

theorem operations {level : Level} (hlevel : level .eof = none) {k : Nat}
    (h : Follows k operand operand') : ∀ n, n ≤ k → ∀ left,
      Follows n (operations level operand n left) (Parser.operations level operand' n left)
  | 0, _, _ => .zero
  | n + 1, hn, left => .acceptFrom hlevel (.pure _ _) fun _ =>
    (h.mono (by omega)).bind fun _ => operations hlevel h n (by omega) _

theorem joined {level : Level} (hlevel : level .eof = none) {n : Nat}
    (h : Follows n operand operand') :
    Follows n (joined n operand level) (Parser.joined n operand' level) :=
  h.bind fun _ => operations hlevel h n (Nat.le_refl n) _

end

theorem operation {expr : Indexed Expr} {expr' : Parser Expr} {n : Nat} (h : Follows n expr expr') :
    Follows (n + 1) (operation expr (n + 1)) (Parser.operation expr' (n + 1)) := by
  have step : ∀ (levels : List Level) (p : Indexed Expr) (q : Parser Expr),
      (∀ level ∈ levels, level .eof = none) → Follows (n + 1) p q →
        Follows (n + 1) (levels.foldl (Indexed.joined (n + 1)) p)
          (levels.foldl (Parser.joined (n + 1)) q) := by
    intro levels
    induction levels with
    | nil => exact fun _ _ _ hp => hp
    | cons level levels ih =>
      intro p q hlevels hp
      have ⟨hlevel, hrest⟩ := List.forall_mem_cons.1 hlevels
      exact ih _ _ hrest (joined hlevel hp)
  -- no level has the mark among its operators
  refine step _ _ _ ?_ (unary (n + 1) (call h))
  simp [Level.all, Level.product, Level.sum, Level.comparison, Level.equality, Level.conjunction,
    Level.disjunction]

theorem assignment {expr : Indexed Expr} {expr' : Parser Expr} {n : Nat}
    (h : Follows n expr expr') :
    Follows (n + 1) (assignment expr (n + 1)) (Parser.assignment expr' (n + 1)) := by
  refine (operation h).bind fun target => .accept (.pure _ _) fun equals => h.bind fun value => ?_
  cases target with
  | var => exact .pure _ _
  | _ => exact (report _).bind fun _ => .pure _ _

theorem expression : ∀ n, Follows n (expression n) (Parser.expression n)
  | 0 => .zero
  | n + 1 => assignment (expression n)

/-! ## Statements -/

theorem expressionStatement (n : Nat) :
    Follows n (expressionStatement n) (Parser.expressionStatement n) :=
  (expression n).bind fun _ => (expect _ _).bind fun _ => .pure _ _

theorem printRest (n : Nat) (keyword : Token) :
    Follows n (printRest n keyword) (Parser.printRest n keyword) :=
  (expression n).bind fun _ => (expect _ _).bind fun _ => .pure _ _

theorem declareRest (n : Nat) : Follows n (declareRest n) (Parser.declareRest n) := by
  refine (expect _ _).bind fun name => .accept ?_ fun _ => ?_
  · exact (pure _ _).bind fun _ => (expect _ _).bind fun _ => .pure _ _
  · exact (((expression n).mono (by omega)).map _).bind fun _ => (expect _ _).bind fun _ =>
      .pure _ _

theorem countingInitial (n : Nat) : Follows n (countingInitial n) (Parser.countingInitial n) :=
  .accept
    (.accept ((expressionStatement n).map _) fun _ => ((declareRest n).mono (by omega)).map _)
    fun _ => .pure _ _

theorem optionalBefore (kind : Kind) (n : Nat) :
    Follows n (optionalBefore kind n) (Parser.optionalBefore kind n) := by
  refine (sees kind).bind fun b => ?_
  split
  · exact .pure _ _
  · exact (expression n).map _

theorem parameters (n : Nat) : Follows n (parameters n) (Parser.parameters n) := by
  refine (sees _).bind fun b => ?_
  split
  · exact .pure _ _
  · exact commaSeparated n (expect _ _)

section
variable {n : Nat} {part : Indexed Stmt} {part' : Parser Stmt} (h : Follows n part part')

include h

theorem branchRest : Follows n (branchRest n part) (Parser.branchRest n part') :=
  (expect _ _).bind fun _ => (expression n).bind fun test => (expect _ _).bind fun _ =>
    h.bind fun yes => .accept (.pure _ _) fun _ => (h.mono (by omega)).bind fun _ => .pure _ _

theorem loopRest : Follows n (loopRest n part) (Parser.loopRest n part') :=
  (expect _ _).bind fun _ => (expression n).bind fun _ => (expect _ _).bind fun _ =>
    h.bind fun _ => .pure _ _

theorem countingRest : Follows n (countingRest n part) (Parser.countingRest n part') :=
  (expect _ _).bind fun _ => (countingInitial n).bind fun _ =>
    (optionalBefore _ n).bind fun _ => (expect _ _).bind fun _ =>
    (optionalBefore _ n).bind fun _ => (expect _ _).bind fun _ =>
    h.bind fun _ => .pure _ _

end

/-! ## Declarations -/

section
variable {k : Nat} {item : Indexed Stmt} {item' : Parser Stmt} (hs : Parser.Shrinks item')
  (hc : Parser.Consumes item') (h : Follows k item item')

include hs hc h

/-- Every round of a row takes the cursor on, so the next round needs less. -/
theorem runsRow (stop : Option Kind) {items ts : List Token} {mark : Token}
    (hm : Marked items ts mark) : ∀ (n : Nat) {i : Nat}, n ≤ k → i ≤ ts.length →
      ts.length < i + n → RunsRow items ts i (declarations stop item n)
        (Parser.declarations stop item' n mark (ts.drop i))
  | 0, i, _, hi, hlt => by omega
  | n + 1, i, hn, hi, hlt => by
    refine .quiet (continues_eq hm hi stop) ?_
    by_cases hend : Parser.Ended stop (ts.drop i)
    · rw [Parser.declarations_stop hend]
      simp only [hend, decide_true, Bool.not_true, Bool.false_eq_true, if_false]
      exact runsRow_pure hi []
    · obtain ⟨first, mid, reports, hr⟩ := Parser.exists_recover item' mark (ts.drop i)
      obtain ⟨ss, rest, reports', hd⟩ := Parser.exists_declarations stop item' mark n mid
      rw [Parser.declarations_next hend hr hd]
      simp only [hend, decide_false, Bool.not_false, if_true]
      have hround := (h.mono hn).recover.runs hm hi hlt
      have hless := Parser.recover_rest_lt hs hc hm.kind fun hnil => hend (.inl hnil)
      rw [hr] at hround hless
      refine .round hround hless fun j hij hj hmid => ?_
      have hrow := runsRow stop hm n (by omega) hj (by omega)
      rw [hmid, hd] at hrow
      exact hrow.map _

theorem declarations (stop : Option Kind) :
    Follows k (declarations stop item k) (Parser.declarations stop item' k) :=
  ⟨fun hm hi hlt => (runsRow hs hc h stop hm k (Nat.le_refl k) hi hlt).runs⟩

theorem blockRest : Follows k (blockRest k item) (Parser.blockRest k item') :=
  (declarations hs hc h _).bind fun _ => (expect _ _).bind fun _ => .pure _ _

theorem functionRest : Follows k (functionRest k item) (Parser.functionRest k item') :=
  (expect _ _).bind fun _ => (expect _ _).bind fun _ => (parameters k).bind fun _ =>
    (expect _ _).bind fun _ => (expect _ _).bind fun _ => (blockRest hs hc h).bind fun _ =>
    .pure _ _

end

/-- A statement at the place that the current token does not make a declaration there. -/
theorem bare {n : Nat} (h : ∀ place, Follows n (statement n place) (Parser.statement n place))
    {t : Token} {place : Place}
    (ht : place = .outer → t.kind ≠ .varKw ∧ t.kind ≠ .functionKw) :
    FollowsAt t (n + 1) (bare n (statement n)) (Parser.statement (n + 1) place) := by
  have hblock := blockRest (Parser.shrinks_closed.statement n .outer)
    (Parser.consumes_statement n .outer) (h .outer)
  refine .current (.look ?_)
  cases hk : t.kind
  case ifKw => exact .advance (by simp [hk]) (branchRest (h .inner))
  case printKw => exact .advance (by simp [hk]) (printRest n t)
  case whileKw => exact .advance (by simp [hk]) (loopRest (h .inner))
  case forKw => exact .advance (by simp [hk]) (countingRest (h .inner))
  case leftBrace => exact .advance (by simp [hk]) (hblock.bind fun _ => .pure _ _)
  case varKw | functionKw =>
    cases place with
    | outer => simp [hk] at ht
    | inner => exact (expressionStatement (n + 1)).atToken t
  all_goals exact (expressionStatement (n + 1)).atToken t

theorem statement : ∀ (n : Nat) (place : Place),
    Follows n (statement n place) (Parser.statement n place)
  | 0, _ => .zero
  | n + 1, .inner => follows_of_at fun t => bare (statement n) nofun
  | n + 1, .outer => by
    refine follows_of_at fun t => ?_
    by_cases hvar : t.kind = .varKw
    · refine .look ?_
      simp only [hvar]
      exact .accept_take (by simp [hvar]) hvar (declareRest n)
    · refine .accept_pass hvar ?_
      by_cases hfunction : t.kind = .functionKw
      · refine .look ?_
        simp only [hfunction]
        exact .accept_take (by simp [hfunction]) hfunction
          (functionRest (Parser.shrinks_closed.statement n .outer)
            (Parser.consumes_statement n .outer) (statement n .outer))
      · exact .accept_pass hfunction (bare (statement n) fun _ => ⟨hvar, hfunction⟩)

end Follows

/-- A program is a row of its own. -/
theorem runsRow_program {items ts : List Token} {mark : Token} (hm : Marked items ts mark) {n : Nat}
    (hn : ts.length < n) : RunsRow items ts 0 (program n) (Parser.program n mark ts) :=
  Follows.runsRow (Parser.shrinks_closed.statement n .outer)
    (Parser.consumes_statement n .outer) (.statement n .outer) none hm n (Nat.le_refl n)
    (Nat.zero_le _) (by omega)

end Indexed

/-! ## Whole token lists -/

/-- The position of the first mark of the end in the completed list. -/
def firstMark (tokens : List Token) : Nat :=
  (completed tokens).findIdx (·.kind == .eof)

theorem Marked.findIdx {items ts : List Token} {mark : Token} (h : Marked items ts mark) :
    items.findIdx (·.kind == .eof) = ts.length := by
  obtain ⟨behind, rfl⟩ := h.split
  have hts : ts.findIdx (·.kind == .eof) = ts.length :=
    List.findIdx_eq_length.2 fun t ht => by simpa using h.before t ht
  rw [List.findIdx_append, hts, if_neg (Nat.lt_irrefl _), List.findIdx_cons, h.kind]
  simp

/-- The completed list has the tokens that are parsed in front, then the mark at which parsing
ends. -/
theorem marked_completed (tokens : List Token) :
    Marked (completed tokens) (beforeEnd tokens) (endMark tokens) := by
  cases hfind : tokens.find? (·.kind == .eof) with
  | some mark =>
    obtain ⟨hmark, ts, behind, rfl, hts⟩ := List.find?_eq_some_iff_append.1 hfind
    have hkind : mark.kind = .eof := by simpa using hmark
    have hbefore : ∀ t ∈ ts, t.kind ≠ .eof := by simpa using hts
    have hself : beforeEnd (ts ++ mark :: behind) = ts := by
      rw [beforeEnd_append hbefore]
      simp [beforeEnd, hkind]
    have hend : endMark (ts ++ mark :: behind) = mark := by rw [endMark, hfind, Option.getD_some]
    rw [hself, hend]
    refine ⟨hkind, hbefore, ?_⟩
    unfold completed
    split
    · exact ⟨behind, rfl⟩
    · exact ⟨_, by rw [List.append_assoc, List.cons_append]⟩
  | none =>
    have hbefore : ∀ t ∈ tokens, t.kind ≠ .eof := by simpa using List.find?_eq_none.1 hfind
    have hlast : tokens.getLast?.map Token.kind ≠ some .eof := by
      intro h
      obtain ⟨t, ht, hk⟩ := Option.map_eq_some_iff.1 h
      exact hbefore t (List.mem_of_getLast? ht) hk
    rw [beforeEnd_eq_self hbefore]
    refine ⟨endMark_kind tokens, hbefore, [], ?_⟩
    rw [completed, if_neg hlast, endMark, hfind, Option.getD_none]

/-- Nothing behind a mark is looked at. -/
theorem parse_mark_append {e : Token} (he : e.kind = .eof) (ts junk : List Token) :
    parse (ts ++ [e] ++ junk) = parse (ts ++ [e]) := by
  have hbefore : beforeEnd (ts ++ [e] ++ junk) = beforeEnd (ts ++ [e]) := by
    simp [beforeEnd, List.takeWhile_append, he]
  have hmark : endMark (ts ++ [e] ++ junk) = endMark (ts ++ [e]) := by
    simp [endMark, List.find?_append, he]
  simp only [parse, hbefore, hmark]

/-- Parsing always goes on and stops at the first mark. With any allowance larger than the number of
tokens the parser on an index comes to its end, so it never looks at an index at which there is no
token, and its answer is that of `parse`. It ends with the cursor on the first mark of the completed
list. On the way no step leads back or beyond that mark. Every declaration of a row, at the top or
in a block, takes the cursor on, and every token before the mark belongs to one. Wherever tokens are
left a declaration leaves fewer, also one that fails and is left behind. What stands behind a mark
makes no difference. -/
theorem parse_advances (tokens : List Token) :
    (∀ n, tokens.length < n → ∃ s, Indexed.parse n tokens = .ok s ∧
      s.result = .ok (parse tokens).statements ∧ s.reports = (parse tokens).errors ∧
      s.position = firstMark tokens ∧
      Ascent 0 s.path s.position ∧ (∀ i ∈ s.path, i ≤ firstMark tokens) ∧
      (∀ i j, (i, j) ∈ s.spans → i < j ∧ j ≤ firstMark tokens) ∧
      ∀ k < firstMark tokens, ∃ i j, (i, j) ∈ s.spans ∧ i ≤ k ∧ k < j) ∧
    firstMark tokens < (completed tokens).length ∧
    (∀ n mark ts, mark.kind = .eof → ts ≠ [] →
      (Parser.recover (Parser.statement n .outer) mark ts).rest.length < ts.length) ∧
    ∀ e : Token, e.kind = .eof → ∀ junk, parse (tokens ++ [e] ++ junk) = parse (tokens ++ [e]) := by
  have hm := marked_completed tokens
  have hfirst : firstMark tokens = (beforeEnd tokens).length := hm.findIdx
  refine ⟨fun n hn => ?_, ?_, fun n mark ts hmark hts => ?_, fun e he junk => ?_⟩
  · have hlen : (beforeEnd tokens).length ≤ tokens.length := (List.takeWhile_prefix _).length_le
    have hparse : parse tokens = ⟨(parse tokens).statements, (parse tokens).errors⟩ := rfl
    have hrow := Indexed.runsRow_program hm (n := n) (by omega)
    rw [(parse_eq_iff_program (n := n) (by omega)).1 hparse] at hrow
    obtain ⟨j, path, spans, hrun, hrest, hrecord, hcovers⟩ := hrow
    -- nothing is left, so the cursor stands at the mark
    have hj : j = firstMark tokens := by
      have hle := List.drop_eq_nil_iff.1 hrest
      have hin := hrecord.inside
      omega
    subst hj
    refine ⟨_, hrun, rfl, rfl, rfl, hrecord.path, hrecord.path.le_of_mem,
      fun i j hij => hrecord.spans (i, j) hij, fun k hk => ?_⟩
    obtain ⟨⟨i, j⟩, hspan, hik, hkj⟩ := hcovers k (Nat.zero_le k) hk
    exact ⟨i, j, hspan, hik, hkj⟩
  · obtain ⟨behind, hsplit⟩ := hm.split
    rw [hfirst, hsplit, List.length_append, List.length_cons]
    omega
  · exact Parser.recover_rest_lt (Parser.shrinks_closed.statement n .outer)
      (Parser.consumes_statement n .outer) hmark hts
  · exact parse_mark_append he tokens junk

/-- A print statement whose number has the literal of a text, a block with a word that starts
nothing, the end, and a name behind it. -/
def brokenBlock : List Token :=
  [⟨.printKw, "skriv", none, 1⟩, ⟨.number, "1", some (.text "en"), 1⟩, ⟨.semicolon, ";", none, 1⟩,
    ⟨.leftBrace, "\x7b", none, 2⟩, ⟨.classKw, "klass", none, 2⟩, ⟨.rightBrace, "\x7d", none, 2⟩,
    .eof 2, ⟨.identifier, "a", none, 3⟩]

/-- The declaration in the block fails at its first token and is left behind with the closing brace,
so the block fails at the end, where the last step stays. -/
theorem brokenBlock_advances :
    brokenBlock.length < 9 ∧ firstMark brokenBlock = 6 ∧
    (∃ s, Indexed.parse 9 brokenBlock = .ok s ∧
      s.path = [1, 2, 3, 4, 5, 6, 6] ∧ s.spans = [(0, 3), (4, 6), (3, 6)] ∧
      s.result = .ok (parse brokenBlock).statements ∧ s.reports = (parse brokenBlock).errors ∧
      s.position = 6 ∧ Ascent 0 s.path s.position ∧ (∀ i ∈ s.path, i ≤ 6) ∧
      (∀ i j, (i, j) ∈ s.spans → i < j ∧ j ≤ 6) ∧
      ∀ k < 6, ∃ i j, (i, j) ∈ s.spans ∧ i ≤ k ∧ k < j) ∧
    (Token.eof 4).kind = .eof ∧ brokenBlock ≠ [] ∧
    (Parser.recover (Parser.statement 8 .outer) (.eof 4) brokenBlock).rest.length < 8 ∧
    parse (brokenBlock ++ [.eof 4] ++ brokenBlock) = parse (brokenBlock ++ [.eof 4]) := by
  obtain ⟨hruns, -, hless, hjunk⟩ := parse_advances brokenBlock
  have hlt : brokenBlock.length < 9 := by decide
  have hne : brokenBlock ≠ [] := nofun
  have hfirst : firstMark brokenBlock = 6 := by decide
  rw [hfirst] at hruns
  obtain ⟨s, hrun, hrest⟩ := hruns 9 hlt
  have hrecord : (Indexed.parse 9 brokenBlock).toOption.map (fun s => (s.path, s.spans)) =
      some ([1, 2, 3, 4, 5, 6, 6], [(0, 3), (4, 6), (3, 6)]) := by decide +kernel
  rw [hrun] at hrecord
  obtain ⟨hpath, hspans⟩ := Prod.mk.inj (Option.some.inj hrecord)
  exact ⟨hlt, hfirst, ⟨s, hrun, hpath, hspans, hrest⟩, rfl, hne,
    hless 8 (.eof 4) brokenBlock rfl hne, hjunk (.eof 4) rfl brokenBlock⟩

end Sprog
