import Sprog.Proofs.Relabel
import Sprog.Proofs.Rows

/-!
# Parsing tokens under other names

A parser decides by the kinds of tokens, and a constant takes the literal of its token. All else in
a token is only passed on, into trees and into faults. So a change of the tokens that keeps kinds
and literals (`Renaming`) changes the tokens in what is parsed and in what is reported, and nothing
else: parsing commutes with it, recovery after faults included.

* `Commutes`: a parser and its counterpart on changed tokens.
* `Commutes.bind`: one parser after another.
* `commutes_expression`, `commutes_statement`: the parsers of the language.
* `parse_map`: whole token lists.
* `exists_token_of_parse`: a fault blames a token of the list.
-/
namespace Sprog

open Grammar

/-- The fault with the token that it blames changed. -/
def Diagnostic.mapToken (f : Token → Token) : Diagnostic → Diagnostic
  | unexpectedCharacter line char => unexpectedCharacter line char
  | unterminatedString line => unterminatedString line
  | unexpectedToken token expected => unexpectedToken (f token) expected
  | invalidAssignmentTarget equals => invalidAssignmentTarget (f equals)

theorem Expr.mapAll_eq_map (f : Token → Token) (es : List Expr) :
    Expr.mapAll f es = es.map (Expr.mapTokens f) := by
  induction es with
  | nil => rfl
  | cons e es ih => rw [Expr.mapAll, ih, List.map_cons]

theorem Stmt.mapAll_eq_map (f : Token → Token) (ss : List Stmt) :
    Stmt.mapAll f ss = ss.map (Stmt.mapTokens f) := by
  induction ss with
  | nil => rfl
  | cons s ss ih => rw [Stmt.mapAll, ih, List.map_cons]

/-- A change of tokens that a parser does not see, and the change of faults that goes with it. A
parser makes no faults of other sorts than those that blame a token, so these may change at will. -/
structure Renaming where
  token : Token → Token
  fault : Diagnostic → Diagnostic
  words : KeepsWords token
  unexpected : ∀ t expected,
    fault (.unexpectedToken t expected) = .unexpectedToken (token t) expected
  target : ∀ t, fault (.invalidAssignmentTarget t) = .invalidAssignmentTarget (token t)

/-- A change of tokens, with faults changed in the token that they blame. -/
def Renaming.ofTokens (f : Token → Token) (hf : KeepsWords f) : Renaming :=
  ⟨f, Diagnostic.mapToken f, hf, fun _ _ => rfl, fun _ => rfl⟩

/-- The step with its tokens and faults renamed and its value changed by `g`. -/
def Step.map {α : Type} (r : Renaming) (g : α → α) (s : Step α) : Step α where
  result :=
    match s.result with
    | .ok a => .ok (g a)
    | .error e => .error (r.fault e)
  rest := s.rest.map r.token
  reports := s.reports.map r.fault

/-- A tree that an operator builds is changed part by part. -/
theorem Level.mapTokens_node (f : Token → Token) {level : Level} (hlevel : level ∈ Level.all)
    {kind : Kind} {node : Token → Expr → Expr → Expr} (h : level kind = some node) (token : Token)
    (left right : Expr) : (node token left right).mapTokens f =
      node (f token) (left.mapTokens f) (right.mapTokens f) := by
  simp only [Level.all, List.mem_cons, List.not_mem_nil, or_false] at hlevel
  rcases hlevel with rfl | rfl | rfl | rfl | rfl | rfl <;> cases kind <;> cases h <;> rfl

namespace Parser

variable {α β : Type}

/-- On renamed tokens `q` does what `p` does on the tokens themselves. -/
def Commutes (r : Renaming) (g : α → α) (p q : Parser α) : Prop :=
  ∀ eof ts, q (r.token eof) (ts.map r.token) = (p eof ts).map r g

variable {r : Renaming} {g : α → α} {g' : β → β}

theorem commutes_pure (a : α) : Commutes r g (pure a) (pure (g a)) := fun _ _ => rfl

/-- One parser after another, where the second may count on what the first one gives. -/
theorem Commutes.bind_of {p q : Parser α} {k k' : α → Parser β} (hp : Commutes r g p q)
    (hk : ∀ a eof ts mid reports, p eof ts = ⟨.ok a, mid, reports⟩ →
      Commutes r g' (k a) (k' (g a))) : Commutes r g' (p >>= k) (q >>= k') := by
  intro eof ts
  have hfirst := hp eof ts
  rcases h : p eof ts with ⟨e | a, mid, reports⟩
  · rw [h] at hfirst
    rw [bind_error h, bind_error hfirst]
    rfl
  · rw [h] at hfirst
    rw [bind_ok h, bind_ok hfirst, hk a eof ts mid reports h eof mid]
    simp only [Step.map, List.map_append]

theorem Commutes.bind {p q : Parser α} {k k' : α → Parser β} (hp : Commutes r g p q)
    (hk : ∀ a, Commutes r g' (k a) (k' (g a))) : Commutes r g' (p >>= k) (q >>= k') :=
  hp.bind_of fun a _ _ _ _ _ => hk a

theorem Commutes.map {p q : Parser α} {h : α → β} (hp : Commutes r g p q)
    (hh : ∀ a, h (g a) = g' (h a)) : Commutes r g' (h <$> p) (h <$> q) :=
  hp.bind fun a => by
    show Commutes r g' (pure (h a)) (pure (h (g a)))
    rw [hh a]
    exact commutes_pure (h a)

theorem commutes_current : Commutes r r.token current current := by
  intro eof ts
  cases ts <;> rfl

theorem commutes_skip : Commutes r id skip skip := by
  intro eof ts
  cases ts <;> rfl

theorem commutes_fail (expected : Expected) : Commutes r g (fail expected) (fail expected) := by
  intro eof ts
  cases ts <;> simp [fail, Step.map, r.unexpected]

theorem commutes_report (equals : Token) :
    Commutes r id (report (.invalidAssignmentTarget equals))
      (report (.invalidAssignmentTarget (r.token equals))) := by
  intro eof ts
  simp [report, Step.map, r.target]

theorem commutes_sees (kind : Kind) : Commutes r id (sees kind) (sees kind) := by
  intro eof ts
  cases ts with
  | nil => rfl
  | cons t ts => simp [sees, Step.map, r.words.kind]

theorem commutes_continues (stop : Option Kind) :
    Commutes r id (continues stop) (continues stop) := by
  intro eof ts
  cases ts with
  | nil => rfl
  | cons t ts => simp [continues, Step.map, r.words.kind]

theorem commutes_acceptFrom (table : Kind → Option α) :
    Commutes r (Option.map (Prod.map id r.token)) (acceptFrom table) (acceptFrom table) := by
  intro eof ts
  cases ts with
  | nil => rfl
  | cons t ts =>
    cases ht : table t.kind <;> simp [acceptFrom, Step.map, r.words.kind, ht]

/-- What follows a token that a table takes may count on its entry. -/
theorem commutes_acceptFrom_bind {table : Kind → Option α} {k k' : Option (α × Token) → Parser β}
    (hnone : Commutes r g' (k none) (k' none))
    (hsome : ∀ kind a, table kind = some a → ∀ t,
      Commutes r g' (k (some (a, t))) (k' (some (a, r.token t)))) :
    Commutes r g' (acceptFrom table >>= k) (acceptFrom table >>= k') := by
  refine (commutes_acceptFrom table).bind_of fun o eof ts mid reports h => ?_
  cases o with
  | none => exact hnone
  | some entry =>
    unfold acceptFrom at h
    split at h
    · cases h
    · split at h <;> cases h
      exact hsome _ _ ‹_› _

theorem commutes_accept (kind : Kind) :
    Commutes r (Option.map r.token) (accept kind) (accept kind) := by
  intro eof ts
  cases ts with
  | nil => rfl
  | cons t ts =>
    by_cases ht : t.kind = kind <;> simp [accept, Step.map, r.words.kind, ht]

theorem commutes_expect (kind : Kind) (expected : Expected) :
    Commutes r r.token (expect kind expected) (expect kind expected) := by
  refine (commutes_accept kind).bind fun o => ?_
  cases o with
  | some t => exact commutes_pure t
  | none => exact commutes_fail expected

theorem resume_map (last : Token) (ts : List Token) :
    resume (r.token last) (ts.map r.token) = (resume last ts).map r.token := by
  induction ts generalizing last with
  | nil => rfl
  | cons t ts ih =>
    simp only [List.map_cons, resume, r.words.kind, ih]
    split <;> rfl

theorem afterFault_map (ts : List Token) :
    afterFault (ts.map r.token) = (afterFault ts).map r.token := by
  cases ts with
  | nil => rfl
  | cons t ts => exact resume_map t ts

theorem Commutes.recover {p q : Parser α} (hp : Commutes r g p q) :
    Commutes r (Option.map g) (recover p) (recover q) := by
  intro eof ts
  have hstep := hp eof ts
  rcases h : p eof ts with ⟨e | a, mid, reports⟩
  · rw [h] at hstep
    rw [recover_error h, recover_error hstep]
    simp [Step.map, afterFault_map]
  · rw [h] at hstep
    rw [recover_ok h, recover_ok hstep]
    rfl

theorem Commutes.commaSeparated {p q : Parser α} (hp : Commutes r g p q) :
    ∀ n, Commutes r (List.map g) (commaSeparated p n) (commaSeparated q n)
  | 0 => hp.bind fun a => commutes_pure [a]
  | n + 1 => by
    refine hp.bind fun first => (commutes_accept .comma).bind fun o => ?_
    cases o with
    | none => exact commutes_pure [first]
    | some _ => exact (Commutes.commaSeparated hp n).bind fun rest => commutes_pure (first :: rest)

/-! ## Expressions -/

section
variable {p q : Parser Expr} (hp : Commutes r (Expr.mapTokens r.token) p q)

include hp

theorem commutes_primary : Commutes r (Expr.mapTokens r.token) (primary p) (primary q) := by
  refine commutes_current.bind fun token => ?_
  rw [r.words.kind, r.words.literal]
  split
  · exact commutes_skip.bind fun _ => commutes_pure _
  · exact commutes_skip.bind fun _ => commutes_pure _
  · exact commutes_skip.bind fun _ => commutes_pure _
  · exact commutes_skip.bind fun _ => commutes_pure _
  · exact commutes_skip.bind fun _ => commutes_pure _
  · exact commutes_skip.bind fun _ => commutes_pure (Expr.var token)
  · exact commutes_skip.bind fun _ => hp.bind fun inner =>
      (commutes_expect _ _).bind fun _ => commutes_pure (Expr.group inner)
  · exact commutes_fail _

theorem commutes_arguments (n : Nat) :
    Commutes r (List.map (Expr.mapTokens r.token)) (arguments p n) (arguments q n) := by
  refine (commutes_sees _).bind fun b => ?_
  cases b with
  | true => exact commutes_pure []
  | false => exact hp.commaSeparated n

theorem commutes_calls : ∀ (n : Nat) (callee : Expr),
    Commutes r (Expr.mapTokens r.token) (calls p n callee) (calls q n (callee.mapTokens r.token))
  | 0, callee => commutes_pure callee
  | n + 1, callee => by
    refine (commutes_accept _).bind fun o => ?_
    cases o with
    | none => exact commutes_pure callee
    | some _ =>
      refine (commutes_arguments hp n).bind fun args =>
        (commutes_expect _ _).bind fun closing => ?_
      rw [← Expr.mapAll_eq_map]
      exact commutes_calls n (.call callee closing args)

theorem commutes_call (n : Nat) : Commutes r (Expr.mapTokens r.token) (call p n) (call q n) :=
  (commutes_primary hp).bind fun callee => commutes_calls hp n callee

theorem commutes_unary : ∀ n, Commutes r (Expr.mapTokens r.token) (unary p n) (unary q n)
  | 0 => hp
  | n + 1 => by
    refine commutes_acceptFrom_bind hp fun _ op _ token => ?_
    exact (commutes_unary n).bind fun e => commutes_pure (Expr.unary op token e)

theorem commutes_operations {level : Level} (hlevel : level ∈ Level.all) :
    ∀ (n : Nat) (left : Expr),
      Commutes r (Expr.mapTokens r.token) (operations level p n left)
        (operations level q n (left.mapTokens r.token))
  | 0, left => commutes_pure left
  | n + 1, left => by
    refine commutes_acceptFrom_bind (commutes_pure left) fun kind node hnode token => ?_
    refine hp.bind fun right => ?_
    rw [← Level.mapTokens_node r.token hlevel hnode]
    exact commutes_operations hlevel n (node token left right)

theorem commutes_joined {level : Level} (hlevel : level ∈ Level.all) (n : Nat) :
    Commutes r (Expr.mapTokens r.token) (joined n p level) (joined n q level) :=
  hp.bind fun left => commutes_operations hp hlevel n left

theorem commutes_operation (n : Nat) :
    Commutes r (Expr.mapTokens r.token) (operation p n) (operation q n) := by
  have step : ∀ (levels : List Level), levels ⊆ Level.all → ∀ p q : Parser Expr,
      Commutes r (Expr.mapTokens r.token) p q →
        Commutes r (Expr.mapTokens r.token) (levels.foldl (joined n) p)
          (levels.foldl (joined n) q) := by
    intro levels
    induction levels with
    | nil => exact fun _ _ _ hp => hp
    | cons level levels ih =>
      intro hsub p q hp
      obtain ⟨hlevel, hlevels⟩ := List.cons_subset.1 hsub
      exact ih hlevels _ _ (commutes_joined hp hlevel n)
  exact step _ (List.Subset.refl _) _ _ (commutes_unary (commutes_call hp n) n)

theorem commutes_assignment (n : Nat) :
    Commutes r (Expr.mapTokens r.token) (assignment p n) (assignment q n) := by
  refine (commutes_operation hp n).bind fun target => (commutes_accept _).bind fun o => ?_
  cases o with
  | none => exact commutes_pure target
  | some equals =>
    refine hp.bind fun value => ?_
    cases target with
    | var name => exact commutes_pure (Expr.assign name value)
    | constant | group | unary | binary | logical | assign | call =>
      exact (commutes_report equals).bind fun _ => commutes_pure _

end

theorem commutes_expression : ∀ n, Commutes r (Expr.mapTokens r.token) (expression n) (expression n)
  | 0 => commutes_fail _
  | n + 1 => commutes_assignment (commutes_expression n) (n + 1)

/-! ## Statements -/

theorem commutes_expressionStatement (n : Nat) :
    Commutes r (Stmt.mapTokens r.token) (expressionStatement n) (expressionStatement n) :=
  (commutes_expression n).bind fun e =>
    (commutes_expect _ _).bind fun _ => commutes_pure (Stmt.expr e)

theorem commutes_printRest (n : Nat) (keyword : Token) :
    Commutes r (Stmt.mapTokens r.token) (printRest n keyword) (printRest n (r.token keyword)) :=
  (commutes_expression n).bind fun e =>
    (commutes_expect _ _).bind fun _ => commutes_pure (Stmt.print keyword e)

theorem commutes_declareRest (n : Nat) :
    Commutes r (Stmt.mapTokens r.token) (declareRest n) (declareRest n) := by
  refine (commutes_expect _ _).bind fun name => (commutes_accept _).bind fun o => ?_
  have hend (initial : Option Expr) : Commutes r (Stmt.mapTokens r.token)
      (do let _ ← expect .semicolon .semicolonAfterVariable
          return .declare name initial)
      (do let _ ← expect .semicolon .semicolonAfterVariable
          return .declare (r.token name) (initial.map (Expr.mapTokens r.token))) :=
    (commutes_expect _ _).bind fun _ => commutes_pure (Stmt.declare name initial)
  have hinitial : Commutes r (Option.map (Expr.mapTokens r.token)) (some <$> expression n)
      (some <$> expression n) := (commutes_expression n).map fun _ => rfl
  cases o with
  | none => exact (commutes_pure (g := Option.map (Expr.mapTokens r.token)) none).bind hend
  | some _ => exact hinitial.bind hend

theorem commutes_countingInitial (n : Nat) :
    Commutes r (Option.map (Stmt.mapTokens r.token)) (countingInitial n) (countingInitial n) := by
  refine (commutes_accept _).bind fun o => ?_
  cases o with
  | some _ => exact commutes_pure none
  | none =>
    refine (commutes_accept _).bind fun o => ?_
    cases o with
    | some _ => exact (commutes_declareRest n).map fun _ => rfl
    | none => exact (commutes_expressionStatement n).map fun _ => rfl

theorem commutes_optionalBefore (kind : Kind) (n : Nat) :
    Commutes r (Option.map (Expr.mapTokens r.token)) (optionalBefore kind n)
      (optionalBefore kind n) := by
  refine (commutes_sees _).bind fun b => ?_
  cases b with
  | true => exact commutes_pure none
  | false => exact (commutes_expression n).map fun _ => rfl

theorem commutes_parameters (n : Nat) :
    Commutes r (List.map r.token) (parameters n) (parameters n) := by
  refine (commutes_sees _).bind fun b => ?_
  cases b with
  | true => exact commutes_pure []
  | false => exact (commutes_expect _ _).commaSeparated n

section
variable {p q : Parser Stmt} (hp : Commutes r (Stmt.mapTokens r.token) p q)

include hp

theorem commutes_branchRest (n : Nat) :
    Commutes r (Stmt.mapTokens r.token) (branchRest n p) (branchRest n q) := by
  refine (commutes_expect _ _).bind fun _ => (commutes_expression n).bind fun test =>
    (commutes_expect _ _).bind fun _ => hp.bind fun yes => (commutes_accept _).bind fun o => ?_
  cases o with
  | some _ => exact hp.bind fun no => commutes_pure (Stmt.branch test yes (some no))
  | none => exact commutes_pure (Stmt.branch test yes none)

theorem commutes_loopRest (n : Nat) :
    Commutes r (Stmt.mapTokens r.token) (loopRest n p) (loopRest n q) :=
  (commutes_expect _ _).bind fun _ => (commutes_expression n).bind fun test =>
    (commutes_expect _ _).bind fun _ => hp.bind fun body => commutes_pure (Stmt.loop test body)

theorem commutes_countingRest (n : Nat) :
    Commutes r (Stmt.mapTokens r.token) (countingRest n p) (countingRest n q) := by
  refine (commutes_expect _ _).bind fun _ => (commutes_countingInitial n).bind fun initial =>
    (commutes_optionalBefore _ n).bind fun test => (commutes_expect _ _).bind fun _ =>
    (commutes_optionalBefore _ n).bind fun increment => (commutes_expect _ _).bind fun _ =>
    hp.bind fun body => ?_
  rw [← Stmt.mapTokens_counting]
  exact commutes_pure (Stmt.counting initial test increment body)

theorem commutes_declarations (stop : Option Kind) : ∀ n,
    Commutes r (List.map (Stmt.mapTokens r.token)) (declarations stop p n) (declarations stop q n)
  | 0 => commutes_pure []
  | n + 1 => by
    refine (commutes_continues stop).bind fun b => ?_
    cases b with
    | false => exact commutes_pure []
    | true =>
      refine (hp.recover).bind fun first => (commutes_declarations stop n).bind fun rest => ?_
      cases first with
      | none => exact commutes_pure rest
      | some s => exact commutes_pure (s :: rest)

theorem commutes_blockRest (n : Nat) :
    Commutes r (List.map (Stmt.mapTokens r.token)) (blockRest n p) (blockRest n q) :=
  (commutes_declarations hp _ n).bind fun body =>
    (commutes_expect _ _).bind fun _ => commutes_pure body

theorem commutes_functionRest (n : Nat) :
    Commutes r (Stmt.mapTokens r.token) (functionRest n p) (functionRest n q) := by
  refine (commutes_expect _ _).bind fun name => (commutes_expect _ _).bind fun _ =>
    (commutes_parameters n).bind fun names => (commutes_expect _ _).bind fun _ =>
    (commutes_expect _ _).bind fun _ => (commutes_blockRest hp n).bind fun body => ?_
  rw [← Stmt.mapAll_eq_map]
  exact commutes_pure (Stmt.function name names body)

end

theorem commutes_statement : ∀ (n : Nat) (place : Place),
    Commutes r (Stmt.mapTokens r.token) (statement n place) (statement n place)
  | 0, _ => commutes_expressionStatement 0
  | n + 1, place => by
    refine commutes_current.bind fun token => ?_
    rw [r.words.kind]
    split
    · exact commutes_skip.bind fun _ => commutes_declareRest n
    · exact commutes_skip.bind fun _ => commutes_functionRest (commutes_statement n .outer) n
    · exact commutes_skip.bind fun _ => commutes_branchRest (commutes_statement n .inner) n
    · exact commutes_skip.bind fun _ => commutes_printRest n token
    · exact commutes_skip.bind fun _ => commutes_loopRest (commutes_statement n .inner) n
    · exact commutes_skip.bind fun _ => commutes_countingRest (commutes_statement n .inner) n
    · refine commutes_skip.bind fun _ =>
        (commutes_blockRest (commutes_statement n .outer) n).bind fun body => ?_
      rw [← Stmt.mapAll_eq_map]
      exact commutes_pure (Stmt.block body)
    · exact commutes_expressionStatement (n + 1)

theorem commutes_program (n : Nat) :
    Commutes r (List.map (Stmt.mapTokens r.token)) (program n) (program n) :=
  commutes_declarations (commutes_statement n .outer) none n

end Parser

/-! ## Whole token lists -/

/-- What was parsed, with its tokens and faults renamed. -/
def ParseResult.map (r : Renaming) (parsed : ParseResult) : ParseResult :=
  ⟨Stmt.mapAll r.token parsed.statements, parsed.errors.map r.fault⟩

theorem beforeEnd_map {f : Token → Token} (hf : KeepsWords f) (ts : List Token) :
    beforeEnd (ts.map f) = (beforeEnd ts).map f := by
  have hkind : (fun t => t.kind != .eof) ∘ f = fun t => t.kind != .eof := by
    funext t
    simp [hf.kind]
  rw [beforeEnd, List.takeWhile_map, hkind]
  rfl

theorem endMark_map (r : Renaming) {ts : List Token} (h : ∃ t ∈ ts, t.kind = .eof) :
    endMark (ts.map r.token) = r.token (endMark ts) := by
  have hkind : (fun t => t.kind == .eof) ∘ r.token = fun t => t.kind == .eof := by
    funext t
    simp [r.words.kind]
  obtain ⟨eof, hfind⟩ : ∃ eof, ts.find? (·.kind == .eof) = some eof := by
    rw [← Option.isSome_iff_exists, List.find?_isSome]
    simpa using h
  have hfind' : (ts.map r.token).find? (·.kind == .eof) = some (r.token eof) := by
    rw [List.find?_map, hkind, hfind]
    rfl
  rw [endMark, endMark, hfind', hfind]
  rfl

/-- Renamed tokens are parsed as the tokens themselves, up to the renaming in trees and faults. -/
theorem parse_map (r : Renaming) {ts : List Token} (h : ∃ t ∈ ts, t.kind = .eof) :
    parse (ts.map r.token) = (parse ts).map r := by
  have hlength : (beforeEnd (ts.map r.token)).length = (beforeEnd ts).length := by
    rw [beforeEnd_map r.words, List.length_map]
  have hprogram : Parser.program (beforeEnd ts).length (r.token (endMark ts))
      ((beforeEnd ts).map r.token) = _ := Parser.commutes_program _ _ _
  obtain ⟨ss, reports, hparsed⟩ :=
    Parser.exists_program (endMark_kind ts) (Nat.le_refl (beforeEnd ts).length)
  rw [hparsed, ← beforeEnd_map r.words, ← endMark_map r h] at hprogram
  unfold parse
  simp only [hlength, hprogram, hparsed]
  show ParseResult.mk _ _ = ParseResult.mk _ _
  rw [Stmt.mapAll_eq_map]
  rfl

/-! ## What faults blame -/

/-- Moves every token that is not in the list to another line. -/
def misplace (ts : List Token) (t : Token) : Token :=
  if t ∈ ts then t else { t with line := t.line + 1 }

theorem keepsWords_misplace (ts : List Token) : KeepsWords (misplace ts) := by
  constructor <;> intro t <;> unfold misplace <;> split <;> rfl

theorem mem_of_misplace_eq {ts : List Token} {t : Token} (h : misplace ts t = t) : t ∈ ts := by
  unfold misplace at h
  split at h
  · assumption
  · have hline := congrArg Token.line h
    simp at hline

/-- Moves every token that is not in the list, and every fault that blames no token at all. -/
def Renaming.misplacing (ts : List Token) : Renaming where
  token := misplace ts
  fault
    | .unexpectedCharacter line char => .unexpectedCharacter (line + 1) char
    | .unterminatedString line => .unterminatedString (line + 1)
    | .unexpectedToken t expected => .unexpectedToken (misplace ts t) expected
    | .invalidAssignmentTarget t => .invalidAssignmentTarget (misplace ts t)
  words := keepsWords_misplace ts
  unexpected _ _ := rfl
  target _ := rfl

/-- Every fault of a parse blames a token of the list: a renaming that leaves the list as it is
leaves the faults as they are. -/
theorem exists_token_of_parse {ts : List Token} (h : ∃ t ∈ ts, t.kind = .eof) {d : Diagnostic}
    (hd : d ∈ (parse ts).errors) : ∃ t ∈ ts, d.token? = some t := by
  have hself : ts.map (misplace ts) = ts :=
    (List.map_congr_left fun _ ht => if_pos ht).trans (List.map_id ts)
  have hparse := parse_map (.misplacing ts) h
  rw [show ts.map (Renaming.misplacing ts).token = ts from hself] at hparse
  have herrors : (parse ts).errors.map (Renaming.misplacing ts).fault =
      (parse ts).errors.map id := by
    rw [List.map_id]
    exact (congrArg ParseResult.errors hparse).symm
  have hfixed : (Renaming.misplacing ts).fault d = d := List.map_inj_left.1 herrors d hd
  cases d with
  | unexpectedToken t expected =>
    exact ⟨t, mem_of_misplace_eq (Diagnostic.unexpectedToken.inj hfixed).1, rfl⟩
  | invalidAssignmentTarget t =>
    exact ⟨t, mem_of_misplace_eq (Diagnostic.invalidAssignmentTarget.inj hfixed), rfl⟩
  | unexpectedCharacter line char =>
    have hline := (Diagnostic.unexpectedCharacter.inj hfixed).1
    omega
  | unterminatedString line =>
    have hline := Diagnostic.unterminatedString.inj hfixed
    omega

end Sprog
