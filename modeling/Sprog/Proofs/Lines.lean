import Mathlib.Data.List.TakeWhile
import Sprog.Tokens

/-!
# Source texts line by line

A line feed ends every segment but a text in quotes. So a source text in which no text is left open
can be divided line by line: the segments of what follows a line feed do not depend on what stands
before it, and the lines of its tokens and errors are only raised.

* `Segment.next_append`: which characters end the segment in front of them.
* `Segment.divide_append_newline`: the segments on both sides of a line feed.
* `tokenize_append_newline`: the tokens and errors on both sides of a line feed.
* `tokenize_newlines_append`: line feeds in front of a text raise its lines.
* `tokenize_lineByLine`: the same of any text that reports no text left open.
* `exists_items`: the mark at the end is the last token and the only one of its kind.
-/
namespace Sprog

section
variable {α : Type} {p : α → Bool} {a : α}

theorem takeWhile_append_stop (ha : p a = false) (l r : List α) :
    (l ++ a :: r).takeWhile p = l.takeWhile p := by
  induction l with
  | nil => simp [ha]
  | cons x l ih => by_cases hx : p x <;> simp [hx, ih]

theorem dropWhile_append_stop (ha : p a = false) (l r : List α) :
    (l ++ a :: r).dropWhile p = l.dropWhile p ++ a :: r := by
  induction l with
  | nil => simp [ha]
  | cons x l ih => by_cases hx : p x <;> simp [hx, ih]

/-- What is taken ends within the list if something is left of it. -/
theorem takeWhile_append_of_dropWhile {l : List α} (h : l.dropWhile p ≠ []) (r : List α) :
    (l ++ r).takeWhile p = l.takeWhile p := by
  have hlen := congrArg List.length (List.takeWhile_append_dropWhile (p := p) (l := l))
  have hpos := List.length_pos_iff.2 h
  rw [List.length_append] at hlen
  rw [List.takeWhile_append, if_neg (by omega)]

theorem dropWhile_append_of_dropWhile {l : List α} (h : l.dropWhile p ≠ []) (r : List α) :
    (l ++ r).dropWhile p = l.dropWhile p ++ r := by
  rw [List.dropWhile_append, if_neg (by simpa using h)]

end

namespace Segment

/-! ## Segments in front of a character that ends them -/

/-- A character that goes on with no number, no name and no sign. -/
structure Stops (w : Char) : Prop where
  not_isNameChar : isNameChar w = false
  ne_point : w ≠ '.'
  ne_slash : w ≠ '/'
  ne_equals : w ≠ '='

theorem Stops.not_isDigit {w : Char} (h : Stops w) : w.isDigit = false :=
  (Bool.or_eq_false_iff.1 h.not_isNameChar).2

theorem stops_newline : Stops '\n' := ⟨by decide, by decide, by decide, by decide⟩

/-- A text that does not go on with a character does not go on with it before another one. -/
theorem ne_cons_append {w c : Char} (hc : w ≠ c) {cs : List Char}
    (h : ∀ rest, cs ≠ c :: rest) (us rest : List Char) : cs ++ w :: us ≠ c :: rest := by
  intro heq
  cases cs with
  | nil =>
    injection heq with hhead _
    exact hc hhead
  | cons c' cs =>
    injection heq with hhead _
    exact h cs (by rw [hhead])

/-- A slash that no second one follows. -/
theorem slash_alone {cs : List Char} (h : ∀ rest, cs ≠ '/' :: rest) :
    slash cs = (⟨['/'], .token .slash none⟩, cs) := by
  unfold slash
  split
  · exact absurd rfl (h _)
  · rfl

/-- Only a line feed ends a comment. -/
theorem slash_append {w : Char} (hw : w ≠ '/') {cs : List Char}
    (h : w = '\n' ∨ (slash cs).1.role ≠ .comment) (us : List Char) :
    slash (cs ++ w :: us) = ((slash cs).1, (slash cs).2 ++ w :: us) := by
  by_cases hcs : ∃ rest, cs = '/' :: rest
  · obtain ⟨rest, rfl⟩ := hcs
    obtain rfl : w = '\n' := h.resolve_right fun hne => hne rfl
    have htake := takeWhile_append_stop (p := fun c => c != '\n') (a := '\n') rfl rest us
    have hdrop := dropWhile_append_stop (p := fun c => c != '\n') (a := '\n') rfl rest us
    simp only [List.cons_append, slash, htake, hdrop]
  · have halone : ∀ rest, cs ≠ '/' :: rest := fun rest h => hcs ⟨rest, h⟩
    have halone' := ne_cons_append hw halone us
    rw [slash_alone halone, slash_alone halone']

/-- An operator that no equals sign follows. -/
theorem operator_short (c : Char) (short long : Kind) {cs : List Char}
    (h : ∀ rest, cs ≠ '=' :: rest) :
    operator c short long cs = (⟨[c], .token short none⟩, cs) := by
  unfold operator
  split
  · exact absurd rfl (h _)
  · rfl

theorem operator_append {w : Char} (hw : w ≠ '=') (c : Char) (short long : Kind)
    (cs us : List Char) :
    operator c short long (cs ++ w :: us) =
      ((operator c short long cs).1, (operator c short long cs).2 ++ w :: us) := by
  by_cases hcs : ∃ rest, cs = '=' :: rest
  · obtain ⟨rest, rfl⟩ := hcs
    rfl
  · have halone : ∀ rest, cs ≠ '=' :: rest := fun rest h => hcs ⟨rest, h⟩
    have halone' := ne_cons_append hw halone us
    rw [operator_short _ _ _ halone, operator_short _ _ _ halone']

/-- A text whose second quote is there does not depend on what follows. -/
theorem quoted_append {cs : List Char} (h : (quoted cs).1.role ≠ .unterminated) (us : List Char) :
    quoted (cs ++ us) = ((quoted cs).1, (quoted cs).2 ++ us) := by
  cases hd : cs.dropWhile (· != '"') with
  | nil => simp [quoted, hd] at h
  | cons q rest =>
    have hne : cs.dropWhile (· != '"') ≠ [] := by simp [hd]
    have htake := takeWhile_append_of_dropWhile hne us
    have hdrop := dropWhile_append_of_dropWhile hne us
    simp only [quoted, htake, hdrop, hd, List.cons_append]

/-- A point that no digit follows is not part of a number. -/
theorem numeral_whole {cs : List Char}
    (h : ∀ d rest, cs.dropWhile Char.isDigit = '.' :: d :: rest → d.isDigit = false) :
    numeral cs = (cs.takeWhile Char.isDigit, cs.dropWhile Char.isDigit) := by
  unfold numeral
  dsimp only
  split
  · rename_i d rest hrest
    rw [if_neg (by simp [h d rest hrest]), hrest]
  · rfl

theorem numeral_append {w : Char} (hw : Stops w) (cs us : List Char) :
    numeral (cs ++ w :: us) = ((numeral cs).1, (numeral cs).2 ++ w :: us) := by
  have htake := takeWhile_append_stop hw.not_isDigit cs us
  have hdrop := dropWhile_append_stop hw.not_isDigit cs us
  by_cases hpoint : ∃ d rest, cs.dropWhile Char.isDigit = '.' :: d :: rest ∧ d.isDigit = true
  · obtain ⟨d, rest, hrest, hd⟩ := hpoint
    have htake' := takeWhile_append_stop hw.not_isDigit rest us
    have hdrop' := dropWhile_append_stop hw.not_isDigit rest us
    simp only [numeral, htake, hdrop, hrest, List.cons_append, hd, if_true, htake', hdrop']
  · have hwhole : ∀ d rest, cs.dropWhile Char.isDigit = '.' :: d :: rest →
        d.isDigit = false := by
      intro d rest hrest
      exact Bool.eq_false_iff.2 fun hd => hpoint ⟨d, rest, hrest, hd⟩
    have hwhole' : ∀ d rest, (cs ++ w :: us).dropWhile Char.isDigit = '.' :: d :: rest →
        d.isDigit = false := by
      intro d rest hrest
      rw [hdrop] at hrest
      match hcs : cs.dropWhile Char.isDigit with
      | [] =>
        rw [hcs] at hrest
        exact absurd (List.cons_eq_cons.1 hrest).1 hw.ne_point
      | [c'] =>
        rw [hcs] at hrest
        cases hrest
        exact hw.not_isDigit
      | c' :: d' :: rest' =>
        rw [hcs] at hrest
        cases hrest
        exact hwhole d rest' hcs
    rw [numeral_whole hwhole, numeral_whole hwhole', htake, hdrop]

theorem number_append {w : Char} (hw : Stops w) (c : Char) (cs us : List Char) :
    number c (cs ++ w :: us) = ((number c cs).1, (number c cs).2 ++ w :: us) := by
  simp only [number, numeral_append hw]
  cases Number.ofText? (c :: (numeral cs).1) <;> rfl

theorem word_append {w : Char} (hw : isNameChar w = false) (c : Char) (cs us : List Char) :
    word c (cs ++ w :: us) = ((word c cs).1, (word c cs).2 ++ w :: us) := by
  simp only [word, takeWhile_append_stop hw, dropWhile_append_stop hw]

/-- The segment goes on in front of any character but the one that closes it. -/
def GoesOn (w : Char) (s : Segment) : Prop :=
  s.role = .unterminated ∨ w ≠ '\n' ∧ s.role = .comment

/-- The first segment in front of a character that ends it. -/
theorem next_append {w : Char} (hw : Stops w) {c : Char} {cs : List Char}
    (h : ¬ GoesOn w (next c cs).1) (us : List Char) :
    next c (cs ++ w :: us) = ((next c cs).1, (next c cs).2 ++ w :: us) := by
  obtain ⟨hclosed, hcomment⟩ := not_or.1 h
  unfold next at hclosed hcomment ⊢
  cases hs : Kind.ofSign? c with
  | some kind => rfl
  | none =>
    cases ho : Kind.ofOperator? c with
    | some kinds => exact operator_append hw.ne_equals c kinds.1 kinds.2 cs us
    | none =>
      simp only [hs, ho] at hclosed hcomment ⊢
      by_cases h1 : c = '/'
      · simp only [h1, if_true] at hcomment ⊢
        refine slash_append hw.ne_slash ?_ us
        by_cases hline : w = '\n'
        · exact .inl hline
        · exact .inr fun hrole => hcomment ⟨hline, hrole⟩
      by_cases h2 : c = ' ' ∨ c = '\r' ∨ c = '\t'
      · simp only [h1, h2, if_true, if_false]
      by_cases h3 : c = '\n'
      · simp [h3]
      by_cases h4 : c = '"'
      · subst h4
        exact quoted_append hclosed _
      simp only [h1, h2, h3, h4, if_false]
      split
      · exact number_append hw c cs us
      split
      · exact word_append hw.not_isNameChar c cs us
      · rfl

/-- The segments on both sides of a place where none goes on. -/
theorem divide_append {w : Char} (hw : Stops w) {cs : List Char}
    (h : ∀ s ∈ divide cs, ¬ GoesOn w s) (us : List Char) :
    divide (cs ++ w :: us) = divide cs ++ divide (w :: us) := by
  fun_induction divide cs with
  | case1 => rfl
  | case2 c cs ih =>
    have hfirst := next_append hw (h _ List.mem_cons_self) us
    rw [List.cons_append, divide, hfirst]
    exact congrArg _ (ih fun s hs => h s (List.mem_cons_of_mem _ hs))

/-- The segments on both sides of a line feed, if no text is left open before it. -/
theorem divide_append_newline {cs : List Char} (h : ∀ s ∈ divide cs, s.role ≠ .unterminated)
    (us : List Char) :
    divide (cs ++ '\n' :: us) = divide cs ++ ⟨['\n'], .newline⟩ :: divide us := by
  have hstop : ∀ s ∈ divide cs, ¬ GoesOn '\n' s := fun s hs => by simp [GoesOn, h s hs]
  rw [divide_append stops_newline hstop, divide]
  rfl

theorem divide_newlines_append (k : Nat) (cs : List Char) :
    divide (List.replicate k '\n' ++ cs) = List.replicate k ⟨['\n'], .newline⟩ ++ divide cs := by
  induction k with
  | zero => rfl
  | succ k ih =>
    rw [List.replicate_succ, List.replicate_succ, List.cons_append, List.cons_append, ← ih, divide]
    rfl

/-! ## The lines of segments -/

/-- The line on which a segment ends if it starts on the given line. -/
def endsOn (s : Segment) (line : Nat) : Nat :=
  line + s.text.count '\n'

/-- What has no line feed in it does not move to another line. -/
theorem lastLine_of_not_mem {s : Segment} (hrole : s.role ≠ .newline) (h : '\n' ∉ s.text)
    (line : Nat) : s.lastLine line = s.endsOn line := by
  have hcount : s.text.count '\n' = 0 := List.count_eq_zero.2 h
  unfold lastLine endsOn
  rw [hcount]
  split
  · exact absurd ‹_› hrole
  all_goals rfl

theorem newline_not_mem_takeWhile {p : Char → Bool} (hp : p '\n' = false) (cs : List Char) :
    '\n' ∉ cs.takeWhile p :=
  fun h => absurd (List.mem_takeWhile_imp h) (by simp [hp])

theorem newline_not_mem_numeral (cs : List Char) : '\n' ∉ (numeral cs).1 := by
  have hdigits (l : List Char) := newline_not_mem_takeWhile (p := Char.isDigit) rfl l
  unfold numeral
  dsimp only
  split
  · split
    · rename_i d rest _ hd
      have hd' : '\n' ≠ d := by rintro rfl; exact absurd hd (by decide)
      simp [hdigits, hd']
    · exact hdigits cs
  · exact hdigits cs

theorem lastLine_slash (cs : List Char) (line : Nat) :
    (slash cs).1.lastLine line = (slash cs).1.endsOn line := by
  have hbody (l : List Char) := newline_not_mem_takeWhile (p := fun c => c != '\n') rfl l
  unfold slash
  split <;> exact lastLine_of_not_mem (by simp) (by simp [hbody]) line

theorem lastLine_quoted (cs : List Char) (line : Nat) :
    (quoted cs).1.lastLine line = (quoted cs).1.endsOn line := by
  unfold quoted
  dsimp only
  split <;> rfl

section
variable {c : Char} (hc : '\n' ≠ c)
include hc

theorem lastLine_operator (short long : Kind) (cs : List Char) (line : Nat) :
    (operator c short long cs).1.lastLine line = (operator c short long cs).1.endsOn line := by
  unfold operator
  split <;> exact lastLine_of_not_mem (by simp) (by simp [hc]) line

theorem lastLine_number (cs : List Char) (line : Nat) :
    (number c cs).1.lastLine line = (number c cs).1.endsOn line := by
  have hbody := newline_not_mem_numeral cs
  unfold number
  dsimp only
  split <;> exact lastLine_of_not_mem (by simp) (by simp [hc, hbody]) line

theorem lastLine_word (cs : List Char) (line : Nat) :
    (word c cs).1.lastLine line = (word c cs).1.endsOn line := by
  have hbody := newline_not_mem_takeWhile (p := isNameChar) (by decide) cs
  exact lastLine_of_not_mem (by simp [word]) (by simp [word, hc, hbody]) line

end

/-- The line feeds that are counted behind a cut are those of its text. -/
theorem lastLine_next (c : Char) (cs : List Char) (line : Nat) :
    (next c cs).1.lastLine line = (next c cs).1.endsOn line := by
  by_cases hc : '\n' = c
  · subst hc
    rfl
  have hc' : c ≠ '\n' := Ne.symm hc
  unfold next
  cases Kind.ofSign? c with
  | some kind => exact lastLine_of_not_mem (by simp) (by simp [hc]) line
  | none =>
    cases Kind.ofOperator? c with
    | some kinds => exact lastLine_operator hc kinds.1 kinds.2 cs line
    | none =>
      dsimp only
      rw [if_neg hc']
      split
      · exact lastLine_slash cs line
      split
      · exact lastLine_of_not_mem (by simp) (by simp [hc]) line
      split
      · exact lastLine_quoted cs line
      split
      · exact lastLine_number hc cs line
      split
      · exact lastLine_word hc cs line
      · exact lastLine_of_not_mem (by simp) (by simp [hc]) line

theorem lastLine_of_mem_divide (cs : List Char) :
    ∀ s ∈ divide cs, ∀ line, s.lastLine line = s.endsOn line := by
  fun_induction divide cs with
  | case1 => simp
  | case2 c cs ih => exact List.forall_mem_cons.2 ⟨lastLine_next c cs, ih⟩

/-- The line on which the last of the segments ends if the first one starts on the given line. -/
def endLine (line : Nat) (segments : List Segment) : Nat :=
  segments.foldl (fun l s => s.endsOn l) line

theorem endLine_divide (line : Nat) (cs : List Char) :
    endLine line (divide cs) = line + cs.count '\n' := by
  fun_induction divide cs generalizing line with
  | case1 => rfl
  | case2 c cs ih =>
    have hcount := congrArg (List.count '\n') (text_append_next c cs)
    rw [List.count_append] at hcount
    calc endLine line ((next c cs).1 :: divide (next c cs).2)
        = endLine ((next c cs).1.endsOn line) (divide (next c cs).2) := rfl
      _ = line + (next c cs).1.text.count '\n' + (next c cs).2.count '\n' := ih _
      _ = line + (c :: cs).count '\n' := by omega

theorem endLine_newlines (line k : Nat) :
    endLine line (List.replicate k ⟨['\n'], .newline⟩) = line + k := by
  induction k generalizing line with
  | zero => rfl
  | succ k ih =>
    rw [List.replicate_succ]
    show endLine (line + 1) _ = _
    rw [ih]
    omega

/-- The token that a segment is, if it ends on the given line. -/
def token? (s : Segment) (line : Nat) : Option Token :=
  match s.role with
  | .token kind literal => some ⟨kind, String.ofList s.text, literal, line⟩
  | .blank | .newline | .comment | .unterminated | .unexpected _ => none

/-- The fault that a segment is, if it ends on the given line. -/
def fault? (s : Segment) (line : Nat) : Option Diagnostic :=
  match s.role with
  | .unterminated => some (.unterminatedString line)
  | .unexpected char => some (.unexpectedCharacter line char)
  | .blank | .newline | .comment | .token .. => none

/-- What the segments give one after the other, each at the line on which it ends. -/
def collect {α : Type} (f : Segment → Nat → Option α) (line : Nat) : List Segment → List α
  | [] => []
  | s :: rest => (f s (s.endsOn line)).toList ++ collect f (s.endsOn line) rest

section
variable {α : Type} {f : Segment → Nat → Option α}

theorem collect_append (line : Nat) (xs ys : List Segment) :
    collect f line (xs ++ ys) = collect f line xs ++ collect f (endLine line xs) ys := by
  induction xs generalizing line with
  | nil => rfl
  | cons s xs ih =>
    rw [List.cons_append, collect, collect, ih, List.append_assoc]
    rfl

theorem collect_raise {g : α → α} {k : Nat} (hf : ∀ s line, f s (line + k) = (f s line).map g)
    (line : Nat) (xs : List Segment) : collect f (line + k) xs = (collect f line xs).map g := by
  induction xs generalizing line with
  | nil => rfl
  | cons s xs ih =>
    have hline : s.endsOn (line + k) = s.endsOn line + k := by
      simp only [endsOn]
      omega
    rw [collect, collect, hline, hf, ih, List.map_append]
    cases f s (s.endsOn line) <;> rfl

theorem collect_newlines (hf : ∀ line, f ⟨['\n'], .newline⟩ line = none) (line k : Nat) :
    collect f line (List.replicate k ⟨['\n'], .newline⟩) = [] := by
  induction k generalizing line with
  | zero => rfl
  | succ k ih =>
    rw [List.replicate_succ, collect, hf, ih]
    rfl

/-- Segments without a line feed are all on the same line. -/
theorem collect_oneLine {ss : List Segment} (h : ∀ s ∈ ss, '\n' ∉ s.text) (line : Nat) :
    collect f line ss = ss.filterMap (f · line) := by
  induction ss with
  | nil => rfl
  | cons s ss ih =>
    obtain ⟨hs, hrest⟩ := List.forall_mem_cons.1 h
    have hline : s.endsOn line = line := by
      rw [endsOn, List.count_eq_zero.2 hs, Nat.add_zero]
    rw [collect, hline, ih hrest, List.filterMap_cons]
    cases f s line <;> rfl

end

end Segment

open Segment

/-- The tokens of segments are those of the single segments and the mark at the end. -/
theorem ofSegments_eq {segments : List Segment}
    (h : ∀ s ∈ segments, ∀ line, s.lastLine line = s.endsOn line) (line : Nat) :
    Tokens.ofSegments line segments =
      ⟨collect token? line segments ++ [.eof (endLine line segments)],
        collect fault? line segments⟩ := by
  induction segments generalizing line with
  | nil => rfl
  | cons s rest ih =>
    obtain ⟨hs, hrest⟩ := List.forall_mem_cons.1 h
    rw [Tokens.ofSegments, hs, ih hrest, collect, collect]
    cases hr : s.role <;> simp [Tokens.prepend, token?, fault?, hr, endLine]

/-! ## Tokens and errors -/

/-- The token on a line further down. -/
def Token.raise (k : Nat) (t : Token) : Token := { t with line := t.line + k }

/-- The fault on a line further down. -/
def Diagnostic.raise (k : Nat) : Diagnostic → Diagnostic
  | unexpectedCharacter line char => unexpectedCharacter (line + k) char
  | unterminatedString line => unterminatedString (line + k)
  | unexpectedToken token expected => unexpectedToken (token.raise k) expected
  | invalidAssignmentTarget equals => invalidAssignmentTarget (equals.raise k)

theorem token?_raise (k : Nat) (s : Segment) (line : Nat) :
    s.token? (line + k) = (s.token? line).map (Token.raise k) := by
  unfold token?
  cases s.role <;> rfl

theorem fault?_raise (k : Nat) (s : Segment) (line : Nat) :
    s.fault? (line + k) = (s.fault? line).map (Diagnostic.raise k) := by
  unfold fault?
  cases s.role <;> rfl

/-- The tokens of a text and its errors, with the line of its end. -/
theorem tokenize_eq (source : String) : tokenize source =
    ⟨collect token? 1 (divide source.toList) ++ [.eof (1 + source.toList.count '\n')],
      collect fault? 1 (divide source.toList)⟩ := by
  rw [tokenize, ofSegments_eq (lastLine_of_mem_divide _), endLine_divide]

/-- The tokens and errors on both sides of a line feed, if no text is left open before it. -/
theorem tokenize_append_newline {source : String}
    (h : ∀ s ∈ divide source.toList, s.role ≠ .unterminated) (after : String) {k : Nat}
    (hk : k = 1 + source.toList.count '\n') :
    tokenize (source ++ "\n" ++ after) =
      ⟨(tokenize source).items.dropLast ++ (tokenize after).items.map (Token.raise k),
        (tokenize source).errors ++ (tokenize after).errors.map (Diagnostic.raise k)⟩ := by
  have hlist : (source ++ "\n" ++ after).toList = source.toList ++ '\n' :: after.toList := by
    rw [String.toList_append, String.toList_append, List.append_assoc]
    rfl
  -- the part behind the line feed starts on the line after it
  have hline : (⟨['\n'], .newline⟩ : Segment).endsOn (endLine 1 (divide source.toList)) =
      1 + k := by
    rw [endLine_divide, hk]
    show 1 + source.toList.count '\n' + 1 = _
    omega
  have hend : 1 + (source.toList ++ '\n' :: after.toList).count '\n' =
      1 + after.toList.count '\n' + k := by
    rw [List.count_append, List.count_cons_self, hk]
    omega
  rw [tokenize_eq (source ++ "\n" ++ after), hlist, hend, divide_append_newline h,
    tokenize_eq source, tokenize_eq after, collect_append, collect_append, collect, collect, hline,
    collect_raise (token?_raise k), collect_raise (fault?_raise k), List.dropLast_concat,
    List.map_append]
  simp [token?, fault?, Token.raise, Token.eof]

/-- Line feeds in front of a text raise its lines and do nothing else. -/
theorem tokenize_newlines_append (k : Nat) (source : String) :
    tokenize (String.ofList (List.replicate k '\n') ++ source) =
      ⟨(tokenize source).items.map (Token.raise k),
        (tokenize source).errors.map (Diagnostic.raise k)⟩ := by
  have hlist : (String.ofList (List.replicate k '\n') ++ source).toList =
      List.replicate k '\n' ++ source.toList := by
    rw [String.toList_append, String.toList_ofList]
  have hend : 1 + (List.replicate k '\n' ++ source.toList).count '\n' =
      1 + source.toList.count '\n' + k := by
    rw [List.count_append, List.count_replicate_self]
    omega
  rw [tokenize_eq (String.ofList _ ++ source), hlist, hend, divide_newlines_append,
    tokenize_eq source, collect_append, collect_append, endLine_newlines,
    collect_newlines (fun _ => rfl),
    collect_newlines (fun _ => rfl), collect_raise (token?_raise k),
    collect_raise (fault?_raise k), List.map_append]
  rfl

/-- A text left open is reported. -/
theorem Segment.exists_unterminated_mem {segments : List Segment} {s : Segment}
    (hmem : s ∈ segments) (hs : s.role = .unterminated) (line : Nat) :
    ∃ l, .unterminatedString l ∈ collect fault? line segments := by
  induction segments generalizing line with
  | nil => cases hmem
  | cons first rest ih =>
    rcases List.mem_cons.1 hmem with rfl | hrest
    · exact ⟨s.endsOn line, List.mem_append_left _ (by simp [fault?, hs])⟩
    · obtain ⟨l, hl⟩ := ih hrest (first.endsOn line)
      exact ⟨l, List.mem_append_right _ hl⟩

theorem not_unterminated_of_not_mem {source : String}
    (h : ∀ line, .unterminatedString line ∉ (tokenize source).errors) :
    ∀ s ∈ divide source.toList, s.role ≠ .unterminated := by
  intro s hmem hs
  obtain ⟨line, hline⟩ := exists_unterminated_mem hmem hs 1
  rw [tokenize_eq] at h
  exact h line hline

theorem not_unterminated_of_errors {source : String} (h : (tokenize source).errors = []) :
    ∀ s ∈ divide source.toList, s.role ≠ .unterminated :=
  not_unterminated_of_not_mem (by simp [h])

/-! ## The mark at the end -/

theorem ofSign?_ne_eof (c : Char) : Kind.ofSign? c ≠ some .eof := by
  unfold Kind.ofSign?
  split <;> simp

theorem ofOperator?_ne_eof {c : Char} {short long : Kind}
    (h : Kind.ofOperator? c = some (short, long)) : short ≠ .eof ∧ long ≠ .eof := by
  unfold Kind.ofOperator? at h
  split at h <;> cases h <;> simp

theorem ofWord_ne_eof (word : String) : Kind.ofWord word ≠ .eof := by
  have hall : ∀ entry ∈ keywords, entry.2 ≠ .eof := by decide
  unfold Kind.ofWord
  cases h : keywords.lookup word with
  | none => simp
  | some kind =>
    obtain ⟨before, behind, hsplit, -⟩ := List.lookup_eq_some_iff.1 h
    exact hall (word, kind) (by rw [hsplit]; simp)

/-- No segment is the mark at the end. -/
theorem Segment.kind_next_ne_eof {c : Char} {cs : List Char} {kind : Kind}
    {literal : Option Literal} (h : (next c cs).1.role = .token kind literal) : kind ≠ .eof := by
  unfold next at h
  split at h
  · rename_i hs
    cases h
    exact fun hk => ofSign?_ne_eof c (hk ▸ hs)
  · rename_i ho
    obtain ⟨hshort, hlong⟩ := ofOperator?_ne_eof ho
    unfold operator at h
    split at h <;> cases h <;> assumption
  · split at h
    · unfold slash at h
      split at h <;> cases h
      simp
    split at h
    · cases h
    split at h
    · cases h
    split at h
    · unfold quoted at h
      dsimp only at h
      split at h <;> cases h
      simp
    split at h
    · unfold number at h
      cases hx : Number.ofText? (c :: (numeral cs).1) with
      | some x =>
        simp only [hx] at h
        cases h
        simp
      | none =>
        simp only [hx] at h
        cases h
    split at h
    · cases h
      exact ofWord_ne_eof _
    · cases h

theorem kind_collect_ne_eof (line : Nat) (cs : List Char) :
    ∀ t ∈ collect token? line (divide cs), t.kind ≠ .eof := by
  fun_induction divide cs generalizing line with
  | case1 => simp [collect]
  | case2 c cs ih =>
    intro t ht
    rw [collect, List.mem_append] at ht
    rcases ht with ht | ht
    · rw [Option.mem_toList, token?] at ht
      cases hrole : (next c cs).1.role with
      | token kind literal =>
        rw [hrole] at ht
        cases ht
        exact kind_next_ne_eof hrole
      | blank | newline | comment | unterminated | unexpected =>
        rw [hrole] at ht
        cases ht
    · exact ih _ t ht

/-- The mark at the end is the last token and the only one of its kind. -/
theorem exists_items (source : String) : ∃ ts eof, (tokenize source).items = ts ++ [eof] ∧
    (∀ t ∈ ts, t.kind ≠ .eof) ∧ eof.kind = .eof := by
  rw [tokenize_eq]
  exact ⟨_, _, rfl, kind_collect_ne_eof 1 source.toList, rfl⟩

theorem exists_eof_mem_items (source : String) : ∃ t ∈ (tokenize source).items, t.kind = .eof := by
  obtain ⟨ts, eof, hitems, -, heof⟩ := exists_items source
  exact ⟨eof, by simp [hitems], heof⟩

/-! ## Two texts with a line feed between them -/

/-- Source texts are read line by line, faults included. If the first of two texts leaves no text in
quotes open, then with a line feed between them they have the tokens of the first, without the mark
at its end, and behind these the tokens of the second; and the faults of both. What comes from the
second text lies as many lines further down as the first one has. -/
theorem tokenize_lineByLine {source : String}
    (h : ∀ line, .unterminatedString line ∉ (tokenize source).errors) (after : String) :
    ∃ ts eof, (tokenize source).items = ts ++ [eof] ∧ (∀ t ∈ ts, t.kind ≠ .eof) ∧
      eof.kind = .eof ∧
      (tokenize (source ++ "\n" ++ after)).items =
        ts ++ (tokenize after).items.map (Token.raise (1 + source.toList.count '\n')) ∧
      (tokenize (source ++ "\n" ++ after)).errors = (tokenize source).errors ++
        (tokenize after).errors.map (Diagnostic.raise (1 + source.toList.count '\n')) := by
  obtain ⟨ts, eof, hitems, hts, heof⟩ := exists_items source
  have hjoined := tokenize_append_newline (not_unterminated_of_not_mem h) after rfl
  rw [hitems, List.dropLast_concat] at hjoined
  exact ⟨ts, eof, hitems, hts, heof, congrArg Tokens.items hjoined,
    congrArg Tokens.errors hjoined⟩

/-- A text over two lines, an unexpected character, a comment with a quote in it and a number whose
point is pending, in front of a text with a fault of each sort. -/
def pendingPoint : String := "\"a\nb\" # // \"\n! 12."

theorem pendingPoint_lineByLine :
    (∀ line, .unterminatedString line ∉ (tokenize pendingPoint).errors) ∧
    ∃ ts eof, (tokenize pendingPoint).items = ts ++ [eof] ∧ (∀ t ∈ ts, t.kind ≠ .eof) ∧
      eof.kind = .eof ∧
      (tokenize (pendingPoint ++ "\n" ++ "= 5 @ \"c\nd")).items =
        ts ++ (tokenize "= 5 @ \"c\nd").items.map
          (Token.raise (1 + pendingPoint.toList.count '\n')) ∧
      (tokenize (pendingPoint ++ "\n" ++ "= 5 @ \"c\nd")).errors =
        (tokenize pendingPoint).errors ++ (tokenize "= 5 @ \"c\nd").errors.map
          (Diagnostic.raise (1 + pendingPoint.toList.count '\n')) := by
  have herrors : (tokenize pendingPoint).errors = [.unexpectedCharacter 2 '#'] := by
    decide +kernel
  have hclosed : ∀ line, .unterminatedString line ∉ (tokenize pendingPoint).errors := by
    simp [herrors]
  exact ⟨hclosed, tokenize_lineByLine hclosed _⟩

end Sprog
