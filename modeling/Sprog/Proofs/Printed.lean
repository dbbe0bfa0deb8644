import Sprog.Proofs.Bits
import Sprog.Proofs.Digits
import Sprog.Proofs.Respacing

/-!
# Printed numbers

A finite number is printed as digits, with a minus sign in front of them if it has one. The digits
are read as the number without its sign, and the minus sign is an operator that gives the opposite
number. So a statement that prints the text of a number prints the same text again.

* `Number.text_of_isFinite`: the text of a finite number.
* `Segment.divide_printed`, `filterMap_token?_printed`: the statement as segments and as tokens.
* `ofSource_printed`, `eval_reading`: the statement that is read, and the value of its expression.
* `printed_readsBack`: the number comes back.
-/
namespace Sprog

open Number (infinityBits signBit shortest)

/-! ## The text of a finite number -/

namespace Number

/-- The bits of a number without its sign. -/
def magnitude (x : Float) : Nat := x.toBits.toNat % signBit

/-- The characters of a number without its sign. -/
def digits (x : Float) : List Char := (shortest (magnitude x)).chars

/-- The number without its sign. -/
def unsigned (x : Float) : Float := .ofBits (magnitude x).toUInt64

theorem magnitude_lt {x : Float} (h : x.isFinite = true) : magnitude x < infinityBits :=
  (eq_ofBits_of_isFinite h).1

theorem eq_unsigned {x : Float} (h : x.isFinite = true) :
    x = if x.toBits.toNat < signBit then unsigned x else -unsigned x :=
  (eq_ofBits_of_isFinite h).2

theorem text_of_isFinite {x : Float} (h : x.isFinite = true) :
    text x = (if x.toBits.toNat < signBit then "" else "-") ++ String.ofList (digits x) := by
  have hlt := magnitude_lt h
  unfold magnitude at hlt
  unfold text
  dsimp only
  rw [if_neg (by omega), if_neg (by omega)]
  rfl

theorem newline_not_mem_digits (x : Float) : '\n' ∉ digits x :=
  (shortest (magnitude x)).newline_not_mem_chars

end Number

open Number (digits unsigned magnitude_lt eq_unsigned text_of_isFinite newline_not_mem_digits)

/-! ## Segments -/

namespace Segment

/-- The digits of a number. -/
def digitsOf (x : Float) : Segment :=
  ⟨digits x, .token .number (some (.number (unsigned x)))⟩

theorem fits_digitsOf {x : Float} (h : x.isFinite = true) : Fits (digitsOf x) := by
  have hregular := (shortest (Number.magnitude x)).regular_chars
  rw [Number.nearest_shortest (magnitude_lt h)] at hregular
  exact .regular hregular

/-- The minus sign of a number, if it has one. -/
def minusOf (x : Float) : List Segment :=
  if x.toBits.toNat < signBit then [] else [⟨['-'], .token .minus none⟩]

/-- The keyword of a print statement. -/
def printWord : Segment := ⟨"skriv".toList, .token .printKw none⟩

def semicolon : Segment := ⟨[';'], .token .semicolon none⟩

theorem fits_printWord : Fits printWord := by
  have hcut : (next 's' "kriv".toList).1 = printWord := by decide +kernel
  exact hcut ▸ fits_next 's' "kriv".toList

theorem fits_semicolon : Fits semicolon := .regular (.sign (by decide))

theorem stops_semicolon : Stops ';' := ⟨by decide, by decide, by decide, by decide⟩

/-- The digits of a number in front of a semicolon. -/
theorem divide_digits {x : Float} (h : x.isFinite = true) :
    divide (digits x ++ [';']) = [digitsOf x, semicolon] := by
  have hends : ¬ GoesOn ';' (digitsOf x) := not_goesOn_of_isToken rfl ';'
  have hsemicolon : divide [';'] = [semicolon] := fits_semicolon.divide_eq
  exact ((fits_digitsOf h).divide_append stops_semicolon hends []).trans (hsemicolon ▸ rfl)

/-- A statement that prints a number. -/
def printed (x : Float) : List Segment :=
  printWord :: space :: (minusOf x ++ [digitsOf x, semicolon])

theorem divide_printed {x : Float} (h : x.isFinite = true) :
    divide ("skriv " ++ Number.text x ++ ";").toList = printed x := by
  have hchars : ("skriv " ++ Number.text x ++ ";").toList =
      printWord.text ++ ' ' :: ((minusOf x).flatMap text ++ (digits x ++ [';'])) := by
    simp only [text_of_isFinite h, String.toList_append, String.toList_ofList, List.append_assoc]
    unfold minusOf
    split <;> rfl
  rw [hchars, fits_printWord.divide_append_space rfl, printed, ← divide_digits h]
  unfold minusOf
  split
  · rfl
  · rw [List.flatMap_singleton, List.singleton_append, divide]
    rfl

end Segment

open Segment

/-! ## The statement that is read -/

/-- The keyword of the print statement. -/
def printToken : Token := ⟨.printKw, "skriv", none, 1⟩

def minusToken : Token := ⟨.minus, "-", none, 1⟩

/-- The digits of a number, on the first line. -/
def digitsToken (x : Float) : Token :=
  ⟨.number, String.ofList (digits x), some (.number (unsigned x)), 1⟩

/-- The tokens of a number. -/
def numberTokens (x : Float) : List Token :=
  if x.toBits.toNat < signBit then [digitsToken x] else [minusToken, digitsToken x]

/-- The expression that the text of a number is read as. -/
def reading (x : Float) : Expr :=
  let number := .constant (.number (unsigned x))
  if x.toBits.toNat < signBit then number else .unary .negate minusToken number

theorem expression_reading (x : Float) : Grammar.Expression (reading x) (numberTokens x) := by
  have hdigits : Grammar.OfExpr (.expr .unary (.constant (.number (unsigned x)))) [digitsToken x] :=
    .tighter rfl (.tighter rfl (.atom (.number .number rfl)))
  refine Grammar.OfExpr.of_unary ?_
  unfold reading numberTokens
  split
  · exact hdigits
  · exact .sign .negate hdigits

/-- The tokens of the statement. -/
def printedTokens (x : Float) : List Token :=
  printToken :: (numberTokens x ++ [⟨.semicolon, ";", none, 1⟩])

theorem program_printed (x : Float) :
    Grammar.Program [.print printToken (reading x)] (printedTokens x) := by
  have hprint : Grammar.OfStmt (.statement false (.print printToken (reading x)))
      (printedTokens x) := .print rfl (expression_reading x) rfl
  exact List.append_nil (printedTokens x) ▸ .cons (.statement hprint) .nil

theorem newline_not_mem_printed (x : Float) : ∀ s ∈ printed x, '\n' ∉ s.text := by
  have hword : '\n' ∉ printWord.text := by decide +kernel
  have hspace : '\n' ∉ space.text := by decide
  have hminus : ∀ s ∈ minusOf x, '\n' ∉ s.text := by
    unfold minusOf
    split
    · nofun
    · exact List.forall_mem_singleton.2 (by decide)
  have hends : ∀ s ∈ [digitsOf x, semicolon], '\n' ∉ s.text :=
    List.forall_mem_cons.2 ⟨newline_not_mem_digits x, List.forall_mem_singleton.2 (by decide)⟩
  exact List.forall_mem_cons.2 ⟨hword, List.forall_mem_cons.2 ⟨hspace,
    List.forall_mem_append.2 ⟨hminus, hends⟩⟩⟩

theorem filterMap_token?_printed (x : Float) :
    (printed x).filterMap (·.token? 1) = printedTokens x := by
  unfold printed minusOf printedTokens numberTokens
  split <;> rfl

theorem filterMap_fault?_printed (x : Float) : (printed x).filterMap (·.fault? 1) = [] := by
  unfold printed minusOf
  split <;> rfl

/-- The statement is a program. -/
theorem ofSource_printed {x : Float} (h : x.isFinite = true) :
    Program.ofSource ("skriv " ++ Number.text x ++ ";") = .ok [.print printToken (reading x)] := by
  have hline := newline_not_mem_printed x
  rw [← String.ofList_toList (s := "skriv " ++ Number.text x ++ ";"), ofSource_eq_ok_iff_collect,
    divide_printed h, collect_oneLine hline, collect_oneLine hline, filterMap_fault?_printed,
    filterMap_token?_printed]
  exact ⟨rfl, program_printed x⟩

/-- The value of the expression is the number. -/
theorem eval_reading {x : Float} (h : x.isFinite = true) (invoke : Invoke) (m : Machine) :
    eval invoke (reading x) m = .done (.number x) m := by
  conv => rhs; rw [eq_unsigned h]
  unfold reading
  split <;> rfl

/-! ## The number comes back -/

/-- A single print statement prints the value of its expression. -/
theorem execute_print {host : Host} {e : Expr} {v : Value} {m : Machine} {n : Nat}
    (h : eval (invoke host n) e m = .done v m) (keyword : Token) :
    Session.execute host n [.print keyword e] m = Eval.print keyword.line v m := by
  show Eval.bind (Eval.bind (eval (invoke host n) e) (Eval.print keyword.line))
    (fun _ => Eval.pure ()) m = _
  unfold Eval.bind
  rw [h]
  dsimp only
  cases Eval.print keyword.line v m <;> rfl

/-- On a sink without limits a print writes the text of the value and a line feed. -/
theorem print_of_room {m : Machine} (hm : m.sink.room = none) (line : Nat) (v : Value) :
    Eval.print line v m =
      .done () { m with sink := ⟨m.sink.written ++ (v.shown ++ "\n").toUTF8, none⟩ } := by
  unfold Eval.print Sink.write
  rw [hm]

/-- The text of a number without a sign is one token. -/
theorem tokenize_text {x : Float} (h : x.isFinite = true) (hsign : x.toBits.toNat < signBit) :
    tokenize (Number.text x) =
      ⟨[⟨.number, Number.text x, some (.number x), 1⟩, .eof 1], []⟩ := by
  have htext : Number.text x = String.ofList (digits x) := by
    rw [text_of_isFinite h, if_pos hsign, String.empty_append]
  have hvalue : digitsOf x = ⟨digits x, .token .number (some (.number x))⟩ := by
    have hunsigned := eq_unsigned h
    rw [if_pos hsign] at hunsigned
    rw [digitsOf, ← hunsigned]
  have hdivide : divide (digits x) = [digitsOf x] := (fits_digitsOf h).divide_eq
  have hline : ∀ s ∈ [digitsOf x], '\n' ∉ s.text :=
    List.forall_mem_singleton.2 (newline_not_mem_digits x)
  rw [htext, tokenize_eq, String.toList_ofList, hdivide, collect_oneLine hline,
    collect_oneLine hline, List.count_eq_zero.2 (newline_not_mem_digits x), hvalue]
  rfl

/-- A finite number that is printed reads back as itself, also below zero and at the zero below
zero. A statement that prints the text of the number is a program, and the value of its expression
is that number, with the same bits; so running it prints the number again, which writes the same
text and a line feed. Where the number has no minus sign, its text is a single token with this
value. -/
theorem printed_readsBack {x : Float} (h : x.isFinite = true) :
    (∃ keyword e,
      Program.ofSource ("skriv " ++ (Value.number x).shown ++ ";") = .ok [.print keyword e] ∧
        ∀ invoke m, eval invoke e m = .done (.number x) m) ∧
    (∀ host n m, Session.run host n ("skriv " ++ (Value.number x).shown ++ ";") m =
      (Eval.print 1 (.number x) m).mapError Failure.runtime) ∧
    (∀ host n m, m.sink.room = none →
      Session.run host n ("skriv " ++ (Value.number x).shown ++ ";") m = .done () { m with
        sink := ⟨m.sink.written ++ ((Value.number x).shown ++ "\n").toUTF8, none⟩ }) ∧
    (x.toBits.toNat < signBit → tokenize (Value.number x).shown =
      ⟨[⟨.number, (Value.number x).shown, some (.number x), 1⟩, .eof 1], []⟩) := by
  have hrun (host : Host) (n : Nat) (m : Machine) :
      Session.run host n ("skriv " ++ (Value.number x).shown ++ ";") m =
        (Eval.print 1 (.number x) m).mapError Failure.runtime := by
    show Session.run host n ("skriv " ++ Number.text x ++ ";") m = _
    rw [run_of_ofSource (ofSource_printed h), execute_print (eval_reading h (invoke host n) m)]
    rfl
  refine ⟨⟨printToken, reading x, ofSource_printed h, eval_reading h⟩, hrun, fun host n m hm => ?_,
    tokenize_text h⟩
  rw [hrun, print_of_room hm]
  rfl

/-- A number with seventeen digits, and the zero below zero, whose text has a minus sign. -/
theorem sum_negativeZero_readsBack :
    (0.1 + 0.2 : Float).isFinite = true ∧ (0.1 + 0.2 : Float).toBits.toNat < signBit ∧
    tokenize "0.30000000000000004" =
      ⟨[⟨.number, "0.30000000000000004", some (.number (0.1 + 0.2)), 1⟩, .eof 1], []⟩ ∧
    (-0.0 : Float).isFinite = true ∧
    (∃ keyword e, Program.ofSource "skriv -0;" = .ok [.print keyword e] ∧
      ∀ invoke m, eval invoke e m = .done (.number (-0.0)) m) ∧
    (∀ host n m, Session.run host n "skriv -0;" m =
      (Eval.print 1 (.number (-0.0)) m).mapError Failure.runtime) ∧
    ∀ host n m, m.sink.room = none → Session.run host n "skriv -0;" m =
      .done () { m with sink := ⟨m.sink.written ++ "-0\n".toUTF8, none⟩ } := by
  have hsum : (0.1 + 0.2 : Float).isFinite = true := by decide +kernel
  have hsign : (0.1 + 0.2 : Float).toBits.toNat < signBit := by decide +kernel
  have hshown : (Value.number (0.1 + 0.2)).shown = "0.30000000000000004" := by decide +kernel
  have hzero : (-0.0 : Float).isFinite = true := by decide +kernel
  have hminus : (Value.number (-0.0)).shown = "-0" := by decide +kernel
  have hsource : "skriv " ++ (Value.number (-0.0)).shown ++ ";" = "skriv -0;" := by rw [hminus]; rfl
  have hline : (Value.number (-0.0)).shown ++ "\n" = "-0\n" := by rw [hminus]; rfl
  have htoken := (printed_readsBack hsum).2.2.2 hsign
  obtain ⟨hread, hrun, hwritten, -⟩ := printed_readsBack hzero
  rw [hshown] at htoken
  rw [hsource] at hread
  simp only [hsource] at hrun
  simp only [hsource, hline] at hwritten
  exact ⟨hsum, hsign, htoken, hzero, hread, hrun, hwritten⟩

end Sprog
