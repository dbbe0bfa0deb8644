import Sprog.Proofs.Acceptance
import Sprog.Proofs.Lines
import Sprog.Proofs.Renaming
import Sprog.Session

/-!
# Cutting a source text between two lines

Two source texts that are programs by themselves, one behind the other with a line feed between
them, are a program too, with the statements of both: no text in quotes is left open at the end of
the first one, and a program followed by a program is a program. To run them as one is to run the
first, and then, unless that failed, the second with as many empty lines in front of it as keep its
lines where they are.

* `ofSource_eq_ok_iff`: which source texts are programs, by their tokens.
* `ofSource_newlines_append`, `ofSource_append_newline`: the two ways to put the second text.
* `execAll_append`: statements behind statements.
* `run_append_newline`: one run or two.
-/
namespace Sprog

open Grammar

/-! ## Source texts that are programs -/

theorem sortedErrors_eq_nil_iff {lexical grammatical : List Diagnostic} :
    Program.sortedErrors lexical grammatical = [] ↔ lexical = [] ∧ grammatical = [] := by
  unfold Program.sortedErrors
  rw [← List.length_eq_zero_iff, List.length_mergeSort, List.length_eq_zero_iff,
    List.append_eq_nil_iff]

/-- A source text is a program if it has no lexical fault and its tokens are one. -/
theorem ofSource_eq_ok_iff {source : String} {ss : List Stmt} :
    Program.ofSource source = .ok ss ↔ (tokenize source).errors = [] ∧
      Grammar.Program ss (beforeEnd (tokenize source).items) := by
  rw [← parse_iff_program]
  rcases hp : parse (tokenize source).items with ⟨statements, errors⟩
  unfold Program.ofSource
  simp only [hp, ParseResult.mk.injEq]
  cases hs : Program.sortedErrors (tokenize source).errors errors with
  | nil =>
    obtain ⟨hlexical, rfl⟩ := sortedErrors_eq_nil_iff.1 hs
    simp [hlexical]
  | cons d ds =>
    have hne : ¬ ((tokenize source).errors = [] ∧ errors = []) := by
      rw [← sortedErrors_eq_nil_iff, hs]
      simp
    constructor
    · nofun
    · rintro ⟨hlexical, -, hgrammatical⟩
      exact absurd ⟨hlexical, hgrammatical⟩ hne

theorem keepsWords_raise (k : Nat) : KeepsWords (Token.raise k) := ⟨fun _ => rfl, fun _ => rfl⟩

/-- Empty lines in front of a program change the lines in its tree and nothing else. -/
theorem ofSource_newlines_append {source : String} {ss : List Stmt}
    (h : Program.ofSource source = .ok ss) (k : Nat) :
    Program.ofSource (String.ofList (List.replicate k '\n') ++ source) =
      .ok (Stmt.mapAll (Token.raise k) ss) := by
  obtain ⟨herrors, hprogram⟩ := ofSource_eq_ok_iff.1 h
  rw [ofSource_eq_ok_iff, tokenize_newlines_append, herrors,
    beforeEnd_map (keepsWords_raise k)]
  exact ⟨rfl, hprogram.map (keepsWords_raise k)⟩

/-- Two programs with a line feed between them are a program. -/
theorem ofSource_append_newline {s₁ s₂ : String} {ss₁ ss₂ : List Stmt}
    (h₁ : Program.ofSource s₁ = .ok ss₁) (h₂ : Program.ofSource s₂ = .ok ss₂) :
    Program.ofSource (s₁ ++ "\n" ++ s₂) =
      .ok (ss₁ ++ Stmt.mapAll (Token.raise (1 + s₁.toList.count '\n')) ss₂) := by
  obtain ⟨herrors₁, hprogram₁⟩ := ofSource_eq_ok_iff.1 h₁
  obtain ⟨herrors₂, hprogram₂⟩ := ofSource_eq_ok_iff.1 h₂
  obtain ⟨ts, eof, hitems, hts, heof⟩ := exists_items s₁
  have hfirst : beforeEnd (tokenize s₁).items = ts := by
    rw [hitems, beforeEnd_append hts]
    simp [beforeEnd, heof]
  rw [hfirst] at hprogram₁
  rw [ofSource_eq_ok_iff, tokenize_append_newline (not_unterminated_of_errors herrors₁) s₂ rfl,
    herrors₁, herrors₂, hitems, List.dropLast_concat, beforeEnd_append hts,
    beforeEnd_map (keepsWords_raise _)]
  exact ⟨rfl, hprogram₁.append (hprogram₂.map (keepsWords_raise _))⟩

/-! ## Running one part after the other -/

theorem Eval.bind_assoc {α β γ : Type} (x : Eval α) (f : α → Eval β) (g : β → Eval γ) :
    (x >>= f) >>= g = x >>= fun a => f a >>= g := by
  funext m
  show Eval.bind (Eval.bind x f) g m = Eval.bind x (fun a => Eval.bind (f a) g) m
  unfold Eval.bind
  cases x m <;> rfl

/-- Statements behind statements run after them, unless those fail. -/
theorem execAll_append (invoke : Invoke) (rounds : Nat) (xs ys : List Stmt) :
    execAll invoke rounds (xs ++ ys) =
      execAll invoke rounds xs >>= fun _ => execAll invoke rounds ys := by
  induction xs with
  | nil => rfl
  | cons s xs ih => rw [List.cons_append, execAll, execAll, ih, Eval.bind_assoc]

/-- A second step on the machine that the first one leaves, unless that failed. -/
def Outcome.andThen {ε : Type} (first : Outcome ε Unit) (second : Machine → Outcome ε Unit) :
    Outcome ε Unit :=
  match first with
  | .done () m => second m
  | .failed e m => .failed e m
  | .exhausted => .exhausted

theorem mapError_bind {x y : Eval Unit} (m : Machine) :
    ((x >>= fun _ => y) m).mapError Failure.runtime =
      ((x m).mapError Failure.runtime).andThen fun m => (y m).mapError Failure.runtime := by
  show (Eval.bind x (fun _ => y) m).mapError Failure.runtime = _
  unfold Eval.bind
  cases x m <;> rfl

theorem run_of_ofSource {source : String} {ss : List Stmt} (h : Program.ofSource source = .ok ss)
    (host : Host) (n : Nat) (m : Machine) :
    Session.run host n source m = (Session.execute host n ss m).mapError Failure.runtime := by
  simp only [Session.run, h]

/-- A source text can be cut between two lines into steps of a session. If both parts are programs,
so is the whole, and to run it is to run the first part and then, unless that failed, the second one
with its lines kept where they are: with the same text written, the same machine at the end and the
same fault, if any. -/
theorem run_append_newline {s₁ s₂ : String} {ss₁ ss₂ : List Stmt}
    (h₁ : Program.ofSource s₁ = .ok ss₁) (h₂ : Program.ofSource s₂ = .ok ss₂) (host : Host)
    (n : Nat) (m : Machine) :
    (∃ ss, Program.ofSource (s₁ ++ "\n" ++ s₂) = .ok ss) ∧
      Session.run host n (s₁ ++ "\n" ++ s₂) m = (Session.run host n s₁ m).andThen
        (Session.run host n
          (String.ofList (List.replicate (1 + s₁.toList.count '\n') '\n') ++ s₂)) := by
  have hwhole := ofSource_append_newline h₁ h₂
  have hsecond := ofSource_newlines_append h₂ (1 + s₁.toList.count '\n')
  refine ⟨⟨_, hwhole⟩, ?_⟩
  rw [run_of_ofSource hwhole, run_of_ofSource h₁, funext (run_of_ofSource hsecond host n)]
  unfold Session.execute
  rw [execAll_append, mapError_bind]

theorem exists_of_toBool {ε α : Type} {x : Except ε α} (h : x.toBool = true) :
    ∃ a, x = .ok a := by
  cases x with
  | ok a => exact ⟨a, rfl⟩
  | error e => cases h

/-- A text over two lines, a branch at the end of the first part, and a fault in the second one. -/
theorem run_append_newline_branch :
    (∃ ss, Program.ofSource "sæt a = \"x\ny\";\nhvis (a) skriv a;" = .ok ss) ∧
    (∃ ss, Program.ofSource "skriv a;\nb;" = .ok ss) ∧
    (∃ ss, Program.ofSource ("sæt a = \"x\ny\";\nhvis (a) skriv a;" ++ "\n" ++ "skriv a;\nb;") =
      .ok ss) ∧
    Session.run .bare 1 ("sæt a = \"x\ny\";\nhvis (a) skriv a;" ++ "\n" ++ "skriv a;\nb;")
        (Machine.start (.fixed 0) none) =
      (Session.run .bare 1 "sæt a = \"x\ny\";\nhvis (a) skriv a;"
          (Machine.start (.fixed 0) none)).andThen
        (Session.run .bare 1 ("\n\n\n" ++ "skriv a;\nb;")) := by
  obtain ⟨ss₁, h₁⟩ := exists_of_toBool
    (show (Program.ofSource "sæt a = \"x\ny\";\nhvis (a) skriv a;").toBool by decide +kernel)
  obtain ⟨ss₂, h₂⟩ := exists_of_toBool
    (show (Program.ofSource "skriv a;\nb;").toBool by decide +kernel)
  exact ⟨⟨ss₁, h₁⟩, ⟨ss₂, h₂⟩, run_append_newline h₁ h₂ .bare 1 _⟩

end Sprog
