import Sprog.CommandLine
import Sprog.Proofs.Blanks
import Sprog.Proofs.Layout
import Sprog.Text.Typed

/-!
# The prompt and files

A text can be run as a file, as one program, or typed line by line at the prompt, where each line is
a program of its own. If every line is a program, the file is one too, and it has the statements of
the lines, on other lines. As long as no statement fails, both do the same.

What the editor does with the input is not known; it has to yield exactly the lines of the text
(`CommandLine.Editor.Yields`).

* `Text.lined`: a text is its lines, with line feeds between them.
* `prompted_lines`: the lines at the prompt do what the whole text does as one program.
* `run_prompt_file`: the same of the command line.
-/
namespace Sprog

/-! ## The lines of a text -/

namespace Text

/-- The text consists of these lines: each ends with a line feed, except that the last one may do
without. -/
inductive Lined : List Char → List (List Char) → Prop where
  | nil : Lined [] []
  | last (line : List Char) : Lined line [line]
  | cons (line : List Char) {cs : List Char} {rest : List (List Char)} : Lined cs rest →
      Lined (line ++ '\n' :: cs) (line :: rest)

theorem lined (cs : List Char) : Lined cs (lines cs) := by
  induction cs with
  | nil => exact .nil
  | cons c cs ih =>
    unfold lines
    split
    · rename_i hnewline
      exact hnewline ▸ .cons [] ih
    · generalize lines cs = ls at ih
      cases ih with
      | nil => exact .last [c]
      | last => exact .last (c :: cs)
      | cons line h => exact .cons (c :: line) h

/-- The text without the carriage returns that stand directly before a line feed. -/
def withoutReturns : List Char → List Char
  | '\r' :: '\n' :: cs => '\n' :: withoutReturns cs
  | c :: cs => c :: withoutReturns cs
  | [] => []

/-- The lines are the same up to a carriage return at their end. -/
def SameLines (ls ls' : List (List Char)) : Prop :=
  List.Forall₂ (fun line line' => line = line' ∨ line = line' ++ ['\r']) ls ls'

/-- Both texts have the same lines, up to a carriage return at their end. -/
theorem lines_withoutReturns (cs : List Char) :
    SameLines (lines cs) (lines (withoutReturns cs)) := by
  fun_induction withoutReturns cs with
  | case1 cs ih => exact .cons (.inr rfl) ih
  | case2 c cs _ ih =>
    unfold lines
    split
    · exact .cons (.inl rfl) ih
    · generalize lines cs = ls, lines (withoutReturns cs) = ls' at ih
      cases ih with
      | nil => exact .cons (.inl rfl) .nil
      | cons hline hrest =>
        refine .cons ?_ hrest
        rcases hline with rfl | rfl
        · exact .inl rfl
        · exact .inr rfl
  | case3 => exact .nil

theorem exists_mem_withoutReturns {cs line : List Char} (h : line ∈ lines cs) :
    ∃ line' ∈ lines (withoutReturns cs), line = line' ∨ line = line' ++ ['\r'] := by
  have hall := lines_withoutReturns cs
  generalize lines cs = ls, lines (withoutReturns cs) = ls' at h hall
  induction hall with
  | nil => cases h
  | cons hfirst _ ih =>
    rcases List.mem_cons.1 h with rfl | h
    · exact ⟨_, List.mem_cons_self, hfirst⟩
    · obtain ⟨line', hmem, hsame⟩ := ih h
      exact ⟨line', List.mem_cons_of_mem _ hmem, hsame⟩

end Text

open Text

/-! ## Lines at the prompt -/

/-- What the prompt does with a text that runs in this way as one program: nothing is reported if it
succeeds, and there is no end if it has none. What follows a failure is not said. -/
inductive Prompted : Outcome Failure Unit → Option (Machine × String) → Prop where
  | done {m m' : Machine} : m.unplaced = m'.unplaced → Prompted (.done () m) (some (m', ""))
  | failed {f : Failure} {m : Machine} {r : Option (Machine × String)} :
      Prompted (.failed f m) r
  | exhausted : Prompted .exhausted none

theorem Prompted.of_sameWords {x y : Outcome Failure Unit} {r : Option (Machine × String)}
    (h : x.SameWords y) (hy : Prompted y r) : Prompted x r := by
  cases h with
  | done hm =>
    cases hy with
    | done hm' => exact .done (hm.trans hm')
  | failed => exact .failed
  | exhausted => exact hy

section
variable {n : Nat} {m m' : Machine}

/-- One line, which is a program. -/
theorem prompted_line {line : List Char} {ss : List Stmt}
    (h : Program.ofSource (String.ofList line) = .ok ss) (hm : m.unplaced = m'.unplaced) :
    Prompted (Session.run .bare n (String.ofList line) m) (CommandLine.runLine n m' line) := by
  have hsource : Program.ofSource (CommandLine.source line) = .ok ss := ofSource_trimEnd h
  have hsame := execute_sameWords Host.blind_bare (rfl : Stmt.mapAll Token.unplaced ss = _) hm n
  rw [CommandLine.runLine, run_of_ofSource h, run_of_ofSource hsource]
  generalize (Session.execute .bare n ss m).mapError Failure.runtime = x,
    (Session.execute .bare n ss m').mapError Failure.runtime = y at hsame
  cases hsame with
  | done hm => exact .done hm
  | failed => exact .failed
  | exhausted => exact .exhausted

/-- A line, and then more lines unless it fails. -/
theorem Prompted.andThen {x : Outcome Failure Unit} {line : List Char} {rest : List (List Char)}
    (h : Prompted x (CommandLine.runLine n m' line)) {next : Machine → Outcome Failure Unit}
    (hnext : ∀ out out', out.unplaced = out'.unplaced →
      Prompted (next out) (CommandLine.runLines n out' rest)) :
    Prompted (x.andThen next) (CommandLine.runLines n m' (line :: rest)) := by
  rw [CommandLine.runLines]
  generalize CommandLine.runLine n m' line = r at h
  cases h with
  | @done out out' hout =>
    have hlater := hnext out out' hout
    show Prompted (next out)
      ((CommandLine.runLines n out' rest).bind fun later => some (later.1, "" ++ later.2))
    generalize next out = y, CommandLine.runLines n out' rest = r at hlater
    cases hlater with
    | done hm => exact .done hm
    | failed => exact .failed
    | exhausted => exact .exhausted
  | failed => exact .failed
  | exhausted => exact .exhausted

theorem Outcome.andThen_done {ε : Type} (x : Outcome ε Unit) : x.andThen (.done ()) = x := by
  cases x <;> rfl

/-- Two programs with a line feed between them are a program, and have the same statements up to
lines. -/
theorem exists_ofSource_append {line cs : List Char} {ss₁ ss₂ : List Stmt}
    (h₁ : Program.ofSource (String.ofList line) = .ok ss₁)
    (h₂ : Program.ofSource (String.ofList cs) = .ok ss₂) :
    ∃ ss, Stmt.mapAll Token.unplaced ss = Stmt.mapAll Token.unplaced ss₂ ∧
      Program.ofSource (String.ofList (line ++ '\n' :: cs)) = .ok (ss₁ ++ ss) := by
  have htext :
      String.ofList (line ++ '\n' :: cs) = String.ofList line ++ "\n" ++ String.ofList cs := by
    rw [← String.toList_inj]
    simp
  have hsame := Stmt.mapAll_mapAll (Token.raise (1 + (String.ofList line).toList.count '\n'))
    Token.unplaced ss₂
  exact ⟨_, hsame, htext ▸ ofSource_append_newline h₁ h₂⟩

/-- The lines that a text consists of. -/
theorem prompted_lines {cs : List Char} {ls : List (List Char)} (hlined : Lined cs ls)
    (hprograms : ∀ line ∈ ls, ∃ ss, Program.ofSource (String.ofList line) = .ok ss) :
    (∃ ss, Program.ofSource (String.ofList cs) = .ok ss) ∧
      ∀ n m m', m.unplaced = m'.unplaced →
        Prompted (Session.run .bare n (String.ofList cs) m) (CommandLine.runLines n m' ls) := by
  induction hlined with
  | nil =>
    have hnone : Program.ofSource (String.ofList []) = .ok [] :=
      ofSource_eq_ok_iff_collect.2 (by rw [Segment.divide]; exact ⟨rfl, .nil⟩)
    exact ⟨⟨_, hnone⟩, fun n m m' hm => by rw [run_of_ofSource hnone]; exact .done hm⟩
  | last line =>
    obtain ⟨ss, hss⟩ := hprograms line List.mem_cons_self
    refine ⟨⟨ss, hss⟩, fun n m m' hm => ?_⟩
    rw [← Outcome.andThen_done (Session.run .bare n (String.ofList line) m)]
    exact (prompted_line hss hm).andThen fun _ _ hout => .done hout
  | @cons line cs rest _ ih =>
    obtain ⟨hline, hrest⟩ := List.forall_mem_cons.1 hprograms
    obtain ⟨ss₁, h₁⟩ := hline
    obtain ⟨⟨ss₂, h₂⟩, hprompted⟩ := ih hrest
    obtain ⟨ss, hsame, hwhole⟩ := exists_ofSource_append h₁ h₂
    refine ⟨⟨_, hwhole⟩, fun n m m' hm => ?_⟩
    have hfirst := prompted_line (n := n) h₁ hm
    rw [run_of_ofSource hwhole, Session.execute, execAll_append, mapError_bind]
    rw [run_of_ofSource h₁] at hfirst
    refine hfirst.andThen fun out out' hout => ?_
    have hsecond := hprompted n out out' hout
    rw [run_of_ofSource h₂] at hsecond
    exact hsecond.of_sameWords (execute_sameWords Host.blind_bare hsame rfl n)

end

/-! ## The command line -/

/-- The editor yields exactly the lines of the text, divided at the line feeds. It may or may not
keep a carriage return directly before a line feed. -/
def CommandLine.Editor.Yields (editor : Editor) (text : String) : Prop :=
  SameLines (editor text) (lines (withoutReturns text.toList))

theorem Text.SameLines.map_source {ls ls' : List (List Char)} (h : SameLines ls ls') :
    ls.map CommandLine.source = ls'.map CommandLine.source := by
  induction h with
  | nil => rfl
  | cons hline _ ih =>
    rw [List.map_cons, List.map_cons, ih]
    rcases hline with rfl | rfl
    · rfl
    · rw [CommandLine.source, trimEnd_append_singleton, if_pos (by decide)]
      rfl

/-- Only what the lines stand for counts. -/
theorem runLines_congr {ls ls' : List (List Char)}
    (h : ls.map CommandLine.source = ls'.map CommandLine.source) (n : Nat) (m : Machine) :
    CommandLine.runLines n m ls = CommandLine.runLines n m ls' := by
  induction ls generalizing ls' m with
  | nil => rw [List.map_eq_nil_iff.1 h.symm]
  | cons line ls ih =>
    obtain ⟨line', ls', rfl, hline, hrest⟩ := List.map_eq_cons_iff.1 h.symm
    have hfirst : CommandLine.runLine n m line = CommandLine.runLine n m line' := by
      rw [CommandLine.runLine, CommandLine.runLine, hline]
    simp only [CommandLine.runLines, hfirst, fun m => ih hrest.symm m]

/-- The prompt with the lines of a text. -/
theorem prompted_text {text : String}
    (hprograms : ∀ line ∈ lines (withoutReturns text.toList),
      ∃ ss, Program.ofSource (String.ofList line) = .ok ss) {editor : CommandLine.Editor}
    (heditor : editor.Yields text) (n : Nat) (m : Machine) :
    (∃ ss, Program.ofSource text = .ok ss) ∧
      Prompted (Session.run .bare n text m) (CommandLine.runLines n m (editor text)) := by
  have hlines : ∀ line ∈ lines text.toList,
      ∃ ss, Program.ofSource (String.ofList line) = .ok ss := by
    intro line hline
    obtain ⟨line', hline', hsame⟩ := exists_mem_withoutReturns hline
    obtain ⟨ss, hss⟩ := hprograms line' hline'
    rcases hsame with rfl | rfl
    · exact ⟨ss, hss⟩
    · exact ⟨ss, ofSource_append_return hss⟩
  have hsource :
      (editor text).map CommandLine.source = (lines text.toList).map CommandLine.source :=
    heditor.map_source.trans (SameLines.map_source (lines_withoutReturns text.toList)).symm
  have hall := prompted_lines (lined text.toList) hlines
  rw [String.ofList_toList] at hall
  rw [runLines_congr hsource]
  exact ⟨hall.1, hall.2 n m m rfl⟩

theorem runFile_of_toUTF8 (n : Nat) (m : Machine) (text : String) :
    CommandLine.runFile n m (some text.toUTF8) = CommandLine.runText n m text := by
  have hvalid : String.fromUTF8? text.toUTF8 = some text := dif_pos text.isValidUTF8
  rw [CommandLine.runFile, Option.bind_some, hvalid]

/-- Let a file hold a text each of whose lines, divided at the line feeds and without a carriage
return directly before them, is a program by itself, and let the editor yield exactly the lines of
the same text to the prompt. If the run of the file ends without a runtime fault, then it succeeds,
nothing is reported, and the prompt leaves the same behind; if the one does not end, neither does
the other. White space at the end of a program does not change what it means. -/
theorem run_prompt_file {text : String} {files : Files} {path : String}
    (hfile : files.read? path = some text.toUTF8)
    (hprograms : ∀ line ∈ Text.lines (Text.withoutReturns text.toList),
      ∃ ss, Program.ofSource (String.ofList line) = .ok ss)
    {editor : CommandLine.Editor} (heditor : editor.Yields text)
    (n : Nat) (clock : Clock) (input : String) (files' : Files) :
    (∀ r, CommandLine.run editor n clock [path] files input = some r → r.status ≠ .software →
      r.status.code = 0 ∧ r.errors = "" ∧ CommandLine.run editor n clock [] files' text = some r) ∧
    (CommandLine.run editor n clock [path] files input = none →
      CommandLine.run editor n clock [] files' text = none) ∧
    ∀ line ss, Program.ofSource (String.ofList line) = .ok ss →
      Program.ofSource (String.ofList (Text.trimEnd line)) = .ok ss := by
  obtain ⟨⟨ss, hss⟩, hprompted⟩ := prompted_text hprograms heditor n (.start clock none)
  have hrun := run_of_ofSource hss .bare n (.start clock none)
  simp only [CommandLine.run, hfile, runFile_of_toUTF8, CommandLine.runText, CommandLine.prompt]
  rw [hrun] at hprompted ⊢
  generalize CommandLine.runLines n _ _ = r at hprompted
  generalize Session.execute .bare n ss _ = x at hprompted
  refine ⟨?_, ?_, fun _ _ => ofSource_trimEnd⟩
  · intro report hreport hstatus
    cases x with
    | done _ out =>
      cases hreport
      cases hprompted with
      | @done _ out' hout =>
        have hwritten : out'.sink.written = out.sink.written :=
          congrArg (·.sink.written) hout.symm
        exact ⟨rfl, rfl, by rw [← hwritten]; rfl⟩
    | failed fault out =>
      cases hreport
      exact absurd rfl hstatus
    | exhausted => cases hreport
  · intro hnone
    cases x with
    | done => cases hnone
    | failed => cases hnone
    | exhausted =>
      cases hprompted
      rfl

/-- A function that is written on one line and called on another, carriage returns, and white space
in a comment. -/
def greetsOverLines : String :=
  "gøremål f(x)\x7bskriv x;\x7d//\u2003\r\nf(\"hej\");\t\r\nskriv f;"

theorem greetsOverLines_prompt_file :
    ∃ r, CommandLine.run typedLines 1 (.fixed 0) ["p"] [("p", greetsOverLines.toUTF8)] "" = some r ∧
      r.status.code = 0 ∧ r.errors = "" ∧ r.output = "hej\n<gøremål f>\n".toUTF8 ∧
      CommandLine.run typedLines 1 (.fixed 0) [] [] greetsOverLines = some r := by
  have hfile : Files.read? [("p", greetsOverLines.toUTF8)] "p" =
      some greetsOverLines.toUTF8 := by decide +kernel
  have hprograms : ∀ line ∈ lines (withoutReturns greetsOverLines.toList),
      (Program.ofSource (String.ofList line)).toBool = true := by decide +kernel
  have hplain : ∀ line ∈ lines greetsOverLines.toList, backspace ∉ line := by decide +kernel
  have heditor : CommandLine.Editor.Yields typedLines greetsOverLines := by
    have hall : typedLines greetsOverLines = lines greetsOverLines.toList :=
      (List.map_congr_left fun line h => typed_of_not_mem line (hplain line h)).trans
        (List.map_id _)
    rw [CommandLine.Editor.Yields, hall]
    exact lines_withoutReturns _
  have hruns :
      (CommandLine.run typedLines 1 (.fixed 0) ["p"] [("p", greetsOverLines.toUTF8)] "").any
        (fun r => r.status ≠ .software && r.output = "hej\n<gøremål f>\n".toUTF8) = true := by
    decide +kernel
  obtain ⟨r, hr, hends⟩ := (Option.any_eq_true _ _).1 hruns
  obtain ⟨hstatus, houtput⟩ := Bool.and_eq_true_iff.1 hends
  have hboth := run_prompt_file hfile (fun line h => exists_of_toBool (hprograms line h))
    heditor 1 (.fixed 0) "" []
  obtain ⟨hcode, herrors, hprompt⟩ := hboth.1 r hr (of_decide_eq_true hstatus)
  exact ⟨r, hr, hcode, herrors, of_decide_eq_true houtput, hprompt⟩

end Sprog
