import Sprog.Proofs.Conformity
import Sprog.Proofs.Discipline
import Sprog.Proofs.Seam
import Sprog.Proofs.Upheld

/-!
# Where faults point

Everything that is reported points at a place in a source text. A fault found before a run blames a
token of the text, its end included, or a line of it. A fault of a run blames a name, an operator, a
closing parenthesis or a print keyword of a program, and that need not be the program that fails: a
function keeps the tokens of the text that declared it, and may be called in any later step.

* `line_of_mem_items`, `line_of_mem_errors`: the lines of tokens and of lexical faults.
* `Session.Ran`: the machines of a session, with the source texts that were run.
* `Rules.ofSources`: what programs may contain if all their tokens come from given texts.
* `Ran.obeys`: everything that a machine holds comes from the texts of its session.
* `ran_pointsAtSource`: so does everything that is reported.
-/
namespace Sprog

open Segment

/-! ## Lines of a text -/

/-- The number of lines of a source text. -/
def lineCount (source : String) : Nat := 1 + source.toList.count '\n'

theorem le_endLine (line : Nat) (xs : List Segment) : line ≤ endLine line xs := by
  induction xs generalizing line with
  | nil => exact Nat.le_refl line
  | cons s xs ih =>
    have hrest : s.endsOn line ≤ endLine line (s :: xs) := ih _
    unfold endsOn at hrest
    omega

/-- What segments give lies between the line where the first one starts and the one where the last
one ends. -/
theorem exists_of_mem_collect {α : Type} {f : Segment → Nat → Option α} {line : Nat}
    {xs : List Segment} {a : α} (h : a ∈ collect f line xs) :
    ∃ s l, f s l = some a ∧ line ≤ l ∧ l ≤ endLine line xs := by
  induction xs generalizing line with
  | nil => cases h
  | cons s xs ih =>
    have hstart : line ≤ s.endsOn line := Nat.le_add_right ..
    rcases List.mem_append.1 h with hfirst | hrest
    · exact ⟨s, s.endsOn line, Option.mem_toList.1 hfirst, hstart, le_endLine _ xs⟩
    · obtain ⟨s', l, hf, hle, hend⟩ := ih hrest
      exact ⟨s', l, hf, Nat.le_trans hstart hle, hend⟩

theorem line_of_token? {s : Segment} {line : Nat} {t : Token} (h : s.token? line = some t) :
    t.line = line := by
  unfold token? at h
  cases hrole : s.role <;> rw [hrole] at h <;> cases h
  rfl

theorem line_of_fault? {s : Segment} {line : Nat} {d : Diagnostic} (h : s.fault? line = some d) :
    d.isLexical ∧ d.line = line := by
  unfold fault? at h
  cases hrole : s.role <;> rw [hrole] at h <;> cases h <;> exact ⟨rfl, rfl⟩

/-- A token, the mark at the end included, lies on a line of its text. -/
theorem line_of_mem_items {source : String} {t : Token} (h : t ∈ (tokenize source).items) :
    1 ≤ t.line ∧ t.line ≤ lineCount source := by
  rw [tokenize_eq] at h
  rcases List.mem_append.1 h with h | h
  · obtain ⟨s, line, ht, hle, hend⟩ := exists_of_mem_collect h
    rw [endLine_divide] at hend
    rw [line_of_token? ht]
    exact ⟨hle, hend⟩
  · cases List.mem_singleton.1 h
    exact ⟨Nat.le_add_right .., Nat.le_refl _⟩

/-- A lexical fault lies on a line of its text. -/
theorem line_of_mem_errors {source : String} {d : Diagnostic}
    (h : d ∈ (tokenize source).errors) :
    d.isLexical ∧ 1 ≤ d.line ∧ d.line ≤ lineCount source := by
  rw [tokenize_eq] at h
  obtain ⟨s, line, hd, hle, hend⟩ := exists_of_mem_collect h
  rw [endLine_divide] at hend
  obtain ⟨hlexical, hline⟩ := line_of_fault? hd
  rw [hline]
  exact ⟨hlexical, hle, hend⟩

/-! ## Faults found before a run -/

/-- The fault blames a token of the text, or it is lexical and blames a line of it. -/
def Diagnostic.PointsAt (source : String) (d : Diagnostic) : Prop :=
  match d.token? with
  | some t => t ∈ (tokenize source).items
  | none => d.isLexical ∧ 1 ≤ d.line ∧ d.line ≤ lineCount source

theorem Diagnostic.line_eq_of_token? {d : Diagnostic} {t : Token} (h : d.token? = some t) :
    d.line = t.line := by
  cases d <;> cases h <;> rfl

theorem Diagnostic.PointsAt.line {source : String} {d : Diagnostic} (h : d.PointsAt source) :
    1 ≤ d.line ∧ d.line ≤ lineCount source := by
  unfold PointsAt at h
  split at h
  · rename_i t ht
    rw [line_eq_of_token? ht]
    exact line_of_mem_items h
  · exact h.2

theorem pointsAt_of_ofSource {source : String} {errors : List Diagnostic}
    (h : Program.ofSource source = .error errors) : ∀ d ∈ errors, d.PointsAt source := by
  intro d hd
  have hall : errors = Program.sortedErrors (tokenize source).errors
      (parse (tokenize source).items).errors := by
    unfold Program.ofSource at h
    dsimp only at h
    split at h <;> cases h
    rfl
  rw [hall, Program.sortedErrors, List.mem_mergeSort, List.mem_append] at hd
  unfold Diagnostic.PointsAt
  rcases hd with hlexical | hgrammatical
  · obtain ⟨hlexical, hline⟩ := line_of_mem_errors hlexical
    cases d with
    | unexpectedCharacter | unterminatedString => exact ⟨rfl, hline⟩
    | unexpectedToken | invalidAssignmentTarget => cases hlexical
  · obtain ⟨t, ht, htoken⟩ := exists_token_of_parse (exists_eof_mem_items source) hgrammatical
    rw [htoken]
    exact ht

/-! ## What programs are made of -/

/-- The token is one of a program among the source texts. -/
def writtenIn (sources : List String) (t : Token) : Bool :=
  sources.any fun source => (Program.ofSource source).toBool && decide (t ∈ (tokenize source).items)

/-- What programs may contain if all their tokens come from programs among the source texts, and no
function of the host is there but those of the start. -/
def Rules.ofSources (sources : List String) : Rules where
  operator t := writtenIn sources t && t.kind.isOperator
  read t := writtenIn sources t && t.kind == .identifier
  assigned t := writtenIn sources t && t.kind == .identifier
  closing t := writtenIn sources t && t.kind == .rightParen
  keyword t := writtenIn sources t && t.kind == .printKw
  declared _ := true
  loops := true
  native f := decide (f ∈ Machine.builtins)

theorem exists_of_writtenIn {sources : List String} {t : Token} (h : writtenIn sources t = true) :
    ∃ source ∈ sources, (∃ ss, Program.ofSource source = .ok ss) ∧
      t ∈ (tokenize source).items := by
  obtain ⟨source, hmem, hboth⟩ := List.any_eq_true.1 h
  obtain ⟨hprogram, ht⟩ := Bool.and_eq_true_iff.1 hboth
  exact ⟨source, hmem, exists_of_toBool hprogram, of_decide_eq_true ht⟩

/-- A program among the source texts is made of their tokens. -/
theorem obeys_ofSources {sources : List String} {source : String} (hmem : source ∈ sources)
    {ss : List Stmt} (h : Program.ofSource source = .ok ss) :
    Stmt.obeysAll (.ofSources sources) false ss := by
  have hwritten {t : Token} (ht : t ∈ beforeEnd (tokenize source).items) :
      writtenIn sources t = true := by
    have hitem : t ∈ (tokenize source).items := (List.takeWhile_sublist _).subset ht
    exact List.any_eq_true.2 ⟨source, hmem, by simp [h, Except.toBool, hitem]⟩
  have hallow : (Rules.ofSources sources).Allow (beforeEnd (tokenize source).items) := by
    refine ⟨?_, ?_, ?_, ?_, ?_, rfl⟩ <;> intro t ht hk <;> simp [Rules.ofSources, hwritten ht, hk]
  exact (ofSource_eq_ok_iff.1 h).2.obeys hallow false fun _ _ _ _ => rfl

theorem uphold_ofSources (sources : List String) :
    (Rules.ofSources sources).Uphold fun _ => True where
  assign _ _ _ _ := trivial
  define _ _ _ _ := trivial
  declare _ _ _ := trivial
  push _ _ _ := trivial
  pop _ _ _ := trivial

/-- A function of the start answers with the time, whatever the host. -/
theorem Host.obeys_ofSources (host : Host) (sources : List String) (J : Environment → Prop) :
    host.Obeys (.ofSources sources) J := by
  intro f args hf _ i _ m hm
  have hmem : f ∈ Machine.builtins := of_decide_eq_true hf
  cases List.mem_singleton.1 hmem
  exact .done rfl { hm with }

/-! ## Sessions -/

/-- The machines of a session that only runs source texts, with these texts, the last one first.
Some of them may not be programs, and some may have failed. -/
inductive Session.Ran (host : Host) : List String → Machine → Prop where
  | start (clock : Clock) (room : Option Nat) : Ran host [] (.start clock room)
  | run {sources : List String} {m m' : Machine} (n : Nat) (source : String) :
      Ran host sources m → (Session.run host n source m).machine? = some m' →
        Ran host (source :: sources) m'

/-- What a machine with tokens of the given texts holds. -/
abbrev Machine.MadeOf (sources : List String) (m : Machine) : Prop :=
  m.Obeys (.ofSources sources) (fun _ => True) ⟨0, 0⟩

section
variable {host : Host} {sources : List String} {source : String} {m : Machine}

variable (host) in
/-- A source text that is a program keeps to what the texts allow that it is among. -/
theorem Session.execute_obeys (hmem : source ∈ sources) (hm : m.MadeOf sources) (n : Nat)
    {ss : List Stmt} (h : Program.ofSource source = .ok ss) :
    (execute host n ss m).Obeys (.ofSources sources) (fun _ => True) ⟨0, 0⟩
      ((Rules.ofSources sources).loops = true ∨ n + 0 < Eval.callLimit) :=
  obeys_execute (uphold_ofSources sources) (host.obeys_ofSources sources _) n hm
    (obeys_ofSources hmem h)

theorem Session.madeOf_run (hmem : source ∈ sources) (hm : m.MadeOf sources) {n : Nat}
    {m' : Machine} (hrun : (run host n source m).machine? = some m') : m'.MadeOf sources := by
  unfold run at hrun
  split at hrun
  · cases hrun
    exact hm
  · rename_i ss hss
    have hends := execute_obeys host hmem hm n hss
    generalize execute host n ss m = o at hends hrun
    cases hends with
    | done _ hm' | failed _ hm' => cases hrun; exact hm'
    | exhausted => cases hrun

theorem Session.obeys_fault_run (hmem : source ∈ sources) (hm : m.MadeOf sources) {n : Nat}
    {f : Fault} {m' : Machine} (hrun : run host n source m = .failed (.runtime f) m') :
    f.Obeys (.ofSources sources) := by
  unfold run at hrun
  split at hrun
  · cases hrun
  · rename_i ss hss
    have hends := execute_obeys host hmem hm n hss
    generalize execute host n ss m = o at hends hrun
    cases hends with
    | failed hf _ => cases hrun; exact hf
    | done | exhausted => cases hrun

end

/-- Whatever a machine holds is made of the texts that were run, and so of any texts that these are
among. -/
theorem Session.Ran.obeys {host : Host} {sources : List String} {m : Machine}
    (h : Ran host sources m)
    {all : List String} (hsub : sources ⊆ all) : m.MadeOf all := by
  induction h with
  | start clock room =>
    refine ⟨?_, trivial, rfl, rfl, Nat.one_pos⟩
    have hempty : Environment.empty.allValues (Value.obeys (.ofSources all)) = true := by
      simp [Environment.allValues, Environment.empty, Scope.allValues]
    exact Environment.allValues_bind hempty 0 "Clock" rfl
  | run n source _ hrun ih =>
    obtain ⟨hfirst, hrest⟩ := List.cons_subset.1 hsub
    exact Session.madeOf_run hfirst (ih hrest) hrun

/-! ## Everything that is reported -/

/-- What a fault of a run points at: the token that it blames, or one on the line that it names. -/
def Fault.Marks (t : Token) : Fault → Prop
  | undefinedVariable name => name = t ∧ t.kind = .identifier
  | operandNotNumber op | operandsNotNumbers op | operandsNotNumbersOrTexts op =>
    op = t ∧ t.kind.isOperator
  | notCallable line _ | wrongArgumentCount line _ _ | stackOverflow line =>
    t.line = line ∧ t.kind = .rightParen
  | sinkFull line => t.line = line ∧ t.kind = .printKw

theorem Fault.Marks.line {f : Fault} {t : Token} (h : f.Marks t) : f.line = t.line := by
  cases f with
  | undefinedVariable | operandNotNumber | operandsNotNumbers | operandsNotNumbersOrTexts =>
    exact congrArg Token.line h.1
  | notCallable | wrongArgumentCount | stackOverflow | sinkFull => exact h.1.symm

/-- A fault that the rules allow points at a token of a program among the source texts. -/
theorem Fault.Obeys.exists_marks {sources : List String} {f : Fault}
    (h : f.Obeys (.ofSources sources)) :
    ∃ source ∈ sources, (∃ ss, Program.ofSource source = .ok ss) ∧
      ∃ t ∈ (tokenize source).items, f.Marks t := by
  have hfrom {t : Token} {k : Kind → Bool} (ht : (writtenIn sources t && k t.kind) = true)
      (hmarks : k t.kind = true → f.Marks t) : ∃ source ∈ sources,
        (∃ ss, Program.ofSource source = .ok ss) ∧ ∃ t ∈ (tokenize source).items, f.Marks t := by
    obtain ⟨hwritten, hk⟩ := Bool.and_eq_true_iff.1 ht
    obtain ⟨source, hmem, hprogram, hitem⟩ := exists_of_writtenIn hwritten
    exact ⟨source, hmem, hprogram, t, hitem, hmarks hk⟩
  cases f with
  | undefinedVariable name =>
    have hname : (writtenIn sources name && name.kind == .identifier) = true := h.elim id id
    exact hfrom (k := (· == .identifier)) hname fun hk => ⟨rfl, eq_of_beq hk⟩
  | operandNotNumber | operandsNotNumbers | operandsNotNumbersOrTexts =>
    exact hfrom h fun hk => ⟨rfl, hk⟩
  | notCallable | wrongArgumentCount | stackOverflow =>
    obtain ⟨t, ht, hline⟩ := h
    exact hfrom (k := (· == .rightParen)) ht fun hk => ⟨hline, eq_of_beq hk⟩
  | sinkFull =>
    obtain ⟨t, ht, hline⟩ := h
    exact hfrom (k := (· == .printKw)) ht fun hk => ⟨hline, eq_of_beq hk⟩

/-- The lines that a failure names. -/
def Failure.lines : Failure → List Nat
  | parse errors => errors.map Diagnostic.line
  | runtime fault => [fault.line]

/-- The largest number of lines of any of the source texts. -/
def mostLines (sources : List String) : Nat := (sources.map lineCount).foldr max 0

theorem lineCount_le_mostLines {sources : List String} {source : String} (h : source ∈ sources) :
    lineCount source ≤ mostLines sources := by
  induction sources with
  | nil => cases h
  | cons s sources ih =>
    have hcons : mostLines (s :: sources) = max (lineCount s) (mostLines sources) := rfl
    rcases List.mem_cons.1 h with rfl | h
    · omega
    · have := ih h
      omega

/-- In a session that runs source texts, everything that a step reports points at source text. The
faults of a text that is no program blame its tokens or its lines. The fault of a run marks a token
of its own text or of one of an earlier step, and that text is a program: an undefined variable and
an operation that fails carry the name or the operator itself, and a fault that only carries a line
carries that of a closing parenthesis or of a print keyword. So no line is reported that is not a
line of some text of the session. -/
theorem ran_pointsAtSource {host : Host} {sources : List String} {m : Machine}
    (h : Session.Ran host sources m) (n : Nat) (source : String) :
    (∀ errors m', Session.run host n source m = .failed (.parse errors) m' →
      ∀ d ∈ errors, d.PointsAt source) ∧
    (∀ f m', Session.run host n source m = .failed (.runtime f) m' →
      ∃ origin ∈ source :: sources, (∃ ss, Program.ofSource origin = .ok ss) ∧
        ∃ t ∈ (tokenize origin).items, f.Marks t) ∧
    ∀ failure m', Session.run host n source m = .failed failure m' →
      ∀ line ∈ failure.lines, 1 ≤ line ∧ line ≤ mostLines (source :: sources) := by
  have hparse : ∀ errors m', Session.run host n source m = .failed (.parse errors) m' →
      ∀ d ∈ errors, d.PointsAt source := fun errors m' hrun =>
    pointsAt_of_ofSource (run_eq_parse hrun).2
  have hmade : m.MadeOf (source :: sources) := h.obeys (List.subset_cons_self source sources)
  have hruntime := fun f m' (hrun : Session.run host n source m = .failed (.runtime f) m') =>
    (Session.obeys_fault_run List.mem_cons_self hmade hrun).exists_marks
  refine ⟨hparse, hruntime, ?_⟩
  intro failure m' hrun line hline
  cases failure with
  | parse errors =>
    obtain ⟨d, hd, rfl⟩ := List.mem_map.1 hline
    obtain ⟨hpos, hle⟩ := (hparse errors m' hrun d hd).line
    exact ⟨hpos, Nat.le_trans hle (lineCount_le_mostLines List.mem_cons_self)⟩
  | runtime f =>
    cases List.mem_singleton.1 hline
    obtain ⟨origin, hmem, -, t, ht, hmarks⟩ := hruntime f m' hrun
    obtain ⟨hpos, hle⟩ := line_of_mem_items ht
    rw [hmarks.line]
    exact ⟨hpos, Nat.le_trans hle (lineCount_le_mostLines hmem)⟩

/-- A function of the first step, whose operator fails in the third one. -/
def declaresNegation : String := "gøremål vend(x) \x7b\n  skriv -x;\n\x7d"

def garbled : String := "sæt vend =\n;"

def callsNegation : String := "vend(\"hej\");"

theorem negation_pointsAtSource :
    ∃ m f m', Session.Ran .bare [garbled, declaresNegation] m ∧
      Session.run .bare 2 callsNegation m = .failed (.runtime f) m' ∧
      f.line = 2 ∧ lineCount callsNegation = 1 ∧
      ∃ origin ∈ [callsNegation, garbled, declaresNegation],
        (∃ ss, Program.ofSource origin = .ok ss) ∧
        ∃ t ∈ (tokenize origin).items, f.Marks t := by
  have hsteps :
      ((Session.run .bare 2 declaresNegation (.start (.fixed 0) none)).machine?.bind fun m₁ =>
        (Session.run .bare 2 garbled m₁).machine?.bind fun m₂ =>
        (Session.run .bare 2 callsNegation m₂).fault?.map Fault.line) = some 2 := by
    decide +kernel
  obtain ⟨m₁, hfirst, hsteps⟩ := Option.bind_eq_some_iff.1 hsteps
  obtain ⟨m₂, hsecond, hthird⟩ := Option.bind_eq_some_iff.1 hsteps
  obtain ⟨f, hfault, hline⟩ := Option.map_eq_some_iff.1 hthird
  obtain ⟨m₃, hrun⟩ := Outcome.exists_of_fault? hfault
  have hran : Session.Ran .bare [garbled, declaresNegation] m₂ :=
    .run 2 _ (.run 2 _ (.start (.fixed 0) none) hfirst) hsecond
  exact ⟨m₂, f, m₃, hran, hrun, hline, by decide,
    (ran_pointsAtSource hran 2 callsNegation).2.1 f m₃ hrun⟩

end Sprog
