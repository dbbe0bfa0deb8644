import Sprog.Proofs.Discipline
import Sprog.Proofs.Erasure
import Sprog.Proofs.Seam

/-!
# Layout does not matter

Two source texts with the same words, on whatever lines, are parsed in the same way up to the lines
in their trees, and so they run in the same way: both runs can be compared with the one that has no
lines at all.

* `exists_ofSource`: which source texts are programs does not depend on the lines.
* `execute_sameWords`: trees that differ in lines only.
* `run_sameWords`: source texts that differ in layout only.
-/
namespace Sprog

open Grammar

theorem keepsWords_unplaced : KeepsWords Token.unplaced := ⟨fun _ => rfl, fun _ => rfl⟩

/-- Two runs that end in the same way up to lines: both do not end, or both do, on machines that
differ in lines only, and if with a fault then with faults that differ in lines only. -/
inductive Outcome.SameWords : Outcome Failure Unit → Outcome Failure Unit → Prop where
  | done {m m' : Machine} : m.unplaced = m'.unplaced → SameWords (.done () m) (.done () m')
  | failed {f f' : Fault} {m m' : Machine} : f.unplaced = f'.unplaced →
      m.unplaced = m'.unplaced → SameWords (.failed (.runtime f) m) (.failed (.runtime f') m')
  | exhausted : SameWords .exhausted .exhausted

/-- Two runs that do what a third one does without lines end in the same way up to lines. -/
theorem Outcome.Erases.sameWords {x y z z' : Outcome Fault Unit} (hx : x.Erases id z)
    (hy : y.Erases id z') (hz : z = z') :
    (x.mapError Failure.runtime).SameWords (y.mapError Failure.runtime) := by
  cases hx with
  | done =>
    cases hy with
    | done => exact .done (Outcome.done.inj hz).2
    | failed | exhausted => cases hz
  | failed hf =>
    cases hy with
    | failed hf' =>
      obtain ⟨rfl, hm⟩ := Outcome.failed.inj hz
      exact .failed (hf.symm.trans hf') hm
    | done | exhausted => cases hz
  | exhausted =>
    cases hy with
    | exhausted => exact .exhausted
    | done | failed => cases hz

theorem execute_sameWords {host : Host} (hhost : host.Blind) {ss ss' : List Stmt}
    (h : Stmt.mapAll Token.unplaced ss = Stmt.mapAll Token.unplaced ss') {m m' : Machine}
    (hm : m.unplaced = m'.unplaced) (n : Nat) :
    ((Session.execute host n ss m).mapError Failure.runtime).SameWords
      ((Session.execute host n ss' m').mapError Failure.runtime) :=
  (erases_execute hhost n ss m).sameWords (erases_execute hhost n ss' m') (by rw [h, hm])

/-! ## Source texts -/

/-- A source text with the words of a program is a program, with the same tree up to lines. -/
theorem exists_ofSource {source source' : String} {ss : List Stmt}
    (hlexical : (tokenize source').errors = [])
    (hwords : (tokenize source).items.map Token.unplaced =
      (tokenize source').items.map Token.unplaced)
    (h : Program.ofSource source = .ok ss) :
    ∃ ss', Program.ofSource source' = .ok ss' ∧
      Stmt.mapAll Token.unplaced ss = Stmt.mapAll Token.unplaced ss' := by
  have hend := exists_eof_mem_items
  let r := Renaming.ofTokens Token.unplaced keepsWords_unplaced
  -- without lines both texts have the same tokens, and so the same parse
  have hboth : (parse (tokenize source).items).map r = (parse (tokenize source').items).map r :=
    calc (parse (tokenize source).items).map r
        = parse ((tokenize source).items.map Token.unplaced) := (parse_map r (hend source)).symm
      _ = parse ((tokenize source').items.map Token.unplaced) := by rw [hwords]
      _ = (parse (tokenize source').items).map r := parse_map r (hend source')
  have hparse := parse_iff_program.2 (ofSource_eq_ok_iff.1 h).2
  rcases hparse' : parse (tokenize source').items with ⟨ss', errors'⟩
  rw [hparse, hparse'] at hboth
  obtain ⟨htrees, herrors⟩ := ParseResult.mk.inj hboth
  have hnone : errors' = [] := List.map_eq_nil_iff.1 herrors.symm
  exact ⟨ss', ofSource_eq_ok_iff.2 ⟨hlexical, parse_iff_program.1 (hnone ▸ hparse')⟩, htrees⟩

/-- Layout does not matter. Two source texts without lexical faults whose tokens agree in kind,
lexeme and literal are both programs or both none. If they are, then on machines that differ only in
the lines of stored functions both runs end in the same way: the same text is written and the same
calls are made, the machines differ again only in such lines, and the faults only in their line. Or
both do not end, with the same allowance. -/
theorem run_sameWords {host : Host} (hhost : host.Blind) {source source' : String}
    (hlexical : (tokenize source).errors = [])
    (hlexical' : (tokenize source').errors = [])
    (hwords : (tokenize source).items.map Token.unplaced =
      (tokenize source').items.map Token.unplaced) :
    ((∃ ss, Program.ofSource source = .ok ss) ↔ ∃ ss, Program.ofSource source' = .ok ss) ∧
    ((∃ ss, Program.ofSource source = .ok ss) → ∀ m m' : Machine, m.unplaced = m'.unplaced →
      ∀ n, (Session.run host n source m).SameWords (Session.run host n source' m')) := by
  refine ⟨⟨?_, ?_⟩, ?_⟩
  · rintro ⟨ss, hss⟩
    obtain ⟨ss', hss', -⟩ := exists_ofSource hlexical' hwords hss
    exact ⟨ss', hss'⟩
  · rintro ⟨ss', hss'⟩
    obtain ⟨ss, hss, -⟩ := exists_ofSource hlexical hwords.symm hss'
    exact ⟨ss, hss⟩
  · rintro ⟨ss, hss⟩ m m' hm n
    obtain ⟨ss', hss', htrees⟩ := exists_ofSource hlexical' hwords hss
    rw [run_of_ofSource hss, run_of_ofSource hss']
    exact execute_sameWords hhost htrees hm n

/-- A machine with one function, which prints its argument and is written on the given line. -/
def greeter (line : Nat) : Machine :=
  let name : Token := ⟨.identifier, "hils", none, line⟩
  let who : Token := ⟨.identifier, "hvem", none, line⟩
  let body : Stmt := .print ⟨.printKw, "skriv", none, line⟩ (.var who)
  { Machine.start (.fixed 0) none with
    env := ⟨#[⟨[("hils", .callable ⟨1, .function ⟨name, [who], [body]⟩⟩)], none⟩], 0⟩
    fresh := 2 }

def greetingOnOneLine : String := "hils(\"dig\"); -hils;"

def greetingOnManyLines : String := "hils( // hvem?\n\"dig\"\n)\t;\n\n-\nhils;\n"

/-- Both texts print and then fail, on different lines. -/
theorem greetings_sameWords :
    (tokenize greetingOnOneLine).items.map Token.unplaced =
      (tokenize greetingOnManyLines).items.map Token.unplaced ∧
    (greeter 1).unplaced = (greeter 7).unplaced ∧
    (Session.run .bare 1 greetingOnOneLine (greeter 1)).SameWords
      (Session.run .bare 1 greetingOnManyLines (greeter 7)) ∧
    (Session.run .bare 1 greetingOnOneLine (greeter 1)).fault?.map Fault.line = some 1 ∧
    (Session.run .bare 1 greetingOnManyLines (greeter 7)).fault?.map Fault.line = some 5 := by
  have hwords : (tokenize greetingOnOneLine).items.map Token.unplaced =
      (tokenize greetingOnManyLines).items.map Token.unplaced := by decide +kernel
  have hmachines : (greeter 1).unplaced = (greeter 7).unplaced := by
    simp only [greeter, Machine.unplaced, Environment.mapValues, List.map_toArray]
    rfl
  have hprogram : ∃ ss, Program.ofSource greetingOnOneLine = .ok ss :=
    exists_of_toBool (by decide +kernel)
  have hboth := run_sameWords Host.blind_bare (by decide +kernel) (by decide +kernel) hwords
  exact ⟨hwords, hmachines, hboth.2 hprogram _ _ hmachines 1, by decide +kernel,
    by decide +kernel⟩

end Sprog
