import Sprog.Proofs.Stored

/-!
# Rules for programs

What a run does is laid down in the tokens of its trees: which variables it reads and assigns, which
names it declares, and what its faults point at. `Rules` say which tokens may do so, which functions
of the host may be called, and whether there may be loops. The names of declarations are free inside
a scope of their own, where they cannot be global.

* `Expr.obeys`, `Stmt.obeys`, `Value.obeys`: trees and values.
* `Fault.Obeys`: what a fault points at.
* `Ruled`: what it means for the result of a run to obey.
* `Rules.Lenient`, `Rules.Lax`: rules under which every fault is allowed, and rules that forbid
  nothing but declarations outside a scope of their own, and loops.
-/
namespace Sprog

/-- What a program may contain. -/
structure Rules where
  operator : Token → Bool
  /-- The name of a variable that is read. -/
  read : Token → Bool
  /-- The name of a variable that is assigned. -/
  assigned : Token → Bool
  /-- The closing parenthesis of a call. -/
  closing : Token → Bool
  /-- The keyword of a print statement. -/
  keyword : Token → Bool
  /-- The name of a declaration outside all scopes but the global one. -/
  declared : Token → Bool
  /-- Whether there may be loops. -/
  loops : Bool
  native : Native → Bool

mutual

def Expr.obeys (r : Rules) : Expr → Bool
  | .constant _ => true
  | .group e => e.obeys r
  | .unary _ token e => r.operator token && e.obeys r
  | .binary _ token left right => r.operator token && left.obeys r && right.obeys r
  | .logical _ _ left right => left.obeys r && right.obeys r
  | .var name => r.read name
  | .assign name e => r.assigned name && e.obeys r
  | .call callee closing args => callee.obeys r && r.closing closing && Expr.obeysAll r args

def Expr.obeysAll (r : Rules) : List Expr → Bool
  | [] => true
  | e :: es => e.obeys r && Expr.obeysAll r es

end

mutual

/-- `inside` says whether the statement runs in a scope of its own, and not in the global one. -/
def Stmt.obeys (r : Rules) (inside : Bool) : Stmt → Bool
  | .expr e => e.obeys r
  | .print keyword e => r.keyword keyword && e.obeys r
  | .declare name none => inside || r.declared name
  | .declare name (some e) => (inside || r.declared name) && e.obeys r
  | .block body => Stmt.obeysAll r true body
  | .branch test yes none => test.obeys r && yes.obeys r inside
  | .branch test yes (some no) => test.obeys r && yes.obeys r inside && no.obeys r inside
  | .loop test body => r.loops && test.obeys r && body.obeys r inside
  | .function name _ body => (inside || r.declared name) && Stmt.obeysAll r true body

def Stmt.obeysAll (r : Rules) (inside : Bool) : List Stmt → Bool
  | [] => true
  | s :: ss => s.obeys r inside && Stmt.obeysAll r inside ss

end

def Value.obeys (r : Rules) : Value → Bool
  | callable ⟨_, .function f⟩ => Stmt.obeysAll r true f.body
  | callable ⟨_, .native f⟩ => r.native f
  | nil | bool _ | number _ | text _ => true

/-- What the fault points at is allowed to be there. -/
def Fault.Obeys (r : Rules) : Fault → Prop
  | undefinedVariable name => r.read name ∨ r.assigned name
  | operandNotNumber op | operandsNotNumbers op | operandsNotNumbersOrTexts op => r.operator op
  | notCallable line _ | wrongArgumentCount line _ _ | stackOverflow line =>
    ∃ t, r.closing t ∧ t.line = line
  | sinkFull line => ∃ t, r.keyword t ∧ t.line = line

def Fault.isOverflow : Fault → Bool
  | stackOverflow _ => true
  | undefinedVariable _ | operandNotNumber _ | operandsNotNumbers _ | operandsNotNumbersOrTexts _
  | notCallable .. | wrongArgumentCount .. | sinkFull _ => false

/-! ## Values and operations -/

theorem Value.obeys_of_isPlain {r : Rules} {v : Value} (h : v.isPlain = true) :
    v.obeys r = true := by
  cases v with
  | callable c => cases h
  | nil | bool | number | text => rfl

/-- A fault that is raised without a call: it is no overflow. -/
structure Fault.Plain (r : Rules) (f : Fault) : Prop where
  obeys : f.Obeys r
  not_overflow : f.isOverflow = false

/-- An operation that fails blames its operator. -/
theorem UnaryOp.plain_of_apply {r : Rules} {op : UnaryOp} {token : Token} {v : Value} {f : Fault}
    (ht : r.operator token = true) (h : op.apply token v = .error f) : f.Plain r := by
  rcases op.apply_cases token v with ⟨a, ha, -⟩ | hf
  · cases ha.symm.trans h
  · cases hf.symm.trans h
    exact ⟨ht, rfl⟩

theorem BinaryOp.plain_of_apply {r : Rules} {op : BinaryOp} {token : Token} {a b : Value}
    {f : Fault} (ht : r.operator token = true) (h : op.apply token a b = .error f) :
    f.Plain r := by
  rcases op.apply_cases token a b with ⟨v, hv, -⟩ | ⟨e, he, rfl | rfl⟩
  · cases hv.symm.trans h
  · cases he.symm.trans h
    exact ⟨ht, rfl⟩
  · cases he.symm.trans h
    exact ⟨ht, rfl⟩

theorem UnaryOp.obeys_apply {r : Rules} {op : UnaryOp} {token : Token} {v a : Value}
    (h : op.apply token v = .ok a) : a.obeys r = true := by
  rcases op.apply_cases token v with ⟨b, hb, hplain⟩ | hf
  · cases hb.symm.trans h
    exact Value.obeys_of_isPlain hplain
  · cases hf.symm.trans h

theorem BinaryOp.obeys_apply {r : Rules} {op : BinaryOp} {token : Token} {l r' a : Value}
    (h : op.apply token l r' = .ok a) : a.obeys r = true := by
  rcases op.apply_cases token l r' with ⟨b, hb, hplain⟩ | ⟨e, he, -⟩
  · cases hb.symm.trans h
    exact Value.obeys_of_isPlain hplain
  · cases he.symm.trans h

/-! ## Rules that forbid little -/

/-- A fault may point anywhere. -/
structure Rules.Lenient (r : Rules) : Prop where
  operator : ∀ t, r.operator t = true
  read : ∀ t, r.read t = true
  closing : ∀ t, r.closing t = true
  keyword : ∀ t, r.keyword t = true

/-- Nothing is forbidden but, maybe, declarations outside a scope of their own, and loops. -/
structure Rules.Lax (r : Rules) : Prop extends r.Lenient where
  assigned : ∀ t, r.assigned t = true
  native : ∀ f, r.native f = true

section
variable {r : Rules}

/-- Every fault points at something that is allowed. -/
theorem Fault.obeys_of_lenient (h : r.Lenient) (f : Fault) : f.Obeys r := by
  cases f with
  | undefinedVariable name => exact .inl (h.read name)
  | operandNotNumber op | operandsNotNumbers op | operandsNotNumbersOrTexts op =>
    exact h.operator op
  | notCallable line | wrongArgumentCount line | stackOverflow line =>
    exact ⟨.eof line, h.closing _, rfl⟩
  | sinkFull line => exact ⟨.eof line, h.keyword _, rfl⟩

mutual

theorem Expr.obeys_of_lax (h : r.Lax) : ∀ e : Expr, e.obeys r = true
  | .constant _ => rfl
  | .var name => h.read name
  | .group e => Expr.obeys_of_lax h e
  | .unary _ token e =>
    Bool.and_eq_true_iff.2 ⟨h.operator token, Expr.obeys_of_lax h e⟩
  | .assign name e =>
    Bool.and_eq_true_iff.2 ⟨h.assigned name, Expr.obeys_of_lax h e⟩
  | .binary _ token left right =>
    Bool.and_eq_true_iff.2 ⟨Bool.and_eq_true_iff.2 ⟨h.operator token, Expr.obeys_of_lax h left⟩,
      Expr.obeys_of_lax h right⟩
  | .logical _ _ left right =>
    Bool.and_eq_true_iff.2 ⟨Expr.obeys_of_lax h left, Expr.obeys_of_lax h right⟩
  | .call callee closing args =>
    Bool.and_eq_true_iff.2 ⟨Bool.and_eq_true_iff.2 ⟨Expr.obeys_of_lax h callee, h.closing closing⟩,
      Expr.obeysAll_of_lax h args⟩

theorem Expr.obeysAll_of_lax (h : r.Lax) : ∀ es : List Expr, Expr.obeysAll r es = true
  | [] => rfl
  | e :: es => Bool.and_eq_true_iff.2 ⟨Expr.obeys_of_lax h e, Expr.obeysAll_of_lax h es⟩

end

mutual

/-- Where declarations are free, every statement is allowed. -/
theorem Stmt.obeys_of_lax (h : r.Lax) (hloops : r.loops = true) {inside : Bool}
    (hname : ∀ t, (inside || r.declared t) = true) : ∀ s : Stmt, s.obeys r inside = true
  | .expr e => Expr.obeys_of_lax h e
  | .print keyword e => Bool.and_eq_true_iff.2 ⟨h.keyword keyword, Expr.obeys_of_lax h e⟩
  | .declare name none => hname name
  | .declare name (some e) => Bool.and_eq_true_iff.2 ⟨hname name, Expr.obeys_of_lax h e⟩
  | .block body => Stmt.obeysAll_of_lax h hloops (fun _ => rfl) body
  | .branch test yes none =>
    Bool.and_eq_true_iff.2 ⟨Expr.obeys_of_lax h test, Stmt.obeys_of_lax h hloops hname yes⟩
  | .branch test yes (some no) =>
    Bool.and_eq_true_iff.2 ⟨Bool.and_eq_true_iff.2 ⟨Expr.obeys_of_lax h test,
      Stmt.obeys_of_lax h hloops hname yes⟩, Stmt.obeys_of_lax h hloops hname no⟩
  | .loop test body =>
    Bool.and_eq_true_iff.2 ⟨Bool.and_eq_true_iff.2 ⟨hloops, Expr.obeys_of_lax h test⟩,
      Stmt.obeys_of_lax h hloops hname body⟩
  | .function name _ body =>
    Bool.and_eq_true_iff.2 ⟨hname name, Stmt.obeysAll_of_lax h hloops (fun _ => rfl) body⟩

theorem Stmt.obeysAll_of_lax (h : r.Lax) (hloops : r.loops = true) {inside : Bool}
    (hname : ∀ t, (inside || r.declared t) = true) :
    ∀ ss : List Stmt, Stmt.obeysAll r inside ss = true
  | [] => rfl
  | s :: ss =>
    Bool.and_eq_true_iff.2 ⟨Stmt.obeys_of_lax h hloops hname s,
      Stmt.obeysAll_of_lax h hloops hname ss⟩

end

theorem Value.obeys_of_lax (h : r.Lax) (hloops : r.loops = true) (v : Value) :
    v.obeys r = true := by
  cases v with
  | callable c =>
    rcases c with ⟨_, f | f⟩
    · exact Stmt.obeysAll_of_lax h hloops (fun _ => rfl) f.body
    · exact h.native f
  | nil | bool | number | text => rfl

end

/-- Everything is allowed. -/
def Rules.everything : Rules where
  operator _ := true
  read _ := true
  assigned _ := true
  closing _ := true
  keyword _ := true
  declared _ := true
  loops := true
  native _ := true

theorem lax_everything : Rules.everything.Lax :=
  ⟨⟨fun _ => rfl, fun _ => rfl, fun _ => rfl, fun _ => rfl⟩, fun _ => rfl, fun _ => rfl⟩

theorem Stmt.obeys_everything (inside : Bool) (s : Stmt) : s.obeys .everything inside = true :=
  Stmt.obeys_of_lax lax_everything rfl (fun _ => Bool.or_true inside) s

theorem Stmt.obeysAll_everything (inside : Bool) (ss : List Stmt) :
    Stmt.obeysAll .everything inside ss = true :=
  Stmt.obeysAll_of_lax lax_everything rfl (fun _ => Bool.or_true inside) ss

/-- Everything is allowed but a declaration outside a scope of its own. -/
def Rules.noGlobals : Rules := { Rules.everything with declared _ := false }

theorem lax_noGlobals : Rules.noGlobals.Lax :=
  ⟨⟨fun _ => rfl, fun _ => rfl, fun _ => rfl, fun _ => rfl⟩, fun _ => rfl, fun _ => rfl⟩

/-- Inside a scope of its own every statement is allowed. -/
theorem Stmt.obeysAll_noGlobals (ss : List Stmt) : Stmt.obeysAll .noGlobals true ss = true :=
  Stmt.obeysAll_of_lax lax_noGlobals rfl (fun _ => rfl) ss

/-! ## Results -/

/-- What it means for the result of a run to obey the rules. -/
class Ruled (α : Type) where
  Obeys : Rules → α → Prop
  /-- Where nothing is forbidden inside a scope, every result obeys. -/
  of_lax : ∀ {r : Rules}, r.Lax → r.loops = true → ∀ a, Obeys r a

instance : Ruled Value := ⟨fun r v => v.obeys r = true, Value.obeys_of_lax⟩

instance : Ruled (List Value) :=
  ⟨fun r vs => ∀ v ∈ vs, v.obeys r = true, fun h hloops _ v _ => v.obeys_of_lax h hloops⟩

instance : Ruled Bool := ⟨fun _ _ => True, fun _ _ _ => trivial⟩

instance : Ruled Unit := ⟨fun _ _ => True, fun _ _ _ => trivial⟩

end Sprog
