import Sprog.Fault

/-!
# Scopes

The scopes that are open stand in one array, each with the handle of the scope around it. A name is
looked up from the current scope outwards. Scope 0 is the global one and is never closed.
-/
namespace Sprog

/-- The place of a scope in the array of scopes. -/
abbrev Handle := Nat

/-- The names of one scope with their values, each name once, in the order of their definition. -/
abbrev Bindings := List (String × Value)

/-- Binds a name, in the place of its old value if it has one. -/
def Bindings.insert (name : String) (value : Value) : Bindings → Bindings
  | [] => [(name, value)]
  | (x, v) :: rest =>
    if x = name then (x, value) :: rest else (x, v) :: Bindings.insert name value rest

/-- One scope. -/
structure Scope where
  bindings : Bindings
  parent : Option Handle
  deriving Repr

namespace Scope

def get? (s : Scope) (name : String) : Option Value :=
  s.bindings.lookup name

def insert (s : Scope) (name : String) (value : Value) : Scope :=
  { s with bindings := s.bindings.insert name value }

end Scope

structure Environment where
  scopes : Array Scope
  current : Handle
  deriving Repr

namespace Environment

/-- The global scope alone. -/
def empty : Environment := ⟨#[⟨[], none⟩], 0⟩

/-- The number of open scopes. -/
def depth (e : Environment) : Nat := e.scopes.size

/-- Opens a scope inside `parent` and makes it the current one. -/
def push (e : Environment) (parent : Handle) : Environment :=
  ⟨e.scopes.push ⟨[], some parent⟩, e.scopes.size⟩

/-- Closes the scope opened last, unless it is the global one, and makes `previous` the current
one. -/
def pop (e : Environment) (previous : Handle) : Environment :=
  ⟨if 1 < e.scopes.size then e.scopes.pop else e.scopes, previous⟩

/-- Binds a name in the current scope. -/
def define (e : Environment) (name : String) (value : Value) : Environment :=
  { e with scopes := e.scopes.modify e.current (·.insert name value) }

/-- The first scope with the name on the way outwards from `handle`, in at most `n` steps. -/
def find? (e : Environment) (name : String) : Nat → Handle → Option Handle
  | 0, _ => none
  | n + 1, handle =>
    match e.scopes[handle]? with
    | none => none
    | some scope =>
      if (scope.get? name).isSome then some handle
      else match scope.parent with
        | none => none
        | some parent => e.find? name n parent

/-- The scope that gives the name its meaning. No way outwards passes a scope twice, so the number
of scopes bounds it. -/
def resolve? (e : Environment) (name : String) : Option Handle :=
  e.find? name e.depth e.current

/-- The value of a name. -/
def get? (e : Environment) (name : String) : Option Value := do
  let handle ← e.resolve? name
  let scope ← e.scopes[handle]?
  scope.get? name

/-- Gives a new value to a name that has one, in the scope where it was found. -/
def assign? (e : Environment) (name : String) (value : Value) : Option Environment := do
  let handle ← e.resolve? name
  return { e with scopes := e.scopes.modify handle (·.insert name value) }

/-- The value of the variable that a token names. -/
def read (e : Environment) (name : Token) : Except Fault Value :=
  match e.get? name.lexeme with
  | some value => .ok value
  | none => .error (.undefinedVariable name)

/-- Gives a new value to the variable that a token names. -/
def write (e : Environment) (name : Token) (value : Value) : Except Fault Environment :=
  match e.assign? name.lexeme value with
  | some e => .ok e
  | none => .error (.undefinedVariable name)

end Environment

end Sprog
